import ConvertBinaryC.CarryRules
import ConvertBinaryC.CBCPackUpdate

/-! Where packing and unpacking store to their buffer and fetch from it. The checks of
`GROW_BUFFER` and `CHECK_BUFFER` add a size to an unsigned position, and so let an object pass
that starts in front of the buffer and ends inside of it. -/
namespace ConvertBinaryC
open StateRules CarryRules

/-- The bytes that an event stores or fetches: the first one, and how many. -/
def Event.range : Event → Option (ℤ × ℤ)
  | .access _ _ _ pos size => some (pos, size)
  | .copy _ pos size => some (pos, size)
  | .grow .. => none
  | .elements .. => none

/-- They are in a buffer of this length. -/
def Event.Inside (length : ℤ) (e : Event) : Prop :=
  ∀ r ∈ e.range, r.2 ≤ 0 ∨ 0 ≤ r.1 ∧ r.1 + r.2 ≤ length

/-- They start at a position that is negative as a long, which is in front of the buffer. -/
def Event.InFront (e : Event) : Prop := ∃ r ∈ e.range, 0 < r.2 ∧ 9223372036854775808 ≤ r.1

/-- The length of the buffer behind an event. -/
def Event.lengthAfter (length : ℤ) : Event → ℤ
  | .grow _ required => max length required
  | _ => length

/-- The bytes that an event changes; the zeros reach one byte beyond the new length. -/
def Event.Touches (length : ℤ) (i : ℕ) : Event → Prop
  | .access _ _ _ pos size => pos ≤ i ∧ i < pos + size
  | .copy _ pos size => pos ≤ i ∧ i < pos + size
  | .grow _ required => length ≤ i ∧ i ≤ required
  | .elements .. => False

/-- Each event has a property together with the length of the buffer in front of it. -/
def EachAt (P : ℤ → Event → Prop) : ℤ → List Event → Prop
  | _, [] => True
  | length, e :: events => P length e ∧ EachAt P (e.lengthAfter length) events

def lengthAfter (length : ℤ) (events : List Event) : ℤ := events.foldl Event.lengthAfter length

theorem eachAt_append {P : ℤ → Event → Prop} {length : ℤ} {l l' : List Event} :
    EachAt P length (l ++ l') ↔ EachAt P length l ∧ EachAt P (lengthAfter length l) l' := by
  induction l generalizing length with
  | nil => exact ⟨fun h => ⟨trivial, h⟩, And.right⟩
  | cons e l ih => exact (and_congr_right fun _ => ih).trans and_assoc.symm

theorem lengthAfter_append (length : ℤ) (l l' : List Event) :
    lengthAfter length (l ++ l') = lengthAfter (lengthAfter length l) l' := List.foldl_append

/-- What a run has done between two states: its events, each of which stays in the buffer unless
it is in front of it, and no byte has changed that they do not touch. -/
structure Logs (s t : PackInfo) (events : List Event) : Prop where
  trace : t.trace = s.trace ++ events
  right : EachAt (fun length e => e.Inside length ↔ ¬ e.InFront) s.length events
  kept : ∀ i, EachAt (fun length e => ¬ e.Touches length i) s.length events →
    t.buffer i = s.buffer i

theorem Logs.trans {s t u : PackInfo} {l l' : List Event} (h : Logs s t l)
    (hlength : t.length = lengthAfter s.length l) (h' : Logs t u l') : Logs s u (l ++ l') where
  trace := by rw [h'.trace, h.trace, List.append_assoc]
  right := eachAt_append.mpr ⟨h.right, hlength ▸ h'.right⟩
  kept i hi := by
    obtain ⟨hfst, hsnd⟩ := eachAt_append.mp hi
    exact (h'.kept i (hlength ▸ hsnd)).trans (h.kept i hfst)

theorem logs_nil {s t : PackInfo} (htrace : t.trace = s.trace) (hbuffer : t.buffer = s.buffer) :
    Logs s t [] where
  trace := htrace.trans (List.append_nil _).symm
  right := trivial
  kept i _ := congrFun hbuffer i

/-- The handle stays in its ranges, and its length is what the events make it. -/
def boundsEffect : Effect Fault PackInfo where
  returns s t := s.Bounded →
    t.Bounded ∧ ∃ events, Logs s t events ∧ t.length = lengthAfter s.length events
  fails s _ t := s.Bounded → ∃ events, Logs s t events
  refl s hs := ⟨hs, [], logs_nil rfl rfl, rfl⟩
  trans h h' hs := by
    obtain ⟨ht, l, hl, hlength⟩ := h hs
    obtain ⟨hu, l', hl', hlength'⟩ := h' ht
    refine ⟨hu, l ++ l', hl.trans hlength hl', ?_⟩
    rw [lengthAfter_append, ← hlength, hlength']
  absorb h h' hs := by
    obtain ⟨ht, l, hl, hlength⟩ := h hs
    obtain ⟨l', hl'⟩ := h' ht
    exact ⟨l ++ l', hl.trans hlength hl'⟩

theorem bounds_same {s t : PackInfo} (hbounded : s.Bounded → t.Bounded)
    (hlength : t.length = s.length) (htrace : t.trace = s.trace) (hbuffer : t.buffer = s.buffer) :
    boundsEffect.returns s t :=
  fun hs => ⟨hbounded hs, [], logs_nil htrace hbuffer, hlength⟩

theorem bounds_throw {α : Type} (e : Fault) : boundsEffect.Holds (throw e : Pk α) :=
  fun _ _ => ⟨[], logs_nil rfl rfl⟩

theorem bounds_indifferent (perl : Perl) : Indifferent boundsEffect perl where
  pos x s := bounds_same
    (fun hs => ⟨u64_nonneg x, u64_lt x, hs.length_nonneg, hs.length_lt⟩) rfl rfl rfl
  parent _ _ := bounds_same (fun hs => hs.of_eq rfl rfl) rfl rfl rfl
  sub sub arg := by
    intro s
    apply Effect.At.get_bind
    have hset : boundsEffect.At (set { s with calls := s.calls + 1 } : Pk PUnit) s :=
      Effect.At.set (bounds_same (fun hs => hs.of_eq rfl rfl) rfl rfl rfl)
    apply hset.bind
    intro _ t _
    split
    · exact Effect.holds_pure _ t
    · exact bounds_throw _ t
  fault e _ := bounds_throw e
  order _ _ := bounds_same (fun hs => hs.of_eq rfl rfl) rfl rfl rfl
  path _ _ := bounds_same (fun hs => hs.of_eq rfl rfl) rfl rfl rfl

/-- Bytes that end inside of the buffer, unless they start in front of it. -/
theorem range_inside_iff {s : PackInfo} (hs : s.Bounded) {n : ℤ}
    (hfits : s.pos < 9223372036854775808 → 0 < n → s.pos + n ≤ s.length) {e : Event}
    (he : e.range = some (s.pos, n)) : e.Inside s.length ↔ ¬ e.InFront := by
  have hpos := hs.pos_nonneg
  have hlength := hs.length_lt
  unfold Event.Inside Event.InFront
  rw [he]
  simp only [Option.mem_some_iff, forall_eq', exists_eq_left']
  constructor
  · omega
  · intro hfront
    by_cases hempty : n ≤ 0
    · exact .inl hempty
    · exact .inr ⟨hpos, hfits (by omega) (by omega)⟩

/-- What stores or fetches the first bytes of an object that has passed a check. -/
theorem access_inside_iff {s : PackInfo} (hs : s.Bounded) {size n : ℤ} (hsize : size < 4294967296)
    (hn : n ≤ size) (hchecked : u64 (s.pos + size) ≤ s.length) {e : Event}
    (he : e.range = some (s.pos, n)) : e.Inside s.length ↔ ¬ e.InFront := by
  apply range_inside_iff hs ?_ he
  intro hlow hpos
  have hnonneg := hs.pos_nonneg
  unfold u64 at hchecked
  rw [Int.emod_eq_of_lt (by omega) (by omega)] at hchecked
  omega

/-- A store notes its event, and then fails or changes only the bytes of the event. -/
def StoresAt (e : Event) (m : Pk Unit) (s : PackInfo) : Prop :=
  (∃ f, m s = .error f (s.emit e)) ∨
    ∃ buffer, m s = .ok ⟨⟩ { s.emit e with buffer := buffer } ∧
      ∀ i, ¬ e.Touches s.length i → buffer i = s.buffer i

/-- A fetch notes its event. -/
def FetchesAt {α : Type} (e : Event) (m : Pk α) (s : PackInfo) : Prop :=
  (∃ f, m s = .error f (s.emit e)) ∨ ∃ a, m s = .ok a (s.emit e)

theorem logs_emit {s : PackInfo} {e : Event} (hright : e.Inside s.length ↔ ¬ e.InFront)
    {buffer : Memory} (hkept : ∀ i, ¬ e.Touches s.length i → buffer i = s.buffer i) :
    Logs s { s.emit e with buffer := buffer } [e] where
  trace := rfl
  right := ⟨hright, trivial⟩
  kept i hi := hkept i hi.1

theorem Event.lengthAfter_of_range {e : Event} {r : ℤ × ℤ} (he : e.range = some r) (length : ℤ) :
    e.lengthAfter length = length := by
  cases e with
  | grow _ _ => cases he
  | _ => rfl

section At
variable {s : PackInfo} {e : Event} {r : ℤ × ℤ} (he : e.range = some r)
  (hright : s.Bounded → (e.Inside s.length ↔ ¬ e.InFront))
include he hright

theorem StoresAt.bounds {m : Pk Unit} (h : StoresAt e m s) : boundsEffect.At m s := by
  unfold Effect.At
  rcases h with ⟨f, hm⟩ | ⟨buffer, hm, hkept⟩
  · rw [hm]
    exact fun hs => ⟨[e], logs_emit (hright hs) fun _ _ => rfl⟩
  · rw [hm]
    intro hs
    exact ⟨hs.of_eq rfl rfl, [e], logs_emit (hright hs) hkept, (e.lengthAfter_of_range he _).symm⟩

theorem FetchesAt.bounds {α : Type} {m : Pk α} (h : FetchesAt e m s) : boundsEffect.At m s := by
  unfold Effect.At
  rcases h with ⟨f, hm⟩ | ⟨a, hm⟩
  · rw [hm]
    exact fun hs => ⟨[e], logs_emit (hright hs) fun _ _ => rfl⟩
  · rw [hm]
    intro hs
    exact ⟨hs.of_eq rfl rfl, [e], logs_emit (hright hs) fun _ _ => rfl,
      (e.lengthAfter_of_range he _).symm⟩

end At

theorem bounds_of_bounded {α : Type} {m : Pk α} {s : PackInfo}
    (h : s.Bounded → boundsEffect.At m s) : boundsEffect.At m s := by
  by_cases hs : s.Bounded
  · exact h hs
  · unfold Effect.At
    cases m s <;> exact fun hs' => absurd hs' hs

/-! The stores. -/
section Stores
variable {perl : Perl} {cbc : CBC} {s : PackInfo} (hs : s.Bounded)
include hs

theorem storeInt_stores (size : ℤ) (pBI : Option BitfieldInfo) (iv : IntValue) :
    StoresAt (.access s.path pBI.isSome (intOrder cbc s pBI) s.pos size) (storeInt cbc size pBI iv)
      s := by
  unfold StoresAt storeInt
  rw [get_then, emit_then]
  by_cases hlong : s.pos + size > s.length
  · rw [if_pos hlong]
    exact .inl ⟨_, rfl⟩
  · rw [if_neg hlong]
    cases hstore : storeInteger size.toNat (bitsOf pBI).1 (bitsOf pBI).2 (intOrder cbc s pBI)
      s.buffer s.pos.toNat iv with
    | error f => exact .inl ⟨f, rfl⟩
    | ok buffer =>
      refine .inr ⟨buffer, rfl, ?_⟩
      intro i hi
      have hpos := hs.pos_nonneg
      apply storeInteger_frame hstore
      simp only [Event.Touches] at hi
      omega

theorem storeBytes_stores {n : ℕ} {size : ℤ} {bytes : ℕ → Byte} {e : Event}
    (he : ∀ i : ℕ, ¬ e.Touches s.length i → ¬ (s.pos ≤ i ∧ i < s.pos + size))
    (hn : n ≤ size.toNat) : StoresAt e (emit e >>= fun _ => storeBytes n bytes) s := by
  unfold StoresAt
  rw [emit_then]
  unfold storeBytes
  rw [get_then]
  split_ifs with hlong
  · exact .inl ⟨_, rfl⟩
  · refine .inr ⟨_, rfl, ?_⟩
    intro i hi
    have hpos := hs.pos_nonneg
    have hout := he i hi
    exact if_neg (by show ¬ (s.pos.toNat ≤ i ∧ i < s.pos.toNat + n); omega)

theorem storeFloatSv_bounds {size : ℤ} (hsize : size < 4294967296)
    (hchecked : u64 (s.pos + size) ≤ s.length) (flags : TFlags) (v : Scalar) :
    boundsEffect.At (storeFloatSv perl cbc size flags v) s := by
  unfold storeFloatSv
  split_ifs
  · apply Effect.At.get_bind
    refine StoresAt.bounds (e := .access s.path false s.order s.pos size) rfl
      (fun hs => access_inside_iff hs hsize le_rfl hchecked rfl)
      (storeBytes_stores hs (fun i hi => hi) ?_)
    split_ifs <;> simp
  · exact Effect.holds_pure _ s

theorem copyFormat_bounds {size : ℤ} (hsize : size < 4294967296)
    (hchecked : u64 (s.pos + size) ≤ s.length) (format : FormatTag) (len : ℤ) (p : List Byte) :
    boundsEffect.At (copyFormat format size len p) s := by
  unfold copyFormat
  apply Effect.At.get_bind
  have hle : (if len > size then size else len) ≤ size := by
    split_ifs <;> omega
  have hstores : StoresAt (.copy s.path s.pos (if len > size then size else len))
      (emit _ >>= fun _ => storeBytes _ (formatByte format p)) s :=
    storeBytes_stores hs (fun i hi => hi) le_rfl
  exact hstores.bounds rfl fun hs => access_inside_iff hs hsize hle hchecked rfl

end Stores

/-! Growing. -/

section Grow
variable {perl : Perl} (hmemory : perl.memory ≤ 9223372036854775808)
include hmemory

theorem bounds_grow (size : ℤ) : boundsEffect.Holds (growBuffer perl size) := by
  intro s
  have hright : (Event.grow s.path (u64 (s.pos + size))).Inside s.length ↔
      ¬ (Event.grow s.path (u64 (s.pos + size))).InFront := by
    constructor
    · rintro _ ⟨r, hr, _⟩
      cases hr
    · intro _ r hr
      cases hr
  unfold Effect.At
  rcases growBuffer_cases perl size s with ⟨f, hrun⟩ | ⟨hfits, hrun⟩ | ⟨hlong, hlt, hrun⟩
  · rw [hrun]
    exact fun hs => ⟨_, logs_emit hright fun _ _ => rfl⟩
  · rw [hrun]
    intro hs
    exact ⟨hs.of_eq rfl rfl, _, logs_emit hright fun _ _ => rfl, (max_eq_left hfits).symm⟩
  · rw [hrun]
    intro hs
    refine ⟨⟨hs.pos_nonneg, hs.pos_lt, u64_nonneg _, hlt.trans_le hmemory⟩, _,
      ⟨rfl, ⟨hright, trivial⟩, ?_⟩, (max_eq_right hlong.le).symm⟩
    intro i hi
    exact if_neg hi.1

/-- What is done once the buffer has grown for an object. -/
theorem bounds_grow_then {m : Pk Unit} {size : ℤ}
    (h : ∀ t, t.Bounded → u64 (t.pos + size) ≤ t.length → boundsEffect.At m t) :
    boundsEffect.Holds (growBuffer perl size >>= fun _ => m) := by
  intro s
  apply bounds_of_bounded
  intro hs
  apply (bounds_grow hmemory size s).bind
  intro _ t ht
  have hbounded : t.Bounded := (((bounds_grow hmemory size s).returns ht) hs).1
  apply h t hbounded
  rcases growBuffer_ok ht with ⟨hfits, rfl⟩ | ⟨_, rfl⟩
  · exact hfits
  · exact le_rfl

end Grow

/-- The size of the unit of a bitfield, if there is one, is a value of its byte. -/
def UnitFits (pBI : Option BitfieldInfo) : Prop := ∀ bit ∈ pBI, bit.size < 256

def Declarator.UnitFits (d : Declarator) : Prop := ∀ bit, d.ext = .bitfield bit → bit.size < 256

/-- The sizes of what is packed are values of their fields, which are unsigned. -/
structure CBC.SizesFit (cbc : CBC) : Prop where
  ptr : ptrSize cbc < 4294967296
  basic : ∀ flags, (packLoadSize cbc flags none).1 < 4294967296
  enum : ∀ e, enumTypeSize cbc.pLP (cbc.heap.enumAt e) < 4294967296
  struct : ∀ s, (cbc.heap.structAt s).size < 4294967296
  unit : cbc.heap.Declarators Declarator.UnitFits

section Sizes
variable {cbc : CBC} (hsizes : cbc.SizesFit) {pBI : Option BitfieldInfo} (hBI : UnitFits pBI)
include hsizes hBI

theorem packLoadSize_lt (flags : TFlags) : (packLoadSize cbc flags pBI).1 < 4294967296 := by
  cases pBI with
  | none => exact hsizes.basic flags
  | some bit => exact (hBI bit rfl).trans (by norm_num)

theorem packEnumSize_lt (e : ℕ) : packEnumSize cbc (cbc.heap.enumAt e) pBI < 4294967296 := by
  cases pBI with
  | none => exact hsizes.enum e
  | some bit => exact (hBI bit rfl).trans (by norm_num)

end Sizes

theorem bounds_lift {α : Type} (c : Call α) : boundsEffect.Holds (liftCall c) := by
  cases c with
  | ok a => exact Effect.holds_pure a
  | error e => exact bounds_throw e

theorem bounds_elements (path : List Scope) (flexible : Bool) (pos length size count : ℤ) :
    boundsEffect.Holds (emit (.elements path flexible pos length size count)) := by
  intro s hs
  refine ⟨hs.of_eq rfl rfl, _, logs_emit ?_ fun _ _ => rfl, rfl⟩
  constructor
  · rintro _ ⟨r, hr, _⟩
    cases hr
  · intro _ r hr
    cases hr

theorem bounds_storeInt {cbc : CBC} {size : ℤ} (hsize : size < 4294967296) {t : PackInfo}
    (ht : t.Bounded) (hchecked : u64 (t.pos + size) ≤ t.length) (pBI : Option BitfieldInfo)
    (iv : IntValue) : boundsEffect.At (storeInt cbc size pBI iv) t :=
  (storeInt_stores ht size pBI iv).bounds rfl fun ht =>
    access_inside_iff ht hsize le_rfl hchecked rfl

section Pack
variable {perl : Perl} {cbc : CBC} (hmemory : perl.memory ≤ 9223372036854775808)
include hmemory

theorem bounds_packFormat (format : FormatTag) {size : ℤ} (hsize : size < 4294967296)
    (flexible : Bool) (sv : SV) : boundsEffect.Holds (packFormat perl format size flexible sv) := by
  unfold packFormat
  split_ifs
  · unfold flexibleFormat
    dsimp only
    split_ifs with hzero hrest
    · exact bounds_throw _
    · exact bounds_grow_then hmemory fun t ht hchecked =>
        copyFormat_bounds ht (u32_lt _) hchecked format _ _
    · exact bounds_grow_then hmemory fun t ht hchecked =>
        copyFormat_bounds ht (u32_lt _) hchecked format _ _
  · exact Effect.holds_pure _
  · exact bounds_grow_then hmemory fun t ht hchecked =>
      copyFormat_bounds ht hsize hchecked format _ _
  · exact bounds_grow_then hmemory fun t _ _ => Effect.holds_pure _ t

theorem bounds_packParts (hsizes : cbc.SizesFit) :
    PackParts boundsEffect perl cbc Declarator.UnitFits UnitFits where
  toClosed := (bounds_indifferent perl).closed
  grow := bounds_grow hmemory
  elements := bounds_elements
  pointer sv := by
    unfold packPointer
    apply bounds_grow_then hmemory
    intro t ht hchecked
    cases sv with
    | scalar v => exact bounds_storeInt hsizes.ptr ht hchecked _ _
    | _ => exact Effect.holds_pure _ t
  basic flags pBI sv hBI := by
    have hsize := packLoadSize_lt hsizes hBI flags
    unfold packBasic
    generalize packLoadSize cbc flags pBI = r at hsize
    obtain ⟨size, flags⟩ := r
    apply bounds_grow_then hmemory
    intro t ht hchecked
    cases sv with
    | scalar v =>
      dsimp only
      split_ifs
      · exact storeFloatSv_bounds ht hsize hchecked _ _
      · exact bounds_storeInt hsize ht hchecked _ _
    | _ => exact Effect.holds_pure _ t
  enum e pBI sv hBI := by
    have hsize := packEnumSize_lt hsizes hBI e
    apply ((bounds_indifferent perl).closed.hook _ _).bind
    intro sv
    cases (cbc.heap.enumAt e).tags.format with
    | some format =>
      exact (bounds_indifferent perl).within _ (bounds_packFormat hmemory format hsize _ _)
    | none =>
      refine (bounds_indifferent perl).closed.inner ?_ rfl
      apply bounds_grow_then hmemory
      intro t ht hchecked
      cases sv with
      | scalar v => exact bounds_storeInt hsize ht hchecked _ _
      | _ => exact Effect.holds_pure _ t
  structFormat s format sv :=
    (bounds_indifferent perl).within _ (bounds_packFormat hmemory format (hsizes.struct s) _ _)
  declaratorFormat d format sv _ _ := by
    apply (bounds_indifferent perl).within
    apply ((bounds_indifferent perl).closed.prepare (bounds_lift _)).bind
    rintro ⟨size, flexible⟩
    exact bounds_packFormat hmemory format (u32_lt _) _ _
  whole _ hbit := by cases hbit
  bitfield d bit hd hext bit' hbit' := by
    cases hbit'
    exact hd bit hext

end Pack

/-! The fetches. -/

theorem bounds_check (size : ℤ) : boundsEffect.Holds (checkBuffer size) := by
  intro s
  unfold checkBuffer
  apply Effect.At.get_bind
  split_ifs
  · refine Effect.At.bind (Effect.At.modify (bounds_same ?_ rfl rfl rfl)) fun _ t _ =>
      Effect.holds_pure true t
    intro hs
    have hlt := hs.length_lt
    exact ⟨hs.length_nonneg, by show s.length < _; omega, hs.length_nonneg, hs.length_lt⟩
  · exact Effect.holds_pure false s

/-- What is done once the data is long enough for an object. -/
theorem bounds_check_then {m : Pk SV} {size : ℤ}
    (h : ∀ t, t.Bounded → u64 (t.pos + size) ≤ t.length → boundsEffect.At m t) :
    boundsEffect.Holds (checkBuffer size >>= fun short =>
      if short = true then pure .undef else m) := by
  intro s
  apply bounds_of_bounded
  intro hs
  apply (bounds_check size s).bind
  intro short t ht
  unfold checkBuffer at ht
  rw [get_then] at ht
  split_ifs at ht with hshort
  · cases ht
    exact Effect.holds_pure _ _
  · cases ht
    exact h s hs (not_lt.mp hshort)

theorem bounds_fetchInt {cbc : CBC} {size : ℤ} (hsize : size < 4294967296) {t : PackInfo}
    (hchecked : u64 (t.pos + size) ≤ t.length) (sign : Bool) (pBI : Option BitfieldInfo) :
    boundsEffect.At (fetchInt cbc size sign pBI) t := by
  have hfetches : FetchesAt (.access t.path pBI.isSome (intOrder cbc t pBI) t.pos size)
      (fetchInt cbc size sign pBI) t := by
    unfold FetchesAt fetchInt
    rw [get_then, emit_then]
    split_ifs
    · exact .inl ⟨_, rfl⟩
    · cases fetchInteger size.toNat sign (bitsOf pBI).1 (bitsOf pBI).2 (intOrder cbc t pBI) t.buffer
        t.pos.toNat ⟨0, sign, none⟩ with
      | error f => exact .inl ⟨f, rfl⟩
      | ok iv => exact .inr ⟨iv, rfl⟩
    · exact .inl ⟨_, rfl⟩
  exact hfetches.bounds rfl fun ht => access_inside_iff ht hsize le_rfl hchecked rfl

/-- Fetching bytes notes that, and goes on with a value. -/
theorem fetchBytes_fetches {α : Type} (e : Event) (n : ℕ) (value : List Byte → α) (s : PackInfo) :
    FetchesAt e (emit e >>= fun _ => fetchBytes n >>= fun bytes => pure (value bytes)) s := by
  unfold FetchesAt
  rw [emit_then]
  by_cases hlong : s.pos + n > s.length
  · refine .inl ⟨.undefinedBehaviour, bind_of_error ?_⟩
    unfold fetchBytes
    rw [get_then]
    show (if s.pos + n > s.length then _ else _ : Pk (List Byte)) _ = _
    rw [if_pos hlong]
    rfl
  · refine .inr ⟨value ((List.range n).map fun i => s.buffer (s.pos.toNat + i)), bind_of_ok ?_⟩
    unfold fetchBytes
    rw [get_then]
    show (if s.pos + n > s.length then _ else _ : Pk (List Byte)) _ = _
    rw [if_neg hlong]
    rfl

theorem bounds_fetchFloatSv {perl : Perl} {cbc : CBC} {size : ℤ} (hsize : size < 4294967296)
    {t : PackInfo} (hchecked : u64 (t.pos + size) ≤ t.length) (flags : TFlags) :
    boundsEffect.At (fetchFloatSv perl cbc size flags) t := by
  unfold fetchFloatSv
  split_ifs
  · apply Effect.At.get_bind
    exact (fetchBytes_fetches (.access t.path false t.order t.pos size) size.toNat _ t).bounds rfl
      fun ht => access_inside_iff ht hsize le_rfl hchecked rfl
  · exact Effect.holds_pure _ t

/-- The bytes of a format are those of its size, or else as many of the rest of the data. -/
theorem formatRest_fits {s : PackInfo} {size n : ℤ} (hs : s.Bounded) (hsize : size < 4294967296)
    (hchecked : u64 (s.pos + size) ≤ s.length) {flexible : Bool} (hflexible : flexible → 0 ≤ size)
    (hn : (if flexible then flexibleRest s.length s.pos size else .ok size : Call ℤ) = .ok n)
    (hlow : s.pos < 9223372036854775808) (hpos : 0 < n) : s.pos + n ≤ s.length := by
  have hnonneg := hs.pos_nonneg
  have hlength := hs.length_lt
  unfold u64 at hchecked
  split_ifs at hn with hflag
  · have hsize' := hflexible hflag
    rw [Int.emod_eq_of_lt (by omega) (by omega)] at hchecked
    unfold flexibleRest at hn
    dsimp only at hn
    split_ifs at hn with hzero
    cases hn
    have hrest : u32 (s.length - s.pos) ≤ s.length - s.pos := by
      unfold u32
      omega
    have hmod := Int.emod_nonneg (u32 (s.length - s.pos)) hzero
    omega
  · cases hn
    rw [Int.emod_eq_of_lt (by omega) (by omega)] at hchecked
    exact hchecked

theorem bounds_unpackFormat (format : FormatTag) {size : ℤ} (hsize : size < 4294967296)
    {flexible : Bool} (hflexible : flexible → 0 ≤ size) :
    boundsEffect.Holds (unpackFormat format size flexible) := by
  intro s
  apply bounds_of_bounded
  intro hs
  unfold unpackFormat
  apply Effect.At.get_bind
  by_cases hlong : u64 (s.pos + size) > s.length
  · rw [if_pos hlong]
    exact Effect.holds_pure _ s
  · rw [if_neg hlong]
    cases hrest : (if flexible then flexibleRest s.length s.pos size else .ok size : Call ℤ) with
    | error f =>
      show boundsEffect.fails s f s
      exact fun _ => ⟨[], logs_nil rfl rfl⟩
    | ok n =>
      have hfetches (value : List Byte → SV) :
          boundsEffect.At (emit (.copy s.path s.pos n) >>= fun _ =>
            fetchBytes n.toNat >>= fun bytes => pure (value bytes)) s :=
        (fetchBytes_fetches _ _ value s).bounds rfl fun hs => range_inside_iff hs
          (formatRest_fits hs hsize (not_lt.mp hlong) hflexible hrest) rfl
      cases format with
      | binary => exact hfetches newSVpvn
      | string => exact hfetches fun bytes => newSVpvn (bytes.takeWhile (· ≠ 0))

section Unpack
variable (perl : Perl) {cbc : CBC}

theorem bounds_unpackParts (hsizes : cbc.SizesFit) :
    UnpackParts boundsEffect perl cbc Declarator.UnitFits UnitFits where
  toClosed := (bounds_indifferent perl).closed
  pointer := by
    unfold unpackPointer
    apply bounds_check_then
    intro t ht hchecked
    exact (bounds_fetchInt hsizes.ptr hchecked _ _).bind fun _ t _ => Effect.holds_pure _ t
  basic flags pBI hBI := by
    have hsize := packLoadSize_lt hsizes hBI flags
    unfold unpackBasic
    generalize packLoadSize cbc flags pBI = r at hsize
    obtain ⟨size, flags⟩ := r
    apply bounds_check_then
    intro t ht hchecked
    split_ifs
    · exact bounds_fetchFloatSv hsize hchecked _
    · exact (bounds_fetchInt hsize hchecked _ _).bind fun _ t _ => Effect.holds_pure _ t
  enum e pBI hBI := by
    have hsize := packEnumSize_lt hsizes hBI e
    apply (bounds_indifferent perl).keep
    have hrestore (old : CByteOrder) : boundsEffect.Holds (restoreByteOrder old) :=
      fun s => (bounds_indifferent perl).order s old
    have hset (tags : CtTagList) : boundsEffect.Holds (setByteOrder tags) :=
      fun s => (bounds_indifferent perl).order s _
    have hbyteOrder : boundsEffect.Holds byteOrder := fun s => boundsEffect.refl s
    have hformat (format : FormatTag) : boundsEffect.Holds
        (unpackFormat format (packEnumSize cbc (cbc.heap.enumAt e) pBI) false) :=
      bounds_unpackFormat format hsize fun h => by cases h
    apply hbyteOrder.bind
    intro old
    dsimp only
    split
    · apply ((bounds_indifferent perl).within _ (hformat _)).bind
      exact fun sv => (bounds_indifferent perl).closed.hook _ _
    · apply (hset _).bind
      intro _
      apply bounds_check_then
      intro t ht hchecked
      have hfetch : boundsEffect.At (fetchInt cbc (packEnumSize cbc (cbc.heap.enumAt e) pBI)
          (cbc.heap.enumAt e).signed pBI) (t.enter (.enum (cbc.heap.enumAt e))) := by
        apply bounds_fetchInt hsize
        exact hchecked
      apply ((bounds_indifferent perl).toLeafIndifferent.within_at hfetch).bind
      intro iv u _
      exact ((hrestore old).bind fun _ => (bounds_indifferent perl).closed.hook _ _) u
  head d dimension dimtag _ _ _ s := by
    apply (bounds_indifferent perl).closed.head
    · exact fun _ _ => ⟨[], logs_nil rfl rfl⟩
    · exact fun _ _ _ _ _ _ _ => bounds_elements _ _ _ _ _ _ _
  structFormat s format := by
    apply (bounds_indifferent perl).within
    exact bounds_unpackFormat format (hsizes.struct s) fun h => by cases h
  declaratorFormat d format _ _ := by
    apply (bounds_indifferent perl).within
    apply ((bounds_indifferent perl).closed.prepare (bounds_lift _)).bind
    rintro ⟨size, flexible⟩
    exact bounds_unpackFormat format (u32_lt _) fun _ => u32_nonneg _
  whole _ hbit := by cases hbit
  bitfield d bit hd hext bit' hbit' := by
    cases hbit'
    exact hd bit hext

end Unpack

/-! What a leaf is unpacked to that the data is too short for. -/

/-- An object of this size starts in front of the buffer and ends inside of it. -/
def PackInfo.Wraps (s : PackInfo) (size : ℤ) : Prop :=
  18446744073709551616 ≤ s.pos + size ∧ s.pos + size - 18446744073709551616 ≤ s.length

/-- The data is too short for an object of this size at the position. -/
def PackInfo.Short (s : PackInfo) (size : ℤ) : Prop := s.length < s.pos + size ∧ ¬ s.Wraps size

theorem PackInfo.Short.checked {s : PackInfo} {size : ℤ} (h : s.Short size) (hs : s.Bounded)
    (hsize : size < 4294967296) : s.length < u64 (s.pos + size) := by
  obtain ⟨hshort, hwraps⟩ := h
  have hpos := hs.pos_lt
  have hlength := hs.length_nonneg
  unfold Wraps at hwraps
  unfold u64
  omega

/-- A run returns a value without an event. -/
def Unread (m : Pk SV) (s : PackInfo) (sv : SV) : Prop := ∃ t, m s = .ok sv t ∧ t.trace = s.trace

theorem unread_check {m : Pk SV} {s : PackInfo} {size : ℤ} (h : s.length < u64 (s.pos + size)) :
    Unread (checkBuffer size >>= fun short => if short = true then pure .undef else m) s
      .undef := by
  have hcheck : checkBuffer size s = .ok true { s with pos := s.length } := by
    unfold checkBuffer
    rw [get_then, if_pos h]
    rfl
  refine ⟨{ s with pos := s.length }, ?_, rfl⟩
  rw [bind_of_ok hcheck]
  rfl

structure ShortLeaves (perl : Perl) (cbc : CBC) (s : PackInfo) : Prop where
  pointer : s.Short (ptrSize cbc) → Unread (unpackPointer cbc) s .undef
  basic : ∀ flags pBI, UnitFits pBI → s.Short (packLoadSize cbc flags pBI).1 →
    Unread (unpackBasic perl cbc flags pBI) s .undef
  enum : ∀ e pBI, UnitFits pBI → (cbc.heap.enumAt e).tags.format = none →
    s.Short (packEnumSize cbc (cbc.heap.enumAt e) pBI) →
    Unread (unpackEnum perl cbc (cbc.heap.enumAt e) pBI) s .undef
  format : ∀ format size flexible, size < 4294967296 → s.Short size →
    Unread (unpackFormat format size flexible) s (newSVpvn [])

theorem shortLeaves (perl : Perl) {cbc : CBC} (hsizes : cbc.SizesFit) {s : PackInfo}
    (hs : s.Bounded) : ShortLeaves perl cbc s where
  pointer hshort := unread_check (hshort.checked hs hsizes.ptr)
  basic flags pBI hBI hshort := by
    have hchecked := hshort.checked hs (packLoadSize_lt hsizes hBI flags)
    unfold unpackBasic
    generalize packLoadSize cbc flags pBI = r at hchecked
    exact unread_check hchecked
  enum e pBI hBI hformat hshort := by
    have hchecked := hshort.checked hs (packEnumSize_lt hsizes hBI e)
    have hunread (m : Pk SV) : Unread (checkBuffer (packEnumSize cbc (cbc.heap.enumAt e) pBI) >>=
        fun short => if short = true then pure .undef else m)
        (s.tagged (cbc.heap.enumAt e).tags) .undef :=
      unread_check hchecked
    obtain ⟨t, hrun, htrace⟩ := hunread _
    refine ⟨t, ?_, htrace⟩
    unfold unpackEnum
    rw [hformat]
    exact hrun
  format format size flexible hsize hshort := by
    refine ⟨s, ?_, rfl⟩
    unfold unpackFormat
    rw [get_then, if_pos (hshort.checked hs hsize)]
    rfl

/-! The bytes that a fetch depends on. -/

/-- A run reads no other bytes than those at its position. -/
def ReadsAt {α : Type} (m : Pk α) (s : PackInfo) (size : ℤ) : Prop :=
  ∀ buffer : Memory, (∀ i : ℕ, s.pos ≤ i → i < s.pos + size → buffer i = s.buffer i) →
    m { s with buffer := buffer } = carry (fun t => { t with buffer := buffer }) (m s)

theorem fetchSwitch_congr {size : ℕ} (hsize : IntegerSize size) {sign : Bool} {bo : CByteOrder}
    {mem mem' : Memory} {ptr : ℕ} (h : ∀ i < size, mem' (ptr + i) = mem (ptr + i))
    (iv : BitVec 64) :
    fetchSwitch size sign bo mem' ptr iv = fetchSwitch size sign bo mem ptr iv := by
  have hpos := hsize.pos
  have hbit (j : ℕ) (hj : j < 8 * size) :
      unitBit bo size mem' ptr j = unitBit bo size mem ptr j := by
    have hbyte : unitByte bo size j < size := by
      unfold unitByte
      split <;> omega
    exact congrArg (BitVec.getLsbD · (j % 8)) (h _ hbyte)
  apply BitVec.eq_of_getLsbD_eq
  intro j hj
  rw [fetchSwitch_getLsbD size hsize _ _ _ _ _ _ hj, fetchSwitch_getLsbD size hsize _ _ _ _ _ _ hj,
    hbit (8 * size - 1) (by omega)]
  split_ifs with hin
  · exact hbit j hin
  · rfl

theorem fetchInt_readsAt {cbc : CBC} {size : ℤ} {sign : Bool} {pBI : Option BitfieldInfo}
    {s : PackInfo} (hs : s.Bounded) : ReadsAt (fetchInt cbc size sign pBI) s size := by
  intro buffer h
  have hpos := hs.pos_nonneg
  unfold fetchInt
  rw [get_then, get_then, emit_then, emit_then]
  dsimp only
  split_ifs with hlong hsize
  · rfl
  · have hsame : fetchInteger size.toNat sign (bitsOf pBI).1 (bitsOf pBI).2 (intOrder cbc s pBI)
        buffer s.pos.toNat ⟨0, sign, none⟩ =
        fetchInteger size.toNat sign (bitsOf pBI).1 (bitsOf pBI).2 (intOrder cbc s pBI)
          s.buffer s.pos.toNat ⟨0, sign, none⟩ := by
      unfold fetchInteger
      rw [fetchSwitch_congr hsize]
      intro i hi
      exact h _ (by omega) (by omega)
    show liftCall (fetchInteger size.toNat sign (bitsOf pBI).1 (bitsOf pBI).2 (intOrder cbc s pBI)
      buffer s.pos.toNat ⟨0, sign, none⟩) _ = _
    rw [hsame]
    cases fetchInteger size.toNat sign (bitsOf pBI).1 (bitsOf pBI).2 (intOrder cbc s pBI)
      s.buffer s.pos.toNat ⟨0, sign, none⟩ <;> rfl
  · rfl

theorem fetchBytes_readsAt {n : ℕ} {s : PackInfo} (hs : s.Bounded) :
    ReadsAt (fetchBytes n) s n := by
  intro buffer h
  have hpos := hs.pos_nonneg
  unfold fetchBytes
  rw [get_then, get_then]
  dsimp only
  split_ifs with hlong
  · rfl
  · have hsame : (List.range n).map (fun i => buffer (s.pos.toNat + i)) =
        (List.range n).map fun i => s.buffer (s.pos.toNat + i) := by
      apply List.map_congr_left
      intro i hi
      have hlt := List.mem_range.mp hi
      exact h _ (by omega) (by omega)
    rw [hsame]
    rfl

theorem logs_final {α : Type} {m : Pk α} {s : PackInfo} (h : boundsEffect.At m s) (hs : s.Bounded) :
    ∃ events, Logs s (finalState (m s)) events := by
  unfold Effect.At at h
  cases hm : m s with
  | ok a t =>
    rw [hm] at h
    obtain ⟨_, events, hlogs, _⟩ := h hs
    exact ⟨events, hlogs⟩
  | error e t =>
    rw [hm] at h
    exact h hs

/-- In every run of packing and of unpacking, what is stored or fetched is in the buffer as it is
at that moment, exactly when it does not start in front of it. The bytes of a buffer that a run
does not note are not changed, and no others are read; and a leaf that the rest of the data is too
short for is not read. -/
theorem buffer_accesses_iff (perl : Perl) (cbc : CBC) (fuel : ℕ) (st : PackInfo) (pTS : TypeSpec)
    (pDecl : Option Declarator) (dimension : ℕ) (hmemory : perl.memory ≤ 9223372036854775808)
    (hsizes : cbc.SizesFit) (hdecl : ∀ d ∈ pDecl, d.UnitFits) (hst : st.Bounded) :
    (∀ sv, ∃ events,
      Logs st (finalState (pkPack perl cbc fuel pTS pDecl dimension sv st)) events) ∧
    (∃ events, Logs st (finalState (pkUnpack perl cbc fuel pTS pDecl dimension st)) events) ∧
    ∀ s : PackInfo, s.Bounded → ShortLeaves perl cbc s ∧
      (∀ size sign pBI, ReadsAt (fetchInt cbc size sign pBI) s size) ∧
      ∀ n, ReadsAt (fetchBytes n) s n := by
  have horder : boundsEffect.Holds (restoreByteOrder cbc.pLP.byte_order) :=
    fun s => (bounds_indifferent perl).order s _
  refine ⟨?_, ?_, ?_⟩
  · intro sv
    have htype := ((bounds_packParts hmemory hsizes).recursion (bounds_throw _) hsizes.unit fuel).1
      pTS pDecl dimension none sv (bounds_packParts hmemory hsizes).whole hdecl
    exact logs_final (horder.bind (fun _ => htype) st) hst
  · have htype := ((bounds_unpackParts perl hsizes).recursion (bounds_throw _) hsizes.unit fuel).1
      pTS pDecl dimension none (bounds_unpackParts perl hsizes).whole hdecl
    exact logs_final (horder.bind (fun _ => htype) st) hst
  · intro s hs
    exact ⟨shortLeaves perl hsizes hs, fun _ _ _ => fetchInt_readsAt hs,
      fun _ => fetchBytes_readsAt hs⟩

/-- `struct { char c[536870908]; int x; }`, with a Format tag of `c` -/
def brinkDeclared : Struct :=
  structOf "brink" [declaration (.basic T_CHAR)
      [{ declNew "c" with
        ext := .array [⟨536870908, false, false⟩]
        tags := { CtTagList.empty with format := some .binary } }],
    declaration (.basic T_INT) [declNew "x"]]

/-- `c`, which is unpacked as a string -/
def brinkBytes : Declarator :=
  { memberAt "c" 0 536870908 1 with
    ext := .array [⟨536870908, false, false⟩]
    tags := { CtTagList.empty with format := some .binary } }

/-- The compound as it is recorded, with the offset of `x` in 29 bits. -/
def brinkStruct : Struct :=
  { structOf "brink" [⟨.basic T_CHAR, some [brinkBytes], 0, 536870908⟩,
      ⟨.basic T_INT, some [memberAt "x" (-4) 4 4], 536870908, 4⟩] with
    size := 536870912
    align := 4 }

def brinkCbc : CBC := cbc64 (singleHeap brinkStruct)

/-- Eight bytes of data. -/
def brinkData : PackInfo := pkCreate (List.replicate 8 0) 8

theorem brinkCbc_sizesFit : brinkCbc.SizesFit where
  ptr := by decide
  basic flags := by
    unfold packLoadSize basicSize
    dsimp only
    split_ifs <;> norm_num [brinkCbc, cbc64, lp64, alignment4, loadSize]
  enum _ := show (4 : ℤ) < 4294967296 by decide
  struct _ := show brinkStruct.size < 4294967296 by decide
  unit := by
    constructor
    · intro _ pStructDecl hmem d hd bit hbit
      have hdecl : d ∈ [brinkBytes, memberAt "x" (-4) 4 4] := by
        rcases List.mem_pair.mp hmem with rfl | rfl
        · exact List.mem_append_left _ hd
        · exact List.mem_cons_of_mem _ hd
      have hall : ∀ d ∈ [brinkBytes, memberAt "x" (-4) 4 4],
          d.ext = brinkBytes.ext ∨ d.ext = .plain := by
        decide
      rcases hall d hdecl with hext | hext
      · cases hbit.symm.trans hext
      · cases hbit.symm.trans hext
    · intro _ bit hbit
      cases hbit

theorem brinkData_bounded : brinkData.Bounded := by
  constructor <;> decide

theorem buffer_accesses_iff_brink :
    (∀ sv, ∃ events, Logs brinkData (finalState (pkPack slotPerl brinkCbc 10 (.compound .struct 0)
      none 0 sv brinkData)) events) ∧
    (∃ events, Logs brinkData (finalState (pkUnpack slotPerl brinkCbc 10 (.compound .struct 0)
      none 0 brinkData)) events) ∧
    ∀ s : PackInfo, s.Bounded → ShortLeaves slotPerl brinkCbc s ∧
      (∀ size sign pBI, ReadsAt (fetchInt brinkCbc size sign pBI) s size) ∧
      ∀ n, ReadsAt (fetchBytes n) s n :=
  buffer_accesses_iff slotPerl brinkCbc 10 brinkData (.compound .struct 0) none 0 (by decide)
    brinkCbc_sizesFit (fun d hd => by cases hd) brinkData_bounded

/-- The int at `-4` ends at the start of the data, so the sum of its position and its size wraps
around to zero, and it is fetched from in front of the data. -/
theorem brink_fetched_in_front :
    (layoutCompound lp64 alignment4 2 ⟨singleHeap brinkDeclared, blCreateGeneric⟩ 0).toOption.map
      (fun st => st.heap.structAt 0) = some brinkStruct ∧
    ∃ e ∈ (finalState (pkUnpack slotPerl brinkCbc 10 (.compound .struct 0) none 0
        brinkData)).trace, e.InFront ∧ ¬ e.Inside brinkData.length := by
  refine ⟨by decide +kernel, .access [.declarator (memberAt "x" (-4) 4 4), .compound brinkStruct]
    false .littleEndian 18446744073709551612 4, by decide +kernel, ?_, ?_⟩
  · exact ⟨_, rfl, by decide⟩
  · intro hinside
    exact absurd (hinside _ rfl) (by decide)

end ConvertBinaryC
