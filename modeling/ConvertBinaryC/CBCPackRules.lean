import ConvertBinaryC.CBCUnpack

/-! The rules of packing and unpacking for effects on the handle: an effect that the
operations on the buffer have, and that scopes keep, is an effect of every run. -/
namespace ConvertBinaryC
open StateRules

/-- A fault that is not of a division and not of the depth of a recursion. -/
def Fault.Leaf (e : Fault) : Prop := e ≠ .divideByZero ∧ e ≠ .outOfFuel

instance (e : Fault) : Decidable e.Leaf := inferInstanceAs (Decidable (_ ∧ _))

/-- A computation that does not fail with a division by zero. -/
structure Undivided {α : Type} (c : Call α) : Prop where
  ne : c ≠ .error .divideByZero

/-- One that has no depth to run out of, either. -/
structure Plain {α : Type} (c : Call α) : Prop extends Undivided c where
  fueled : c ≠ .error .outOfFuel

theorem plain_ok {α : Type} (a : α) : Plain (.ok a : Call α) where
  ne h := by cases h
  fueled h := by cases h

theorem plain_error {α : Type} {e : Fault} (h : e.Leaf) : Plain (.error e : Call α) where
  ne he := h.1 (Except.error.inj he)
  fueled he := h.2 (Except.error.inj he)

theorem plain_ub {α : Type} : Plain (.error .undefinedBehaviour : Call α) :=
  plain_error (by decide)

theorem Plain.bind {α β : Type} {c : Call α} {f : α → Call β} (hc : Plain c)
    (hf : ∀ a, c = .ok a → Plain (f a)) : Plain (c >>= f) := by
  cases c with
  | ok a => exact hf a rfl
  | error e => exact plain_error ⟨fun h => hc.ne (congrArg _ h), fun h => hc.fueled (congrArg _ h)⟩

theorem undivided_error {α : Type} {e : Fault} (h : e ≠ .divideByZero) :
    Undivided (.error e : Call α) := ⟨fun he => h (Except.error.inj he)⟩

theorem Undivided.bind {α β : Type} {c : Call α} {f : α → Call β} (hc : Undivided c)
    (hf : ∀ a, c = .ok a → Undivided (f a)) : Undivided (c >>= f) := by
  cases c with
  | ok a => exact hf a rfl
  | error e => exact undivided_error fun h => hc.ne (congrArg _ h)

theorem plain_long (x : ℤ) : Plain (long x) := by
  unfold long
  split_ifs
  · exact plain_ok _
  · exact plain_ub

theorem plain_timesDims (m : ℤ) (dims : List Value) : Plain (timesDims m dims) := by
  unfold timesDims timesAs
  induction dims generalizing m with
  | nil => exact plain_ok m
  | cons v dims ih =>
    rw [List.foldlM_cons]
    apply Plain.bind
    · exact (plain_long _).bind fun p _ => plain_ok _
    · exact fun a _ => ih a

theorem plain_shiftInteger (val : BitVec 64) (bits : ℕ) (dir : ShiftDirection) :
    Plain (shiftInteger val bits dir) := by
  unfold shiftInteger
  split_ifs
  · exact plain_ub
  · cases dir <;> exact plain_ok _

theorem plain_windowMask (bits shift : ℕ) : Plain (windowMask bits shift) := by
  unfold windowMask
  split_ifs
  · exact plain_ub
  · exact plain_ok _

theorem plain_maskInteger (val : BitVec 64) (bits shift : ℕ) (extendMsb : Bool) :
    Plain (maskInteger val bits shift extendMsb) := by
  apply (plain_windowMask bits shift).bind
  intro mask _
  dsimp only
  split_ifs
  · exact plain_ub
  · exact plain_ok _
  · exact plain_ok _
  · exact plain_ok _

/-- A stack of twenty entries is full before the loop runs out of turns. -/
theorem plain_pushDigits {turns : ℕ} (val : ℕ) {stack : List ℕ} (hstack : stack.length ≤ 20)
    (hturns : 20 < turns + stack.length) : Plain (pushDigits turns val stack) := by
  induction turns generalizing val stack with
  | zero => omega
  | succ turns ih =>
    unfold pushDigits
    split_ifs with hzero hfull
    · exact plain_ok _
    · exact plain_ub
    · rw [not_le] at hfull
      exact ih _ (by rw [List.length_cons]; omega) (by rw [List.length_cons]; omega)

theorem plain_integer2string (value : BitVec 64) (sign : Bool) :
    Plain (integer2string value sign) := by
  unfold integer2string
  apply Plain.bind
  · split_ifs
    · exact (plain_long _).bind fun _ _ => plain_ok _
    · exact plain_ok _
  · exact fun val _ => (plain_pushDigits val (by decide) (by decide)).bind fun _ _ => plain_ok _

theorem plain_fetchInteger (size : ℕ) (sign : Bool) (bits shift : ℕ) (bo : CByteOrder)
    (mem : Memory) (src : ℕ) (pIV : IntValue) :
    Plain (fetchInteger size sign bits shift bo mem src pIV) := by
  unfold fetchInteger
  apply Plain.bind
  · split_ifs
    · exact (plain_shiftInteger ..).bind fun _ _ => plain_maskInteger ..
    · exact plain_maskInteger ..
    · exact plain_ok _
  · intro value _
    apply Plain.bind
    · split_ifs
      · exact (plain_integer2string ..).bind fun _ _ => plain_ok _
      · exact plain_ok _
    · exact fun _ _ => plain_ok _

theorem plain_storeInteger (size bits shift : ℕ) (bo : CByteOrder) (mem : Memory)
    (dest : ℕ) (pIV : IntValue) : Plain (storeInteger size bits shift bo mem dest pIV) := by
  unfold storeInteger
  apply Plain.bind
  · split_ifs
    · apply (plain_fetchInteger ..).bind
      intro orig _
      apply Plain.bind
      · exact plain_shiftInteger ..
      · exact fun _ _ => (plain_windowMask ..).bind fun _ _ => plain_ok _
    · apply (plain_fetchInteger ..).bind
      intro orig _
      exact (plain_windowMask ..).bind fun _ _ => plain_ok _
    · exact plain_ok _
  · exact fun _ _ => plain_ok _

theorem undivided_followTypedef (heap : Heap) (fuel t : ℕ) :
    Undivided (followTypedef heap fuel t) := by
  induction fuel generalizing t with
  | zero => exact undivided_error (by decide)
  | succ fuel ih =>
    unfold followTypedef
    dsimp only
    split
    · split_ifs
      · exact ih _
      · exact (plain_ok _).toUndivided
    · exact (plain_ok _).toUndivided

theorem undivided_followTsptr (heap : Heap) (fuel : ℕ) (pTS : TypeSpec) :
    Undivided (followTsptr heap fuel pTS) := by
  unfold followTsptr
  apply Undivided.bind
  · split
    · exact undivided_followTypedef ..
    · exact (plain_ok _).toUndivided
  · intro a _
    split
    · exact (plain_ok _).toUndivided
    · exact undivided_error (by decide)

theorem plain_dimensionStep (parent : Hash) (sv : Option SV) (info : MeWalkInfo) :
    Plain (dimensionStep parent sv info) := by
  unfold dimensionStep
  split
  · split <;> exact plain_ok _
  · split
    · exact plain_ub
    · split_ifs
      · exact plain_ok _
      · split
        · exact plain_ok _
        · exact plain_error (by decide)
    · exact plain_ok _
  · exact plain_error (by decide)

theorem plain_dimensionFound (perl : Perl) (sv : Option SV) :
    Plain (dimensionFound perl sv) := by
  cases sv
  · exact plain_ub
  · exact plain_ok _

theorem plain_dimensionWalk (perl : Perl) (parent : Hash) (sv : Option SV)
    (infos : List MeWalkInfo) : Plain (dimensionWalk perl parent sv infos) := by
  induction infos generalizing sv with
  | nil => exact plain_dimensionFound perl sv
  | cons info infos ih =>
    unfold dimensionWalk
    split_ifs
    · exact plain_dimensionFound perl sv
    · apply (plain_dimensionStep parent sv info).bind
      intro a _
      cases a
      · exact plain_ok _
      · exact ih _

theorem liftCall_ok {α : Type} {c : Call α} {s t : PackInfo} {a : α}
    (h : liftCall c s = .ok a t) : c = .ok a ∧ t = s := by
  cases c with
  | ok b =>
    cases h
    exact ⟨rfl, rfl⟩
  | error e => exact nomatch h

theorem keepByteOrder_ok {α : Type} {m : Pk α} {s t : PackInfo} {a : α} (h : m s = .ok a t) :
    keepByteOrder m s = .ok a { t with order := s.order } := by
  show (byteOrder >>= fun old => m >>= fun a => restoreByteOrder old >>= fun _ => pure a) s = _
  rw [bind_of_ok (show byteOrder s = .ok s.order s from rfl), bind_of_ok h]
  rfl

theorem keepByteOrder_error {α : Type} {m : Pk α} {s t : PackInfo} {e : Fault}
    (h : m s = .error e t) : keepByteOrder m s = .error e t := by
  show (byteOrder >>= fun old => m >>= fun a => restoreByteOrder old >>= fun _ => pure a) s = _
  rw [bind_of_ok (show byteOrder s = .ok s.order s from rfl), bind_of_error h]

/-- The tag that counts the elements at a dimension. -/
def Declarator.tagAt (d : Declarator) (k : ℕ) : Option DimensionTag :=
  if k = 0 then d.tags.dimension else none

/-- The handle inside of a scope. -/
def PackInfo.enter (st : PackInfo) (scope : Scope) : PackInfo :=
  { st with path := scope :: st.path }

def PackInfo.leave (st : PackInfo) : PackInfo := { st with path := st.path.tail }

def PackInfo.tagged (st : PackInfo) (tags : CtTagList) : PackInfo :=
  { st with order := tags.byteOrder.getD st.order }

theorem within_ok {α : Type} {scope : Scope} {m : Pk α} {s t : PackInfo} {a : α}
    (h : m (s.enter scope) = .ok a t) : within scope m s = .ok a t.leave := by
  show (m >>= fun a => (modify PackInfo.leave : Pk PUnit) >>= fun _ => pure a) (s.enter scope) = _
  rw [bind_of_ok h]
  rfl

theorem within_error {α : Type} {scope : Scope} {m : Pk α} {s t : PackInfo} {e : Fault}
    (h : m (s.enter scope) = .error e t) : within scope m s = .error e t := by
  show (m >>= fun a => (modify PackInfo.leave : Pk PUnit) >>= fun _ => pure a) (s.enter scope) = _
  rw [bind_of_error h]

theorem inScope_ok {α : Type} {scope : Scope} {tags : CtTagList} {m : Pk α} {s t : PackInfo} {a : α}
    (h : m ((s.tagged tags).enter scope) = .ok a t) :
    inScope scope tags m s = .ok a { t.leave with order := s.order } :=
  keepByteOrder_ok (within_ok h)

theorem inScope_error {α : Type} {scope : Scope} {tags : CtTagList} {m : Pk α} {s t : PackInfo}
    {e : Fault} (h : m ((s.tagged tags).enter scope) = .error e t) :
    inScope scope tags m s = .error e t :=
  keepByteOrder_error (within_error h)

theorem callSub_of_ok {perl : Perl} {sub : ℕ} {arg : Option SV} {s : PackInfo} {sv : SV}
    (h : perl.call s.calls sub arg = .ok sv) :
    callSub perl sub arg s = .ok sv { s with calls := s.calls + 1 } := by
  rw [callSub, bind_of_ok (show (get : Pk PackInfo) s = .ok s s from rfl)]
  rw [bind_of_ok (show (set _ : Pk PUnit) s = .ok ⟨⟩ { s with calls := s.calls + 1 } from rfl), h]
  rfl

theorem callSub_of_error {perl : Perl} {sub : ℕ} {arg : Option SV} {s : PackInfo} {msg : String}
    (h : perl.call s.calls sub arg = .error msg) :
    callSub perl sub arg s = .error (.croak msg) { s with calls := s.calls + 1 } := by
  rw [callSub, bind_of_ok (show (get : Pk PackInfo) s = .ok s s from rfl)]
  rw [bind_of_ok (show (set _ : Pk PUnit) s = .ok ⟨⟩ { s with calls := s.calls + 1 } from rfl), h]
  rfl

theorem callSub_ok {perl : Perl} {sub : ℕ} {arg : Option SV} {s t : PackInfo} {sv : SV}
    (h : callSub perl sub arg s = .ok sv t) : t = { s with calls := s.calls + 1 } := by
  cases hcall : perl.call s.calls sub arg with
  | ok sv' =>
    rw [callSub_of_ok hcall] at h
    cases h
    rfl
  | error msg =>
    rw [callSub_of_error hcall] at h
    cases h

/-- The evaluation of a tag only calls subroutines. -/
theorem dimtagEval_ok {perl : Perl} {tag : DimensionTag} {avail n : ℤ} {s t : PackInfo}
    (h : dimtagEval perl tag avail s = .ok n t) : ∃ calls, t = { s with calls := calls } := by
  cases tag with
  | none => exact nomatch h
  | flexible =>
    cases h
    exact ⟨s.calls, rfl⟩
  | fixed dim =>
    cases h
    exact ⟨s.calls, rfl⟩
  | member expr =>
    obtain ⟨dim, u, hdim, h⟩ := bind_ok h
    cases h
    obtain ⟨st, v, hget, hdim⟩ := bind_ok hdim
    cases hget
    suffices hst : t = s from ⟨s.calls, hst⟩
    cases hparent : s.parent with
    | none =>
      rw [hparent] at hdim
      cases hdim
      rfl
    | some parent =>
      rw [hparent] at hdim
      exact (liftCall_ok hdim).2
  | hook sub =>
    obtain ⟨dim, u, hdim, h⟩ := bind_ok h
    cases h
    obtain ⟨st, v, hget, hdim⟩ := bind_ok hdim
    cases hget
    obtain ⟨sv, w, hcall, hdim⟩ := bind_ok hdim
    cases hdim
    exact ⟨s.calls + 1, callSub_ok hcall⟩

theorem isFlexible_cases {d : Declarator} {dimension : ℕ} {dimtag : Option DimensionTag}
    (h : isFlexible d dimension dimtag = true) :
    dimtag = some .flexible ∨ dimtag = none ∧ ∃ v, d.dims[dimension]? = some v ∧ v.undef = true := by
  cases dimtag with
  | some tag => exact .inl (congrArg some (of_decide_eq_true h))
  | none =>
    unfold isFlexible at h
    cases hv : d.dims[dimension]? with
    | some v =>
      rw [hv] at h
      exact .inr ⟨rfl, v, rfl, h⟩
    | none =>
      rw [hv] at h
      exact nomatch h

section Flexible
variable {perl : Perl} {d : Declarator} {dimension : ℕ} {dimtag : Option DimensionTag}
  (hflexible : isFlexible d dimension dimtag = true)
include hflexible

/-- Without a tag or a dimension that says otherwise, as many elements are packed as there
are. -/
theorem packCount_flexible (size avail : ℤ) :
    packCount perl d dimension dimtag size avail = (liftCall (long (avail * size)) >>= fun grown =>
      growBuffer perl grown >>= fun _ => pure avail) := by
  unfold packCount
  rcases isFlexible_cases hflexible with rfl | ⟨rfl, v, hv, hundef⟩
  · rfl
  · rw [hv]
    dsimp only
    rw [hundef, if_pos rfl]

/-- As many elements are unpacked as the data is good for. -/
theorem unpackCount_flexible (avail : ℤ) : unpackCount perl d dimension dimtag avail = pure avail := by
  unfold unpackCount
  rcases isFlexible_cases hflexible with rfl | ⟨rfl, v, hv, hundef⟩
  · rfl
  · rw [hv]
    dsimp only
    rw [hundef, if_pos rfl]

end Flexible

/-- The tags that count for a scope. -/
def Scope.HasTags : Scope → CtTagList → Prop
  | .declarator d, tags => tags = d.tags
  | .element _, _ => False
  | .compound s, tags => tags = s.tags
  | .inlined _, tags => tags = .empty
  | .enum e, tags => tags = e.tags

/-- An effect that scopes keep and that the operations shared by packing and
unpacking have, except that it may depend on the parent. A division by zero is left to
the operations that divide. -/
structure LeafClosed (E : Effect Fault PackInfo) (perl : Perl) : Prop where
  pos : ∀ x, E.Holds (setPos (u64 x))
  sub : ∀ sub arg, E.Holds (callSub perl sub arg)
  fault : ∀ {α : Type} (e : Fault), e.Leaf → E.Holds (throw e : Pk α)
  element : ∀ {α : Type} (i : ℕ) (m : Pk α), E.Holds m → E.Holds (within (.element i) m)
  keep : ∀ {α : Type} (m : Pk α), E.Holds m → E.Holds (keepByteOrder m)
  scope : ∀ {α : Type} (scope : Scope) (tags : CtTagList) (m : Pk α), scope.HasTags tags →
    E.Holds (keepByteOrder m) → E.Holds (inScope scope tags m)

/-- The same for an effect for which the parent does not matter. -/
structure Closed (E : Effect Fault PackInfo) (perl : Perl) : Prop extends LeafClosed E perl where
  parent : ∀ h, E.Holds (setParent h)

namespace LeafClosed
variable {E : Effect Fault PackInfo} {perl : Perl} (hE : LeafClosed E perl)
include hE

theorem lift {α : Type} {c : Call α} (hc : Plain c) : E.Holds (liftCall c) := by
  cases c with
  | ok a => exact Effect.holds_pure a
  | error e => exact hE.fault e ⟨fun h => hc.ne (congrArg _ h), fun h => hc.fueled (congrArg _ h)⟩

/-- The computation may run out of depth if the effect allows it. -/
theorem liftFueled (hfuel : ∀ {α : Type}, E.Holds (throw .outOfFuel : Pk α)) {α : Type} {c : Call α}
    (hc : Undivided c) : E.Holds (liftCall c) := by
  by_cases h : c = .error .outOfFuel
  · rw [h]
    exact hfuel
  · exact hE.lift ⟨hc, h⟩

theorem hook (hook : Option ℕ) (sv : SV) : E.Holds (hookCall perl hook sv) := by
  cases hook with
  | none => exact Effect.holds_pure sv
  | some sub => exact hE.sub sub _

theorem inner {α : Type} {scope : Scope} {tags : CtTagList} {m : Pk α} (hm : E.Holds m)
    (htags : scope.HasTags tags) : E.Holds (inScope scope tags m) :=
  hE.scope scope tags m htags (hE.keep m hm)

theorem dimension (tag : DimensionTag) (avail : ℤ) : E.Holds (dimtagEval perl tag avail) := by
  cases tag with
  | none => exact hE.fault _ (by decide)
  | flexible => exact Effect.holds_pure _
  | fixed dim => exact Effect.holds_pure _
  | member expr =>
    apply Effect.Holds.bind
    · apply Effect.holds_get.bind
      intro st
      cases st.parent with
      | none => exact Effect.holds_pure _
      | some parent => exact hE.lift (plain_dimensionWalk ..)
    · exact fun dim => Effect.holds_pure _
  | hook sub =>
    apply Effect.Holds.bind
    · apply Effect.holds_get.bind
      intro st
      apply (hE.sub sub _).bind
      exact fun sv => Effect.holds_pure _
    · exact fun dim => Effect.holds_pure _

/-! The operations on the buffer, for what they emit. -/

theorem fetchBytes (n : ℕ) : E.Holds (fetchBytes n) := by
  intro s
  apply Effect.At.get_bind
  split_ifs
  · exact hE.fault _ (by decide) s
  · exact Effect.holds_pure _ s

theorem fetchInt {cbc : CBC} {size : ℤ} (sign : Bool) {pBI : Option BitfieldInfo} {s : PackInfo}
    (hemit : E.At (emit (.access s.path pBI.isSome (intOrder cbc s pBI) s.pos size)) s) :
    E.At (fetchInt cbc size sign pBI) s := by
  apply Effect.At.get_bind
  apply hemit.bind
  intro _ t _
  split_ifs
  · exact hE.fault _ (by decide) t
  · exact hE.lift (plain_fetchInteger ..) t
  · exact hE.fault _ (by decide) t

theorem fetchFloatSv {cbc : CBC} {size : ℤ} (flags : TFlags) {s : PackInfo}
    (hemit : E.At (emit (.access s.path false s.order s.pos size)) s) :
    E.At (fetchFloatSv perl cbc size flags) s := by
  unfold ConvertBinaryC.fetchFloatSv
  split_ifs
  · apply Effect.At.get_bind
    apply hemit.bind
    intro _ t _
    exact (hE.fetchBytes _).bind (fun _ => Effect.holds_pure _) t
  · exact Effect.holds_pure _ s

theorem unpackFormat (format : FormatTag) {size : ℤ} {flexible : Bool} {s : PackInfo}
    (hzero : flexible = true → size = 0 → E.fails s .divideByZero s)
    (hemit : ∀ size, E.At (emit (.copy s.path s.pos size)) s) :
    E.At (unpackFormat format size flexible) s := by
  have hsize : E.At (liftCall (if flexible then flexibleRest s.length s.pos size else .ok size)) s := by
    split_ifs with hflexible
    · by_cases hzero' : size = 0
      · rw [flexibleRest, if_pos hzero']
        exact hzero hflexible hzero'
      · rw [flexibleRest, if_neg hzero']
        exact E.refl s
    · exact E.refl s
  apply Effect.At.get_bind
  split
  · exact Effect.holds_pure _ s
  · apply hsize.bind
    intro size' t ht
    rw [(liftCall_ok ht).2]
    apply (hemit size').bind
    intro _ t _
    apply (hE.fetchBytes _ t).bind
    intro bytes t _
    cases format <;> exact Effect.holds_pure _ t

theorem prepare {d : Declarator} {dimtag : Option DimensionTag}
    (hunit : E.Holds (liftCall (formatUnit d dimtag))) :
    E.Holds (preparePackFormat perl d dimtag) := by
  apply hunit.bind
  intro one
  split
  · exact Effect.holds_pure _
  · cases dimtag with
    | none => exact Effect.holds_pure _
    | some tag =>
      apply (hE.dimension _ _).bind
      intro dim
      apply (hE.lift (plain_long _)).bind
      exact fun size => Effect.holds_pure _

theorem extend (s : ℤ) : E.Holds (avExtend perl s) := by
  unfold avExtend
  split_ifs
  · exact hE.fault _ (by decide)
  · exact Effect.holds_pure _

theorem head {d : Declarator} {dimension : ℕ} {dimtag : Option DimensionTag} {s : PackInfo}
    (hzero : elementStride d dimension = .ok 0 → E.fails s .divideByZero s)
    (hemit : ∀ size avail n t, elementStride d dimension = .ok size →
      availElements s.length s.pos size = .ok avail →
      unpackCount perl d dimension dimtag avail s = .ok n t →
      E.At (emit (.elements s.path (isFlexible d dimension dimtag) s.pos s.length size
        (loopBound n))) t) :
    E.At (unpackArrayHead perl d dimension dimtag) s := by
  apply (hE.lift (plain_timesDims _ _) s).bind
  intro size t hlift
  obtain ⟨hsize, rfl⟩ := liftCall_ok hlift
  apply Effect.At.get_bind
  have havail : E.At (liftCall (availElements t.length t.pos size)) t := by
    unfold availElements
    split_ifs with hz
    · exact hzero (hz ▸ hsize)
    · exact E.refl t
  apply havail.bind
  intro avail u hlift
  obtain ⟨hrest, rfl⟩ := liftCall_ok hlift
  have hcount : E.Holds (unpackCount perl d dimension dimtag avail) := by
    unfold unpackCount
    split
    · exact hE.dimension _ _
    · exact Effect.holds_pure _
    · exact hE.fault _ (by decide)
  apply (hcount u).bind
  intro n v hn
  apply (hemit size avail n v hsize hrest hn).bind
  intro _ v _
  exact ((hE.extend _).bind fun _ => Effect.holds_pure _) v

theorem count (hgrow : ∀ size, E.Holds (growBuffer perl size)) (d : Declarator) (dimension : ℕ)
    (dimtag : Option DimensionTag) (size avail : ℤ) :
    E.Holds (packCount perl d dimension dimtag size avail) := by
  unfold packCount
  split
  · apply (hE.dimension _ _).bind
    intro s
    apply (hE.lift (plain_long _)).bind
    intro grown
    exact (hgrow _).bind fun _ => Effect.holds_pure _
  · split_ifs
    · apply (hE.lift (plain_long _)).bind
      intro grown
      exact (hgrow _).bind fun _ => Effect.holds_pure _
    · exact Effect.holds_pure _
  · exact hE.fault _ (by decide)

section Buffer
variable (hbuffer : ∀ s buffer length cur,
  E.returns s { s with buffer := buffer, length := length, cur := cur })
include hbuffer

omit hE in
theorem storeBytes (hE : LeafClosed E perl) (n : ℕ) (bytes : ℕ → Byte) :
    E.Holds (storeBytes n bytes) := by
  intro s
  apply Effect.At.get_bind
  split_ifs
  · exact hE.fault _ (by decide) s
  · exact Effect.At.set (hbuffer s _ s.length s.cur)

theorem grow {size : ℤ} {s : PackInfo}
    (hemit : E.At (emit (.grow s.path (u64 (s.pos + size)))) s) :
    E.At (growBuffer perl size) s := by
  apply Effect.At.get_bind
  apply hemit.bind
  intro _ t _
  split_ifs
  · exact hE.fault _ (by decide) t
  · exact hE.fault _ (by decide) t
  · exact Effect.At.modify (hbuffer t _ _ _)
  · exact Effect.holds_pure _ t

theorem storeInt {cbc : CBC} {size : ℤ} {pBI : Option BitfieldInfo} (iv : IntValue) {s : PackInfo}
    (hemit : E.At (emit (.access s.path pBI.isSome (intOrder cbc s pBI) s.pos size)) s) :
    E.At (storeInt cbc size pBI iv) s := by
  apply Effect.At.get_bind
  apply hemit.bind
  intro _ t _
  split_ifs
  · exact hE.fault _ (by decide) t
  · apply (hE.lift (plain_storeInteger ..) t).bind
    exact fun buffer t _ => Effect.At.modify (hbuffer t buffer t.length t.cur)

theorem storeFloatSv {cbc : CBC} {size : ℤ} (flags : TFlags) (v : Scalar) {s : PackInfo}
    (hemit : E.At (emit (.access s.path false s.order s.pos size)) s) :
    E.At (storeFloatSv perl cbc size flags v) s := by
  unfold ConvertBinaryC.storeFloatSv
  split_ifs
  · apply Effect.At.get_bind
    apply hemit.bind
    exact fun _ t _ => hE.storeBytes hbuffer _ _ t
  · exact Effect.holds_pure _ s

theorem copyFormat (format : FormatTag) (size len : ℤ) (p : List Byte) {s : PackInfo}
    (hemit : ∀ len, E.At (emit (.copy s.path s.pos len)) s) :
    E.At (copyFormat format size len p) s := by
  apply Effect.At.get_bind
  apply (hemit _).bind
  exact fun _ t _ => hE.storeBytes hbuffer _ _ t

theorem packFormat (format : FormatTag) {size : ℤ} {flexible : Bool} (sv : SV)
    (hzero : flexible = true → size = 0 → ∀ s, E.fails s .divideByZero s)
    (hgrow : ∀ s required, E.At (emit (.grow s.path required)) s)
    (hemit : ∀ s len, E.At (emit (.copy s.path s.pos len)) s) :
    E.Holds (packFormat perl format size flexible sv) := by
  unfold ConvertBinaryC.packFormat
  split_ifs with hflexible
  · apply Effect.Holds.bind
    · unfold flexibleFormat
      dsimp only
      by_cases hz : size = 0
      · rw [if_pos hz]
        exact hzero hflexible hz
      · rw [if_neg hz]
        exact fun s => E.refl s
    · rintro ⟨len, size⟩ s
      apply (hE.grow hbuffer (hgrow s _)).bind
      exact fun _ t _ => hE.copyFormat hbuffer _ _ _ _ (hemit t)
  · exact Effect.holds_pure _
  · intro s
    apply (hE.grow hbuffer (hgrow s _)).bind
    exact fun _ t _ => hE.copyFormat hbuffer _ _ _ _ (hemit t)
  · intro s
    apply (hE.grow hbuffer (hgrow s _)).bind
    exact fun _ t _ => Effect.holds_pure _ t

end Buffer

end LeafClosed

/-- An effect for which the byte order and the path do not matter. -/
structure LeafIndifferent (E : Effect Fault PackInfo) (perl : Perl) : Prop where
  pos : ∀ x, E.Holds (setPos (u64 x))
  sub : ∀ sub arg, E.Holds (callSub perl sub arg)
  fault : ∀ {α : Type} (e : Fault), e.Leaf → E.Holds (throw e : Pk α)
  order : ∀ s order, E.returns s { s with order := order }
  path : ∀ s path, E.returns s { s with path := path }

/-- An effect for which also the parent does not matter. -/
structure Indifferent (E : Effect Fault PackInfo) (perl : Perl) : Prop
    extends LeafIndifferent E perl where
  parent : ∀ h, E.Holds (setParent h)

namespace LeafIndifferent
variable {E : Effect Fault PackInfo} {perl : Perl} (hE : LeafIndifferent E perl)
include hE

theorem within_at {α : Type} {scope : Scope} {m : Pk α} {s : PackInfo}
    (hs : E.At m (s.enter scope)) : E.At (ConvertBinaryC.within scope m) s := by
  have henter : E.returns s (s.enter scope) := hE.path s _
  unfold Effect.At at hs ⊢
  cases hrun : m (s.enter scope) with
  | ok a t =>
    rw [hrun] at hs
    rw [within_ok hrun]
    exact E.trans henter (E.trans hs (hE.path t _))
  | error e t =>
    rw [hrun] at hs
    rw [within_error hrun]
    exact E.absorb henter hs

theorem within {α : Type} (scope : Scope) {m : Pk α} (hm : E.Holds m) :
    E.Holds (within scope m) :=
  fun _ => hE.within_at (hm _)

theorem keep {α : Type} {m : Pk α} (hm : E.Holds m) : E.Holds (keepByteOrder m) := by
  intro s
  have hs := hm s
  unfold Effect.At at hs ⊢
  cases hrun : m s with
  | ok a t =>
    rw [hrun] at hs
    rw [keepByteOrder_ok hrun]
    exact E.trans hs (hE.order t _)
  | error e t =>
    rw [hrun] at hs
    rwa [keepByteOrder_error hrun]

theorem scope {α : Type} {scope : Scope} {tags : CtTagList} {m : Pk α}
    (hm : E.Holds (keepByteOrder m)) : E.Holds (inScope scope tags m) := by
  intro s
  have hs := hm ((s.tagged tags).enter scope)
  have henter : E.returns s ((s.tagged tags).enter scope) :=
    E.trans (hE.order s _) (hE.path (s.tagged tags) _)
  unfold Effect.At at hs ⊢
  cases hrun : m ((s.tagged tags).enter scope) with
  | ok a t =>
    rw [keepByteOrder_ok hrun] at hs
    rw [inScope_ok hrun]
    have hleave : E.returns { t with order := (s.tagged tags).order }
        { t.leave with order := s.order } :=
      E.trans (hE.path _ t.path.tail) (hE.order { t.leave with order := (s.tagged tags).order } _)
    exact E.trans henter (E.trans hs hleave)
  | error e t =>
    rw [keepByteOrder_error hrun] at hs
    rw [inScope_error hrun]
    exact E.absorb henter hs

theorem leafClosed : LeafClosed E perl where
  pos := hE.pos
  sub := hE.sub
  fault := hE.fault
  element _ _ hm := hE.within _ hm
  keep _ hm := hE.keep hm
  scope _ _ _ _ hm := hE.scope hm

theorem unpackEnum {cbc : CBC} (hcheck : ∀ size, E.Holds (checkBuffer size))
    (hfetch : ∀ size sign pBI, E.Holds (fetchInt cbc size sign pBI))
    (hformat : ∀ format size, E.Holds (unpackFormat format size false)) (pES : EnumSpecifier)
    (pBI : Option BitfieldInfo) : E.Holds (keepByteOrder (unpackEnum perl cbc pES pBI)) := by
  have hrestore (old : CByteOrder) : E.Holds (restoreByteOrder old) := fun s => hE.order s old
  have hset : E.Holds (setByteOrder pES.tags) := fun s => hE.order s _
  have hbyteOrder : E.Holds byteOrder := fun s => E.refl s
  apply hE.keep
  apply hbyteOrder.bind
  intro old
  dsimp only
  split
  · apply (hE.within _ (hformat _ _)).bind
    exact fun sv => hE.leafClosed.hook _ _
  · apply hset.bind
    intro _
    apply (hcheck _).bind
    intro short
    cases short
    · apply (hE.within _ (hfetch _ _ _)).bind
      intro iv
      apply (hrestore old).bind
      exact fun _ => hE.leafClosed.hook _ _
    · exact Effect.holds_pure _

end LeafIndifferent

theorem Indifferent.closed {E : Effect Fault PackInfo} {perl : Perl} (hE : Indifferent E perl) :
    Closed E perl where
  toLeafClosed := hE.leafClosed
  parent := hE.parent

/-- All declarators of a heap have a property. -/
structure Heap.Declarators (heap : Heap) (P : Declarator → Prop) : Prop where
  member : ∀ s, ∀ pStructDecl ∈ (heap.structAt s).declarations.getD [],
    ∀ d ∈ pStructDecl.declarators.getD [], P d
  typedef : ∀ t, P (heap.typedefAt t).decl

/-- The size and the flag that a Format tag of a declarator is handled with. -/
def packDeclaratorFormat (perl : Perl) (d : Declarator) (format : FormatTag) (sv : SV) : Pk Unit :=
  within (.declarator d) do
    let (size, flexible) ← preparePackFormat perl d d.tags.dimension
    packFormat perl format (u32 size) flexible sv

def unpackDeclaratorFormat (perl : Perl) (d : Declarator) (format : FormatTag) : Pk SV :=
  within (.declarator d) do
    let (size, flexible) ← preparePackFormat perl d d.tags.dimension
    unpackFormat format (u32 size) flexible

/-- An effect that the leaves of packing have, for declarators with the property `P`. -/
structure PackLeaves (E : Effect Fault PackInfo) (perl : Perl) (cbc : CBC)
    (P : Declarator → Prop) : Prop extends LeafClosed E perl where
  grow : ∀ size, E.Holds (growBuffer perl size)
  store : ∀ size pBI iv, E.Holds (storeInt cbc size pBI iv)
  storeFloat : ∀ size flags s, E.Holds (storeFloatSv perl cbc size flags s)
  elements : ∀ path flexible pos length size s,
    E.Holds (emit (.elements path flexible pos length size s))
  format : ∀ (scope : Scope) tags format size sv, scope.HasTags tags →
    E.Holds (within scope (packFormat perl format size false sv))
  declaratorFormat : ∀ d format sv, P d → d.tags.format = some format →
    E.Holds (packDeclaratorFormat perl d format sv)

/-- An effect that packing has. -/
structure PackClosed (E : Effect Fault PackInfo) (perl : Perl) (cbc : CBC)
    (P : Declarator → Prop) : Prop extends Closed E perl, PackLeaves E perl cbc P

namespace PackLeaves
variable {E : Effect Fault PackInfo} {perl : Perl} {cbc : CBC} {P : Declarator → Prop}
  (hE : PackLeaves E perl cbc P)
include hE

theorem pointer (sv : SV) : E.Holds (packPointer perl cbc sv) := by
  apply (hE.grow _).bind
  intro _
  cases sv with
  | scalar s => exact hE.store _ _ _
  | _ => exact Effect.holds_pure _

theorem basic (flags : TFlags) (pBI : Option BitfieldInfo) (sv : SV) :
    E.Holds (packBasic perl cbc flags pBI sv) := by
  unfold packBasic
  generalize packLoadSize cbc flags pBI = r
  obtain ⟨size, flags⟩ := r
  apply (hE.grow _).bind
  intro _
  cases sv with
  | scalar s =>
    dsimp only
    split_ifs
    · exact hE.storeFloat _ _ _
    · exact hE.store _ _ _
  | _ => exact Effect.holds_pure _

theorem enum (pES : EnumSpecifier) (pBI : Option BitfieldInfo) (sv : SV) :
    E.Holds (packEnum perl cbc pES pBI sv) := by
  apply (hE.hook _ _).bind
  intro sv
  cases pES.tags.format with
  | some format => exact hE.format _ pES.tags _ _ _ rfl
  | none =>
    refine hE.inner ?_ rfl
    apply (hE.grow _).bind
    intro _
    cases sv with
    | scalar s => exact hE.store _ _ _
    | _ => exact Effect.holds_pure _

end PackLeaves

/-- An effect that what packing does for a leaf has as a whole, for declarators with the property
`P` and bitfields with the property `B`. -/
structure PackParts (E : Effect Fault PackInfo) (perl : Perl) (cbc : CBC)
    (P : Declarator → Prop) (B : Option BitfieldInfo → Prop) : Prop extends Closed E perl where
  grow : ∀ size, E.Holds (growBuffer perl size)
  elements : ∀ path flexible pos length size s,
    E.Holds (emit (.elements path flexible pos length size s))
  pointer : ∀ sv, E.Holds (packPointer perl cbc sv)
  basic : ∀ flags pBI sv, B pBI → E.Holds (packBasic perl cbc flags pBI sv)
  enum : ∀ e pBI sv, B pBI → E.Holds (packEnum perl cbc (cbc.heap.enumAt e) pBI sv)
  structFormat : ∀ s format sv, E.Holds (within (.compound (cbc.heap.structAt s))
    (packFormat perl format (cbc.heap.structAt s).size false sv))
  declaratorFormat : ∀ d format sv, P d → d.tags.format = some format →
    E.Holds (packDeclaratorFormat perl d format sv)
  whole : B none
  bitfield : ∀ d bit, P d → d.ext = .bitfield bit → B (some bit)

theorem PackClosed.parts {E : Effect Fault PackInfo} {perl : Perl} {cbc : CBC}
    {P : Declarator → Prop} (hE : PackClosed E perl cbc P) :
    PackParts E perl cbc P fun _ => True where
  toClosed := hE.toClosed
  grow := hE.grow
  elements := hE.elements
  pointer := hE.pointer
  basic flags pBI sv _ := hE.basic flags pBI sv
  enum _ pBI sv _ := hE.enum _ pBI sv
  structFormat s format sv :=
    hE.format (.compound (cbc.heap.structAt s)) (cbc.heap.structAt s).tags format _ sv rfl
  declaratorFormat := hE.declaratorFormat
  whole := trivial
  bitfield _ _ _ _ := trivial

namespace PackParts
variable {E : Effect Fault PackInfo} {perl : Perl} {cbc : CBC} {P : Declarator → Prop}
  {B : Option BitfieldInfo → Prop} (hE : PackParts E perl cbc P B)
include hE

section Steps
variable {packType : PackTypeFn} {packStruct : PackStructFn}
  (htype : ∀ pTS pDecl dimension pBI sv, B pBI → (∀ d ∈ pDecl, P d) →
    E.Holds (packType pTS pDecl dimension pBI sv))
  (hstruct : ∀ s sv inlined, E.Holds (packStruct s sv inlined))
include htype

theorem array (pTS : TypeSpec) {d : Declarator} (hd : P d) (dimension : ℕ)
    (dimtag : Option DimensionTag) (sv : SV) :
    E.Holds (packArray perl packType pTS d dimension dimtag sv) := by
  unfold packArray
  cases sv with
  | av elems =>
    apply (hE.lift (plain_timesDims _ _)).bind
    intro size
    apply (hE.count hE.grow _ _ _ _ _).bind
    intro s
    apply Effect.holds_get.bind
    intro st
    apply (hE.elements _ _ _ _ _ _).bind
    intro _
    apply Effect.Holds.forM
    rintro ⟨elem, i⟩ _
    cases elem with
    | none => exact Effect.holds_pure _
    | some sv =>
      apply hE.element
      apply (hE.lift (plain_long _)).bind
      intro distance
      apply (hE.pos _).bind
      intro _
      apply htype _ _ _ _ _ hE.whole
      rintro d' ⟨⟩
      exact hd
  | _ =>
    apply (hE.lift (plain_timesDims _ _)).bind
    intro size
    exact hE.grow _

include hstruct

theorem untagged (hheap : cbc.heap.Declarators P) (pTS : TypeSpec) {pDecl : Option Declarator}
    (hd : ∀ d ∈ pDecl, P d) (dimension : ℕ) (dimtag : Option DimensionTag)
    {pBI : Option BitfieldInfo} (hBI : B pBI) (sv : SV) :
    E.Holds (packUntagged perl cbc packType packStruct pTS pDecl dimension dimtag pBI sv) := by
  unfold packUntagged
  split
  · rename_i d hfilter
    apply hE.array htype
    exact hd d (Option.mem_filter_iff.mp hfilter).1
  · split_ifs
    · apply (hE.hook _ _).bind
      exact fun sv => hE.pointer sv
    · cases pTS with
      | typedef t =>
        apply htype _ _ _ _ _ hBI
        rintro d ⟨⟩
        exact hheap.typedef t
      | compound kind s =>
        dsimp only
        split
        · exact Effect.holds_pure _
        · exact hstruct s sv false
      | enum e => exact hE.enum _ _ _ hBI
      | basic flags => exact hE.basic _ _ _ hBI

theorem typeStep (hheap : cbc.heap.Declarators P) (pTS : TypeSpec) {pDecl : Option Declarator}
    (hd : ∀ d ∈ pDecl, P d) (dimension : ℕ) {pBI : Option BitfieldInfo} (hBI : B pBI) (sv : SV) :
    E.Holds (packTypeStep perl cbc packType packStruct pTS pDecl dimension pBI sv) := by
  unfold packTypeStep
  split
  · rename_i d
    apply (hE.hook _ _).bind
    intro sv
    split
    · rename_i format hformat
      exact hE.declaratorFormat d format sv (hd d rfl) hformat
    · refine hE.inner ?_ rfl
      exact hE.untagged htype hstruct hheap pTS hd _ _ hBI _
  · apply hE.keep
    exact hE.untagged htype hstruct hheap pTS hd _ _ hBI _

omit hstruct in
theorem member (h : Hash) (pos : ℤ) (type : TypeSpec) {d : Declarator} (hd : P d) :
    E.Holds (packMember packType h pos type d) := by
  unfold packMember
  split
  · apply (hE.pos _).bind
    intro _
    apply (hE.parent _).bind
    intro _
    apply Effect.Holds.bind
    · apply htype
      · split
        · exact hE.bitfield d _ hd (by assumption)
        · exact hE.whole
      · rintro d' ⟨⟩
        exact hd
    · exact fun _ => hE.parent _
  · exact Effect.holds_pure _

theorem members (hfuel : ∀ {α : Type}, E.Holds (throw .outOfFuel : Pk α))
    (hheap : cbc.heap.Declarators P) (fuel : ℕ) (s : ℕ) (sv : SV) :
    E.Holds (packMembers cbc fuel packType packStruct (cbc.heap.structAt s) sv) := by
  apply Effect.holds_get.bind
  intro st
  cases sv with
  | hv h =>
    apply Effect.Holds.forM
    intro pStructDecl hmem
    unfold packDeclaration
    split
    · rename_i declarators hdecls
      apply Effect.Holds.forM
      intro d hd
      apply hE.member htype
      apply hheap.member s pStructDecl hmem
      rwa [hdecls]
    · apply (hE.liftFueled hfuel (undivided_followTsptr _ _ _)).bind
      intro s
      apply (hE.pos _).bind
      intro _
      exact hstruct s _ true
  | _ => exact Effect.holds_pure _

theorem structStep (hfuel : ∀ {α : Type}, E.Holds (throw .outOfFuel : Pk α))
    (hheap : cbc.heap.Declarators P) (fuel : ℕ) (s : ℕ) (sv : SV) (inlined : Bool) :
    E.Holds (packStructStep perl cbc fuel packType packStruct s sv inlined) := by
  unfold packStructStep
  dsimp only
  split_ifs
  · refine hE.inner ?_ rfl
    exact hE.members htype hstruct hfuel hheap fuel s sv
  · apply (hE.hook _ _).bind
    intro sv
    split
    · exact hE.structFormat s _ _
    · refine hE.inner ?_ rfl
      exact hE.members htype hstruct hfuel hheap fuel s sv

end Steps

/-- Packing has the effect. -/
theorem recursion (hfuel : ∀ {α : Type}, E.Holds (throw .outOfFuel : Pk α))
    (hheap : cbc.heap.Declarators P) (fuel : ℕ) :
    (∀ pTS pDecl dimension pBI sv, B pBI → (∀ d ∈ pDecl, P d) →
      E.Holds (packType perl cbc fuel pTS pDecl dimension pBI sv)) ∧
    ∀ s sv inlined, E.Holds (packStruct perl cbc fuel s sv inlined) := by
  induction fuel with
  | zero => exact ⟨fun _ _ _ _ _ _ _ => hfuel, fun _ _ _ => hfuel⟩
  | succ fuel ih =>
    constructor
    · intro pTS pDecl dimension pBI sv hBI hd
      rw [packType]
      exact hE.typeStep ih.1 ih.2 hheap pTS hd _ hBI _
    · intro s sv inlined
      rw [packStruct]
      exact hE.structStep ih.1 ih.2 hfuel hheap fuel s sv inlined

end PackParts

/-- Packing has an effect that its leaves have. -/
theorem PackClosed.recursion {E : Effect Fault PackInfo} {perl : Perl} {cbc : CBC}
    {P : Declarator → Prop} (hE : PackClosed E perl cbc P)
    (hfuel : ∀ {α : Type}, E.Holds (throw .outOfFuel : Pk α)) (hheap : cbc.heap.Declarators P)
    (fuel : ℕ) :
    (∀ pTS pDecl dimension pBI sv, (∀ d ∈ pDecl, P d) →
      E.Holds (packType perl cbc fuel pTS pDecl dimension pBI sv)) ∧
    ∀ s sv inlined, E.Holds (packStruct perl cbc fuel s sv inlined) := by
  obtain ⟨htype, hstruct⟩ := hE.parts.recursion hfuel hheap fuel
  exact ⟨fun pTS pDecl dimension pBI sv => htype pTS pDecl dimension pBI sv trivial, hstruct⟩

theorem unpackUntagged_array {perl : Perl} {cbc : CBC} {unpackType : UnpackTypeFn}
    {unpackStruct : UnpackStructFn} {pTS : TypeSpec} {d : Declarator} {k : ℕ}
    {dimtag : Option DimensionTag} {pBI : Option BitfieldInfo} (hk : k < d.dims.length) :
    unpackUntagged perl cbc unpackType unpackStruct pTS (some d) k dimtag pBI =
      unpackArray perl unpackType pTS d k dimtag := by
  have hfilter : (some d).filter (fun d => decide (k < d.dims.length)) = some d := by
    rw [Option.filter_some_pos]
    exact decide_eq_true hk
  unfold unpackUntagged
  rw [hfilter]

/-- What `unpack_type` handles as a plain type: there is no dimension left and no pointer. -/
def Plainly (pDecl : Option Declarator) (dimension : ℕ) : Prop :=
  ∀ d ∈ pDecl, d.dims.length ≤ dimension ∧ d.pointer_flag = false

theorem Plainly.filter {pDecl : Option Declarator} {dimension : ℕ} (h : Plainly pDecl dimension) :
    pDecl.filter (fun d => decide (dimension < d.dims.length)) = none := by
  apply Option.filter_eq_none_iff.mpr
  intro d hd hdim
  have hover := (h d hd).1
  have hlt := of_decide_eq_true hdim
  omega

theorem Plainly.pointer {pDecl : Option Declarator} {dimension : ℕ} (h : Plainly pDecl dimension) :
    ¬ pDecl.any Declarator.pointer_flag = true := by
  cases pDecl with
  | none => exact Bool.false_ne_true
  | some d =>
    intro hflag
    have hplain : d.pointer_flag = false := (h d rfl).2
    rw [Option.any_some, hplain] at hflag
    cases hflag

theorem unpackUntagged_compound {perl : Perl} {cbc : CBC} {unpackType : UnpackTypeFn}
    {unpackStruct : UnpackStructFn} {kind : CompoundKind} {s : ℕ} {pDecl : Option Declarator} {k : ℕ}
    {dimtag : Option DimensionTag} {pBI : Option BitfieldInfo} (hplain : Plainly pDecl k)
    (hdefined : (cbc.heap.structAt s).declarations ≠ none) :
    unpackUntagged perl cbc unpackType unpackStruct (.compound kind s) pDecl k dimtag pBI =
      unpackStruct s none := by
  unfold unpackUntagged
  rw [hplain.filter]
  dsimp only
  rw [if_neg hplain.pointer]
  cases hdecl : (cbc.heap.structAt s).declarations with
  | none => exact absurd hdecl hdefined
  | some declarations => rfl

section Step
variable {perl : Perl} {cbc : CBC} {unpackType : UnpackTypeFn} {unpackStruct : UnpackStructFn}
  {pTS : TypeSpec} {d : Declarator} {pBI : Option BitfieldInfo}

theorem unpackTypeStep_format {format : FormatTag} (hformat : d.tags.format = some format) :
    unpackTypeStep perl cbc unpackType unpackStruct pTS (some d) 0 pBI =
      unpackDeclaratorFormat perl d format >>= fun rv =>
        hookCall perl (d.tags.hooks.bind TypeHooks.unpack) rv := by
  simp only [unpackTypeStep, hformat]
  rfl

theorem unpackTypeStep_plain (hformat : d.tags.format = none) :
    unpackTypeStep perl cbc unpackType unpackStruct pTS (some d) 0 pBI =
      inScope (.declarator d) d.tags
        (unpackUntagged perl cbc unpackType unpackStruct pTS (some d) 0 d.tags.dimension pBI) >>=
          fun rv => hookCall perl (d.tags.hooks.bind TypeHooks.unpack) rv := by
  simp only [unpackTypeStep, hformat]

end Step

/-- An effect that the leaves of unpacking have, for declarators with the property `P`. An
enum keeps the byte order only together with the type that it is unpacked for. An array
with a Format tag is not looked at before its second dimension. -/
structure UnpackLeaves (E : Effect Fault PackInfo) (perl : Perl) (cbc : CBC)
    (P : Declarator → Prop) : Prop extends LeafClosed E perl where
  check : ∀ size, E.Holds (checkBuffer size)
  fetch : ∀ size sign pBI, E.Holds (fetchInt cbc size sign pBI)
  fetchFloat : ∀ size flags, E.Holds (fetchFloatSv perl cbc size flags)
  enum : ∀ pES pBI, E.Holds (keepByteOrder (unpackEnum perl cbc pES pBI))
  head : ∀ d dimension dimtag, P d → (dimension = 0 → d.tags.format = none) →
    dimension < d.dims.length → E.Holds (unpackArrayHead perl d dimension dimtag)
  format : ∀ (scope : Scope) tags format size, scope.HasTags tags →
    E.Holds (within scope (unpackFormat format size false))
  declaratorFormat : ∀ d format, P d → d.tags.format = some format →
    E.Holds (unpackDeclaratorFormat perl d format)

/-- An effect that unpacking has. -/
structure UnpackClosed (E : Effect Fault PackInfo) (perl : Perl) (cbc : CBC)
    (P : Declarator → Prop) : Prop extends Closed E perl, UnpackLeaves E perl cbc P

namespace UnpackLeaves
variable {E : Effect Fault PackInfo} {perl : Perl} {cbc : CBC} {P : Declarator → Prop}
  (hE : UnpackLeaves E perl cbc P)
include hE

theorem fetchSv (size : ℤ) (sign : Bool) (pBI : Option BitfieldInfo) :
    E.Holds (fetchIntSv cbc size sign pBI) :=
  (hE.fetch size sign pBI).bind fun _ => Effect.holds_pure _

theorem pointer : E.Holds (unpackPointer cbc) := by
  apply (hE.check _).bind
  intro short
  cases short
  · exact hE.fetchSv _ _ _
  · exact Effect.holds_pure _

theorem basic (flags : TFlags) (pBI : Option BitfieldInfo) :
    E.Holds (unpackBasic perl cbc flags pBI) := by
  unfold unpackBasic
  generalize packLoadSize cbc flags pBI = r
  obtain ⟨size, flags⟩ := r
  apply (hE.check _).bind
  intro short
  cases short
  · rw [if_neg Bool.false_ne_true]
    split_ifs
    · exact hE.fetchFloat _ _
    · exact hE.fetchSv _ _ _
  · exact Effect.holds_pure _

end UnpackLeaves

/-- What unpacking a type goes on with behind all dimensions has the effect. -/
def UnpacksBelow (E : Effect Fault PackInfo) (heap : Heap) (unpackType : UnpackTypeFn)
    (unpackStruct : UnpackStructFn) (pBI : Option BitfieldInfo) : TypeSpec → Prop
  | .typedef t => E.Holds (unpackType (heap.typedefAt t).type (some (heap.typedefAt t).decl) 0 pBI)
  | .compound _ s => E.Holds (unpackStruct s none)
  | _ => True

/-- An effect that what unpacking does for a leaf has as a whole. -/
structure UnpackParts (E : Effect Fault PackInfo) (perl : Perl) (cbc : CBC)
    (P : Declarator → Prop) (B : Option BitfieldInfo → Prop) : Prop extends Closed E perl where
  pointer : E.Holds (unpackPointer cbc)
  basic : ∀ flags pBI, B pBI → E.Holds (unpackBasic perl cbc flags pBI)
  enum : ∀ e pBI, B pBI → E.Holds (keepByteOrder (unpackEnum perl cbc (cbc.heap.enumAt e) pBI))
  head : ∀ d dimension dimtag, P d → (dimension = 0 → d.tags.format = none) →
    dimension < d.dims.length → E.Holds (unpackArrayHead perl d dimension dimtag)
  structFormat : ∀ s format, E.Holds (within (.compound (cbc.heap.structAt s))
    (unpackFormat format (cbc.heap.structAt s).size false))
  declaratorFormat : ∀ d format, P d → d.tags.format = some format →
    E.Holds (unpackDeclaratorFormat perl d format)
  whole : B none
  bitfield : ∀ d bit, P d → d.ext = .bitfield bit → B (some bit)

theorem UnpackClosed.parts {E : Effect Fault PackInfo} {perl : Perl} {cbc : CBC}
    {P : Declarator → Prop} (hE : UnpackClosed E perl cbc P) :
    UnpackParts E perl cbc P fun _ => True where
  toClosed := hE.toClosed
  pointer := hE.pointer
  basic flags pBI _ := hE.basic flags pBI
  enum _ pBI _ := hE.enum _ pBI
  head := hE.head
  structFormat s format :=
    hE.format (.compound (cbc.heap.structAt s)) (cbc.heap.structAt s).tags format _ rfl
  declaratorFormat := hE.declaratorFormat
  whole := trivial
  bitfield _ _ _ _ := trivial

namespace UnpackParts
variable {E : Effect Fault PackInfo} {perl : Perl} {cbc : CBC} {P : Declarator → Prop}
  {B : Option BitfieldInfo → Prop} (hE : UnpackParts E perl cbc P B)
include hE

section Array
variable {unpackType : UnpackTypeFn} {pTS : TypeSpec} {d : Declarator} {dimension : ℕ}
  (helement : E.Holds (unpackType pTS (some d) (dimension + 1) none))
include helement

theorem elements (pos size : ℤ) (n : ℕ) :
    E.Holds ((List.range n).mapM (unpackElement unpackType pTS d dimension pos size)) := by
  apply Effect.Holds.mapM
  intro i _
  apply hE.element
  apply (hE.lift (plain_long _)).bind
  intro distance
  apply (hE.pos _).bind
  exact fun _ => helement

theorem array (hd : P d) (hformat : dimension = 0 → d.tags.format = none)
    (hdim : dimension < d.dims.length) (dimtag : Option DimensionTag) :
    E.Holds (unpackArray perl unpackType pTS d dimension dimtag) := by
  apply (hE.head d dimension dimtag hd hformat hdim).bind
  rintro ⟨size, pos, s⟩
  apply (hE.elements helement pos size s.toNat).bind
  exact fun elems => Effect.holds_pure _

end Array

section Level
variable {unpackType : UnpackTypeFn} {unpackStruct : UnpackStructFn} {pTS : TypeSpec}
  {pDecl : Option Declarator} {dimension : ℕ} {pBI : Option BitfieldInfo} (hBI : B pBI)
  (hd : ∀ d ∈ pDecl, P d)
  (helement : ∀ d ∈ pDecl, dimension < d.dims.length →
    E.Holds (unpackType pTS (some d) (dimension + 1) none))
  (hbelow : (∀ d ∈ pDecl, d.dims.length ≤ dimension ∧ d.pointer_flag = false) →
    UnpacksBelow E cbc.heap unpackType unpackStruct pBI pTS)
include hBI hd helement hbelow

theorem untagged (hformat : ∀ d ∈ pDecl, dimension = 0 → d.tags.format = none)
    (dimtag : Option DimensionTag) :
    E.Holds (keepByteOrder
      (unpackUntagged perl cbc unpackType unpackStruct pTS pDecl dimension dimtag pBI)) := by
  unfold unpackUntagged
  split
  · rename_i d hfilter
    obtain ⟨hmem, hdim⟩ := Option.mem_filter_iff.mp hfilter
    have hdim := of_decide_eq_true hdim
    apply hE.keep
    exact hE.array (helement d hmem hdim) (hd d hmem) (hformat d hmem) hdim dimtag
  · rename_i hfilter
    have hover : ∀ d ∈ pDecl, d.dims.length ≤ dimension := by
      intro d hmem
      have hdim := Option.filter_eq_none_iff.mp hfilter d hmem
      exact Nat.le_of_not_lt fun h => hdim (decide_eq_true h)
    split_ifs with hpointer
    · apply hE.keep
      apply hE.pointer.bind
      exact fun rv => hE.hook _ _
    · have hplain : ∀ d ∈ pDecl, d.pointer_flag = false := by
        intro d hmem
        cases hmem
        exact Bool.eq_false_of_not_eq_true hpointer
      have hbelow := hbelow fun d hmem => ⟨hover d hmem, hplain d hmem⟩
      cases pTS with
      | typedef t => exact hE.keep _ hbelow
      | compound kind s =>
        apply hE.keep
        dsimp only
        split
        · exact Effect.holds_pure _
        · exact hbelow
      | enum e => exact hE.enum _ _ hBI
      | basic flags =>
        apply hE.keep
        exact hE.basic _ _ hBI

/-- One level of unpacking a type has the effect if what it goes on with has it. -/
theorem typeStep : E.Holds (unpackTypeStep perl cbc unpackType unpackStruct pTS pDecl dimension pBI) := by
  unfold unpackTypeStep
  split
  · rename_i d
    dsimp only
    split
    · rename_i format hformat
      apply (hE.declaratorFormat d format (hd d rfl) hformat).bind
      exact fun rv => hE.hook _ _
    · apply Effect.Holds.bind
      · apply hE.scope (.declarator d) d.tags _ rfl
        apply hE.untagged hBI hd helement hbelow
        rintro d' ⟨⟩ _
        assumption
      · exact fun rv => hE.hook _ _
  · rename_i hother
    apply hE.untagged hBI hd helement hbelow
    intro d hmem hdimension
    exact absurd hdimension (hother d hmem)

end Level

theorem member {unpackType : UnpackTypeFn} {type : TypeSpec} {d : Declarator} (hd : P d)
    (htype : ∀ pBI, B pBI → E.Holds (unpackType type (some d) 0 pBI)) (pos : ℤ) (h : Hash) :
    E.Holds (unpackMember unpackType pos type h d) := by
  unfold unpackMember
  split_ifs
  · exact Effect.holds_pure _
  · apply (hE.pos _).bind
    intro _
    apply (hE.parent _).bind
    intro _
    apply Effect.Holds.bind
    · apply htype
      split
      · exact hE.bitfield d _ hd (by assumption)
      · exact hE.whole
    intro value
    exact (hE.parent _).bind fun _ => Effect.holds_pure _

section Struct
variable {unpackType : UnpackTypeFn} {unpackStruct : UnpackStructFn} {fuel s : ℕ}
  (hmember : ∀ sd ∈ (cbc.heap.structAt s).declarations.getD [], ∀ ds, sd.declarators = some ds →
    ∀ d ∈ ds, P d ∧ ∀ pBI, B pBI → E.Holds (unpackType sd.type (some d) 0 pBI))
  (hunnamed : ∀ sd ∈ (cbc.heap.structAt s).declarations.getD [], sd.declarators = none →
    E.Holds (liftCall (followTsptr cbc.heap fuel sd.type)) ∧
      ∀ s', followTsptr cbc.heap fuel sd.type = .ok s' → ∀ hash, E.Holds (unpackStruct s' hash))
include hmember hunnamed

theorem members (h : Hash) :
    E.Holds (unpackMembers cbc fuel unpackType unpackStruct (cbc.heap.structAt s) h) := by
  apply Effect.holds_get.bind
  intro st
  apply Effect.Holds.foldlM
  intro sd hsd h
  unfold unpackDeclaration
  split
  · rename_i ds hds
    apply Effect.Holds.foldlM
    intro d hd h
    obtain ⟨hP, htype⟩ := hmember sd hsd ds hds d hd
    exact hE.member hP htype _ h
  · rename_i hnone
    obtain ⟨hfollow, hstruct⟩ := hunnamed sd hsd hnone
    intro t
    apply (hfollow t).bind
    intro s' u hrun
    have hs' := (liftCall_ok hrun).1
    apply (hE.pos _ u).bind
    intro _ v _
    apply (hstruct s' hs' _ v).bind
    intro sv w _
    cases sv <;> exact Effect.holds_pure _ w

/-- One level of unpacking a compound has the effect if what it goes on with has it. -/
theorem structStep (hash : Option Hash) :
    E.Holds (unpackStructStep perl cbc fuel unpackType unpackStruct s hash) := by
  unfold unpackStructStep
  dsimp only
  split
  · apply Effect.Holds.bind
    · refine hE.inner ?_ rfl
      exact hE.members hmember hunnamed _
    · exact fun h => Effect.holds_pure _
  · split
    · apply (hE.structFormat s _).bind
      exact fun sv => hE.hook _ _
    · apply Effect.Holds.bind
      · refine hE.inner ?_ rfl
        exact hE.members hmember hunnamed _
      · exact fun h => hE.hook _ _

end Struct

/-- Unpacking has the effect. -/
theorem recursion (hfuel : ∀ {α : Type}, E.Holds (throw .outOfFuel : Pk α))
    (hheap : cbc.heap.Declarators P) (fuel : ℕ) :
    (∀ pTS pDecl dimension pBI, B pBI → (∀ d ∈ pDecl, P d) →
      E.Holds (unpackType perl cbc fuel pTS pDecl dimension pBI)) ∧
    ∀ s hash, E.Holds (unpackStruct perl cbc fuel s hash) := by
  induction fuel with
  | zero => exact ⟨fun _ _ _ _ _ _ => hfuel, fun _ _ => hfuel⟩
  | succ fuel ih =>
    obtain ⟨htype, hstruct⟩ := ih
    have hdecl {d : Declarator} (hd : P d) : ∀ d' ∈ some d, P d' := by
      intro d' hd'
      cases hd'
      exact hd
    constructor
    · intro pTS pDecl dimension pBI hBI hd
      rw [unpackType]
      apply hE.typeStep hBI hd
      · exact fun d hmem _ => htype _ _ _ _ hE.whole (hdecl (hd d hmem))
      · intro _
        cases pTS with
        | typedef t => exact htype _ _ _ _ hBI (hdecl (hheap.typedef t))
        | compound kind s => exact hstruct s none
        | _ => trivial
    · intro s hash
      rw [unpackStruct]
      apply hE.structStep
      · intro sd hsd ds hds d hd
        have hP : P d := hheap.member s sd hsd d (by rwa [hds])
        exact ⟨hP, fun pBI hBI => htype _ _ _ _ hBI (hdecl hP)⟩
      · exact fun sd _ _ => ⟨hE.liftFueled hfuel (undivided_followTsptr _ _ _), fun s' _ => hstruct s'⟩

end UnpackParts

/-- Unpacking has an effect that its leaves have. -/
theorem UnpackClosed.recursion {E : Effect Fault PackInfo} {perl : Perl} {cbc : CBC}
    {P : Declarator → Prop} (hE : UnpackClosed E perl cbc P)
    (hfuel : ∀ {α : Type}, E.Holds (throw .outOfFuel : Pk α)) (hheap : cbc.heap.Declarators P)
    (fuel : ℕ) :
    (∀ pTS pDecl dimension pBI, (∀ d ∈ pDecl, P d) →
      E.Holds (unpackType perl cbc fuel pTS pDecl dimension pBI)) ∧
    ∀ s hash, E.Holds (unpackStruct perl cbc fuel s hash) := by
  obtain ⟨htype, hstruct⟩ := hE.parts.recursion hfuel hheap fuel
  exact ⟨fun pTS pDecl dimension pBI => htype pTS pDecl dimension pBI trivial, hstruct⟩

end ConvertBinaryC
