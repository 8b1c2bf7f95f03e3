import ConvertBinaryC.CBCPackTrace
import ConvertBinaryC.CTLibBitfieldDisjoint

/-! The number of elements that an array without a fixed number of elements is
unpacked with. -/
namespace ConvertBinaryC
open StateRules

/-- The ranges of an unsigned position and of the length of a string. -/
structure PackInfo.Bounded (st : PackInfo) : Prop where
  pos_nonneg : 0 ≤ st.pos
  pos_lt : st.pos < 18446744073709551616
  length_nonneg : 0 ≤ st.length
  length_lt : st.length < 9223372036854775808

/-- As many elements as the rest of the data starts. -/
structure CountsRest (pos length size count : ℤ) : Prop where
  exact : count = ⌈((max 0 (length - pos) : ℤ) : ℚ) / size⌉
  le_rest : count ≤ max 0 (length - pos)

/-- The position is not behind the end by a whole element. For single bytes the
difference may wrap around, as long as it is negative as a long. -/
def RestSigned (pos length size : ℤ) : Prop :=
  pos < length + size ∨ size = 1 ∧ pos ≤ length + 9223372036854775808

theorem ceil_div_eq {a b q : ℤ} (hb : 0 < b) (hlow : b * (q - 1) < a) (hhigh : a ≤ b * q) :
    ⌈(a : ℚ) / b⌉ = q := by
  have hb' : (0 : ℚ) < b := by exact_mod_cast hb
  rw [Int.ceil_eq_iff]
  constructor
  · rw [lt_div_iff₀ hb']
    have hlow' : (b : ℚ) * (q - 1) < a := by exact_mod_cast hlow
    linarith
  · rw [div_le_iff₀ hb']
    have hhigh' : (a : ℚ) ≤ b * q := by exact_mod_cast hhigh
    linarith

/-- In front of the end the rounded quotient counts the rest. -/
theorem countsRest_of_le {pos length size : ℤ} (hsize : 1 ≤ size) (hrest : pos ≤ length) :
    CountsRest pos length size ((length - pos + (size - 1)) / size) := by
  have hmax : max 0 (length - pos) = length - pos := max_eq_right (by omega)
  have hdiv := Int.mul_ediv_add_emod (length - pos + (size - 1)) size
  have hmod := Int.emod_nonneg (length - pos + (size - 1)) (show size ≠ 0 by omega)
  have hmod' := Int.emod_lt_of_pos (length - pos + (size - 1)) (show 0 < size by omega)
  have hquot : 0 ≤ (length - pos + (size - 1)) / size := Int.ediv_nonneg (by omega) (by omega)
  constructor
  · rw [hmax]
    symm
    apply ceil_div_eq (by omega)
    · rw [mul_sub]
      omega
    · omega
  · rw [hmax]
    -- with the last element, each of the others takes at least one byte
    apply Int.le_of_lt_add_one
    rw [Int.ediv_lt_iff_lt_mul (by omega)]
    nlinarith

/-- Behind the end there is nothing to count. -/
theorem countsRest_behind {pos length size count : ℤ} (h : length < pos) :
    CountsRest pos length size count ↔ count = 0 := by
  have hmax : max 0 (length - pos) = 0 := max_eq_left (by omega)
  constructor
  · intro hcount
    rw [hcount.exact, hmax, Int.cast_zero, zero_div, Int.ceil_zero]
  · rintro rfl
    constructor
    · rw [hmax, Int.cast_zero, zero_div, Int.ceil_zero]
    · rw [hmax]

theorem avail_eq {pos length size avail : ℤ} (hsize : 1 ≤ size) (hsize' : size < 2147483648)
    (havail : availElements length pos size = .ok avail) :
    avail = i64 (u64 (u64 (length - pos) + (size - 1)) / size) := by
  unfold availElements at havail
  rw [if_neg (show size ≠ 0 by omega), u64_of_lt (show 0 ≤ size by omega) (by omega)] at havail
  exact (Except.ok.inj havail).symm

section
variable {pos length size avail : ℤ} (hpos : 0 ≤ pos) (hpos' : pos < 18446744073709551616)
  (hlen : 0 ≤ length) (hlen' : length < 9223372036854775808) (hsize : 1 ≤ size)
  (hsize' : size < 2147483648) (havail : availElements length pos size = .ok avail)
include hpos hlen hlen' hsize hsize' havail

omit hlen in
/-- In front of the end nothing wraps around. -/
theorem avail_of_le (hrest : pos ≤ length) : avail = (length - pos + (size - 1)) / size := by
  have hdiff : u64 (length - pos) = length - pos := u64_of_lt (by omega) (by omega)
  have hsum : u64 (length - pos + (size - 1)) = length - pos + (size - 1) :=
    u64_of_lt (by omega) (by omega)
  have hle := (countsRest_of_le hsize hrest).le_rest
  have hquot : 0 ≤ (length - pos + (size - 1)) / size := Int.ediv_nonneg (by omega) (by omega)
  rw [avail_eq hsize hsize' havail, hdiff, hsum]
  apply i64_of_isLong
  constructor <;> omega

include hpos'

omit hpos in
/-- Behind the end by less than an element, the sum wraps around to less than an element. -/
theorem avail_of_lt (hbehind : length < pos) (hnear : pos < length + size) : avail = 0 := by
  have hdiff : u64 (length - pos) = length - pos + 18446744073709551616 := by
    unfold u64
    omega
  have hsum : u64 (u64 (length - pos) + (size - 1)) = length - pos + (size - 1) := by
    rw [hdiff]
    unfold u64
    omega
  rw [avail_eq hsize hsize' havail, hsum, Int.ediv_eq_zero_of_lt (by omega) (by omega)]
  rfl

omit hpos in
/-- Further behind, it does not wrap around a second time. -/
theorem avail_of_far (hfar : length + size ≤ pos) :
    avail = i64 ((length - pos + (size - 1) + 18446744073709551616) / size) := by
  have hdiff : u64 (length - pos) = length - pos + 18446744073709551616 := by
    unfold u64
    omega
  have hsum : u64 (u64 (length - pos) + (size - 1)) =
      length - pos + (size - 1) + 18446744073709551616 := by
    rw [hdiff]
    unfold u64
    omega
  rw [avail_eq hsize hsize' havail, hsum]

omit hpos in
/-- Of single bytes behind the end there are none as long as the difference is negative. -/
theorem loopBound_single (hfar : length < pos) (hone : size = 1) :
    loopBound avail = 0 ↔ pos ≤ length + 9223372036854775808 := by
  rw [avail_of_far hpos' hlen hlen' hsize hsize' havail (by omega), hone, Int.ediv_one]
  have hbmod : i64 (length - pos + (1 - 1) + 18446744073709551616) =
      if length + 9223372036854775808 < pos then length - pos + 18446744073709551616
      else length - pos := by
    unfold i64
    rw [Int.bmod_def]
    split_ifs <;> omega
  rw [hbmod, loopBound]
  split_ifs <;> omega

omit hpos in
/-- Of larger elements there are too many. -/
theorem loopBound_far (hfar : length + size ≤ pos) (hlarge : 2 ≤ size) : loopBound avail ≠ 0 := by
  have hlow : 1 ≤ (length - pos + (size - 1) + 18446744073709551616) / size := by
    rw [Int.le_ediv_iff_mul_le (by omega)]
    omega
  have hhigh : (length - pos + (size - 1) + 18446744073709551616) / size < 9223372036854775808 := by
    rw [Int.ediv_lt_iff_lt_mul (by omega)]
    omega
  rw [avail_of_far hpos' hlen hlen' hsize hsize' havail hfar,
    i64_of_isLong ⟨by omega, hhigh⟩, loopBound, if_neg (by omega)]
  omega

/-- The loop is over the elements that the rest of the data starts, unless the position
is behind the end by a whole element. -/
theorem countsRest_iff : CountsRest pos length size (loopBound avail) ↔
    RestSigned pos length size := by
  by_cases hrest : pos ≤ length
  · have hcount := avail_of_le hpos hlen' hsize hsize' havail hrest
    have hquot : 0 ≤ (length - pos + (size - 1)) / size := Int.ediv_nonneg (by omega) (by omega)
    rw [loopBound, hcount, if_neg (by omega)]
    exact ⟨fun _ => .inl (by omega), fun _ => countsRest_of_le hsize hrest⟩
  · rw [countsRest_behind (by omega)]
    by_cases hnear : pos < length + size
    · rw [avail_of_lt hpos' hlen hlen' hsize hsize' havail (by omega) hnear]
      exact ⟨fun _ => .inl hnear, fun _ => rfl⟩
    · by_cases hone : size = 1
      · rw [loopBound_single hpos' hlen hlen' hsize hsize' havail (by omega) hone]
        exact ⟨fun h => .inr ⟨hone, h⟩, fun h => (h.resolve_left hnear).2⟩
      · have hcount := loopBound_far hpos' hlen hlen' hsize hsize' havail (by omega) (by omega)
        exact ⟨fun h => absurd h hcount, fun h => absurd (h.resolve_left hnear).1 hone⟩

end

/-- The number of elements of a flexible array is that of the rest of the data, exactly
when the position is not too far behind the end. -/
def Event.CountRight : Event → Prop
  | .elements _ true pos length size count => 1 ≤ size → size < 2147483648 →
    (CountsRest pos length size count ↔ RestSigned pos length size)
  | _ => True

/-- The handle stays in its ranges, and the counts are right. -/
def countEffect : Effect Fault PackInfo where
  returns s t := s.Bounded → t.Bounded ∧ Did Event.CountRight s t
  fails s _ t := s.Bounded → Did Event.CountRight s t
  refl s hs := ⟨hs, Did.refl _ s⟩
  trans h h' hs := ⟨(h' (h hs).1).1, (h hs).2.trans (h' (h hs).1).2⟩
  absorb h h' hs := (h hs).2.trans (h' (h hs).1)

theorem PackInfo.Bounded.of_eq {s t : PackInfo} (hs : s.Bounded) (hpos : t.pos = s.pos)
    (hlength : t.length = s.length) : t.Bounded where
  pos_nonneg := hpos ▸ hs.pos_nonneg
  pos_lt := hpos ▸ hs.pos_lt
  length_nonneg := hlength ▸ hs.length_nonneg
  length_lt := hlength ▸ hs.length_lt

theorem count_same {s t : PackInfo} (hpos : t.pos = s.pos) (hlength : t.length = s.length)
    (htrace : t.trace = s.trace) : countEffect.returns s t :=
  fun hs => ⟨hs.of_eq hpos hlength, Did.of_trace htrace⟩

theorem count_emit {s : PackInfo} {e : Event} (h : s.Bounded → e.CountRight) :
    countEffect.At (emit e) s :=
  fun hs => ⟨hs.of_eq rfl rfl, Did.one rfl (h hs)⟩

theorem count_throw {α : Type} (e : Fault) : countEffect.Holds (throw e : Pk α) :=
  fun s _ => Did.refl _ s

theorem count_lift {α : Type} (c : Call α) : countEffect.Holds (liftCall c) := by
  cases c with
  | ok a => exact Effect.holds_pure a
  | error e => exact count_throw e

theorem count_sub (perl : Perl) (sub : ℕ) (arg : Option SV) :
    countEffect.Holds (callSub perl sub arg) := by
  intro s
  apply Effect.At.get_bind
  have hset : countEffect.At (set { s with calls := s.calls + 1 } : Pk PUnit) s :=
    Effect.At.set (count_same rfl rfl rfl)
  apply hset.bind
  intro _ t _
  split
  · exact Effect.holds_pure _ t
  · exact count_throw _ t

theorem count_indifferent (perl : Perl) : Indifferent countEffect perl where
  pos x := by
    intro s hs
    refine ⟨⟨u64_nonneg x, u64_lt x, hs.length_nonneg, hs.length_lt⟩, Did.of_trace rfl⟩
  parent _ _ := count_same rfl rfl rfl
  sub sub arg := count_sub perl sub arg
  fault e _ := count_throw e
  order _ _ := count_same rfl rfl rfl
  path _ _ := count_same rfl rfl rfl

theorem count_check (size : ℤ) : countEffect.Holds (checkBuffer size) := by
  intro s
  apply Effect.At.get_bind
  split_ifs
  · have hpos : countEffect.At (setPos s.length) s := by
      intro hs
      have hlt := hs.length_lt
      exact ⟨⟨hs.length_nonneg, by show s.length < _; omega, hs.length_nonneg, hs.length_lt⟩,
        Did.of_trace rfl⟩
    exact hpos.bind fun _ t _ => Effect.holds_pure _ t
  · exact Effect.holds_pure _ s

theorem count_head (perl : Perl) (d : Declarator) (dimension : ℕ) (dimtag : Option DimensionTag) :
    countEffect.Holds (unpackArrayHead perl d dimension dimtag) := by
  intro s
  apply (count_indifferent perl).closed.head (fun _ _ => Did.refl _ s)
  intro size avail n t _ havail hn
  cases hflexible : isFlexible d dimension dimtag with
  | false => exact count_emit fun _ => trivial
  | true =>
    rw [unpackCount_flexible hflexible] at hn
    cases hn
    apply count_emit
    intro ht hsize hsize'
    exact countsRest_iff ht.pos_nonneg ht.pos_lt ht.length_nonneg ht.length_lt hsize hsize' havail

theorem count_unpackFormat (perl : Perl) (format : FormatTag) (size : ℤ) (flexible : Bool) :
    countEffect.Holds (unpackFormat format size flexible) := by
  intro s
  apply (count_indifferent perl).closed.unpackFormat
  · exact fun _ _ _ => Did.refl _ s
  · exact fun _ => count_emit fun _ => trivial

theorem count_unpackClosed (perl : Perl) (cbc : CBC) :
    UnpackClosed countEffect perl cbc fun _ => True where
  toClosed := (count_indifferent perl).closed
  check _ := count_check _
  fetch _ sign _ _ := (count_indifferent perl).closed.fetchInt sign (count_emit fun _ => trivial)
  fetchFloat _ flags _ :=
    (count_indifferent perl).closed.fetchFloatSv flags (count_emit fun _ => trivial)
  enum := (count_indifferent perl).unpackEnum count_check
    (fun _ sign _ _ => (count_indifferent perl).closed.fetchInt sign (count_emit fun _ => trivial))
    fun format size => count_unpackFormat perl format size false
  head d dimension dimtag _ _ _ := count_head perl d dimension dimtag
  format _ _ _ _ _ := (count_indifferent perl).within _ (count_unpackFormat perl _ _ _)
  declaratorFormat d format _ _ := by
    apply (count_indifferent perl).within
    apply ((count_indifferent perl).closed.prepare (count_lift _)).bind
    rintro ⟨size, flexible⟩
    exact count_unpackFormat perl _ _ _

theorem unpackCount_ok {perl : Perl} {d : Declarator} {dimension : ℕ}
    {dimtag : Option DimensionTag} {avail n : ℤ} {s t : PackInfo}
    (h : unpackCount perl d dimension dimtag avail s = .ok n t) :
    ∃ calls, t = { s with calls := calls } := by
  unfold unpackCount at h
  cases dimtag with
  | some tag => exact dimtagEval_ok h
  | none =>
    cases hv : d.dims[dimension]? with
    | some v =>
      rw [hv] at h
      cases h
      exact ⟨s.calls, rfl⟩
    | none =>
      rw [hv] at h
      exact nomatch h

theorem avExtend_ok {perl : Perl} {n : ℤ} {a : Unit} {s t : PackInfo}
    (h : avExtend perl n s = .ok a t) : t = s := by
  unfold avExtend at h
  split_ifs at h
  · exact nomatch h
  · cases h
    rfl

/-- The part before the loop notes the number of elements that the loop is for. -/
theorem unpackArrayHead_ok {perl : Perl} {d : Declarator} {dimension : ℕ}
    {dimtag : Option DimensionTag} {size pos n : ℤ} {s t : PackInfo}
    (h : unpackArrayHead perl d dimension dimtag s = .ok (size, pos, n) t) :
    0 ≤ n ∧ elementStride d dimension = .ok size ∧ pos = s.pos ∧ ∃ calls, t =
      { s with
        calls := calls
        trace := s.trace ++
          [.elements s.path (isFlexible d dimension dimtag) s.pos s.length size n] } := by
  obtain ⟨size', t₁, hlift, h₁⟩ := bind_ok h
  obtain ⟨hsize, rfl⟩ := liftCall_ok hlift
  obtain ⟨st, t₂, hget, h₂⟩ := bind_ok h₁
  cases hget
  obtain ⟨avail, t₃, havail, h₃⟩ := bind_ok h₂
  obtain ⟨_, rfl⟩ := liftCall_ok havail
  obtain ⟨n', t₄, hcount, h₄⟩ := bind_ok h₃
  obtain ⟨calls, rfl⟩ := unpackCount_ok hcount
  obtain ⟨_, t₅, hemit, h₅⟩ := bind_ok h₄
  cases hemit
  obtain ⟨_, t₆, hextend, h₆⟩ := bind_ok h₅
  obtain rfl := avExtend_ok hextend
  cases h₆
  refine ⟨?_, hsize, rfl, calls, rfl⟩
  unfold loopBound
  split_ifs <;> omega

/-- An array that is unpacked has the number of elements that was noted first. -/
theorem unpackArray_elements {perl : Perl} {cbc : CBC} {fuel : ℕ} {pTS : TypeSpec}
    {d : Declarator} {dimension : ℕ} {dimtag : Option DimensionTag} {st st' : PackInfo} {rv : SV}
    (hst : st.Bounded)
    (h : unpackArray perl (unpackType perl cbc fuel) pTS d dimension dimtag st = .ok rv st') :
    ∃ size elems rest, rv = .av elems ∧ elementStride d dimension = .ok size ∧
      st'.trace = st.trace ++ .elements st.path (isFlexible d dimension dimtag) st.pos st.length
        size elems.length :: rest := by
  have htype := (count_unpackClosed perl cbc).recursion (count_throw _) (declarators_true cbc.heap) fuel
  obtain ⟨⟨size, pos, n⟩, t, hhead, h⟩ := bind_ok h
  obtain ⟨elems, u, hloop, h⟩ := bind_ok h
  cases h
  obtain ⟨hn, hsize, rfl, calls, rfl⟩ := unpackArrayHead_ok hhead
  -- the loop only adds to what was done before it
  have hrest : countEffect.Holds ((List.range n.toNat).mapM
      (unpackElement (unpackType perl cbc fuel) pTS d dimension st.pos size)) :=
    (count_unpackClosed perl cbc).parts.elements (htype.1 _ _ _ _ fun _ _ => trivial) st.pos size n.toNat
  obtain ⟨_, rest, htrace, _⟩ := (hrest _).returns hloop (hst.of_eq rfl rfl)
  have hlength : ((elems.map some).length : ℤ) = n := by
    rw [List.length_map, mapM_length hloop, List.length_range, Int.toNat_of_nonneg hn]
  refine ⟨size, elems.map some, rest, rfl, hsize, ?_⟩
  rw [hlength, htrace, List.append_assoc, List.singleton_append]

/-- In every run of unpacking, an array without a fixed number of elements is unpacked
with as many elements as the rest of the data starts, exactly when the position is
not behind the end of the data by a whole element; and the arrays that the run
returns have the numbers of elements that it notes. -/
theorem flexible_count_iff (perl : Perl) (cbc : CBC) (fuel : ℕ) (st : PackInfo)
    (hst : st.Bounded) :
    (∀ pTS pDecl dimension pBI, Did Event.CountRight st
      (finalState (unpackType perl cbc fuel pTS pDecl dimension pBI st))) ∧
    ∀ pTS d dimension dimtag rv st',
      unpackArray perl (unpackType perl cbc fuel) pTS d dimension dimtag st = .ok rv st' →
      ∃ size elems rest, rv = .av elems ∧ elementStride d dimension = .ok size ∧
        st'.trace = st.trace ++ .elements st.path (isFlexible d dimension dimtag) st.pos st.length
          size elems.length :: rest := by
  constructor
  · intro pTS pDecl dimension pBI
    have htype := (count_unpackClosed perl cbc).recursion (count_throw _) (declarators_true cbc.heap) fuel
    have hrun := htype.1 pTS pDecl dimension pBI (fun _ _ => trivial) st
    unfold Effect.At at hrun
    cases hm : unpackType perl cbc fuel pTS pDecl dimension pBI st with
    | ok rv st' =>
      rw [hm] at hrun
      exact (hrun hst).2
    | error e st' =>
      rw [hm] at hrun
      exact hrun hst
  · exact fun pTS d dimension dimtag rv st' h => unpackArray_elements hst h

/-- An object with native sizes on `lp64`. -/
def cbc64 (heap : Heap) : CBC where
  arch := lp64
  pLP := alignment4
  unsigned_bitfields := false
  unsigned_chars := false
  enumType := .integer
  nativeByteorder := .littleEndian
  heap := heap
  htEnumerators _ := none

/-- A declarator as it is recorded. -/
def memberAt (identifier : String) (offset size item_size : ℤ) : Declarator :=
  { declNew identifier with offset := offset, size := size, item_size := item_size }

/-- `int a[]` at an offset. -/
def flexibleInts (offset : ℤ) : Declarator :=
  { memberAt "a" offset 0 4 with ext := .array [⟨0, true, false⟩] }

/-- `struct { int n; int a[]; }` -/
def countedInts : Struct :=
  { structOf "" [declaration (.basic T_INT) [memberAt "n" 0 4 4],
      declaration (.basic T_INT) [flexibleInts 4]] with size := 4 }

theorem pkCreate_empty_bounded : (pkCreate [] 0).Bounded := by
  constructor <;> decide

theorem flexible_count_iff_empty :
    (∀ pTS pDecl dimension pBI, Did Event.CountRight (pkCreate [] 0)
      (finalState (unpackType slotPerl (cbc64 (singleHeap countedInts)) 10 pTS pDecl dimension pBI
        (pkCreate [] 0)))) ∧
    ∀ pTS d dimension dimtag rv st',
      unpackArray slotPerl (unpackType slotPerl (cbc64 (singleHeap countedInts)) 10) pTS d dimension
        dimtag (pkCreate [] 0) = .ok rv st' →
      ∃ size elems rest, rv = .av elems ∧ elementStride d dimension = .ok size ∧
        st'.trace = (pkCreate [] 0).trace ++
          .elements (pkCreate [] 0).path (isFlexible d dimension dimtag) (pkCreate [] 0).pos
            (pkCreate [] 0).length size elems.length :: rest :=
  flexible_count_iff slotPerl (cbc64 (singleHeap countedInts)) 10 (pkCreate [] 0)
    pkCreate_empty_bounded

/-- The empty string ends four bytes before the array, whose count wraps around. -/
theorem flexible_count_wraps :
    ∃ path, Event.elements path true 4 0 4 4611686018427387903 ∈
        (finalState (pkUnpack slotPerl (cbc64 (singleHeap countedInts)) 10 (.compound .struct 0)
          none 0 (pkCreate [] 0))).trace ∧
      ¬ CountsRest 4 0 4 4611686018427387903 := by
  refine ⟨[.declarator (flexibleInts 4), .compound countedInts], by decide +kernel, ?_⟩
  intro hcount
  have hzero := (countsRest_behind (by decide)).mp hcount
  exact absurd hzero (by decide)

end ConvertBinaryC
