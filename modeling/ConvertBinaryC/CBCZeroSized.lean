import ConvertBinaryC.CBCDimensionTag
import ConvertBinaryC.CBCMemberRules
import ConvertBinaryC.CTLibTypeInfo

/-! Arrays and elements of size zero: where the strides and the numbers of elements are
computed with a division by zero. -/
namespace ConvertBinaryC
open StateRules

/-- The sizes of an array as the layout records them. -/
def Declarator.LaidOut (d : Declarator) : Prop :=
  d.isArray = true → d.item_size = i32 d.item_size ∧
    ∃ size, arraySize d.item_size d.dims = .ok size ∧ d.size = i32 size

theorem Declarator.isArray_of_dims {d : Declarator} {k : ℕ} (hk : k < d.dims.length) :
    d.isArray = true := by
  unfold dims at hk
  unfold isArray
  cases hext : d.ext with
  | array dims => rfl
  | _ =>
    rw [hext] at hk
    exact absurd hk (Nat.not_lt_zero k)

/-- The product of the dimensions behind `k`. -/
def Declarator.inner (d : Declarator) (k : ℕ) : ℤ := ((d.dims.drop (k + 1)).map Value.iv).prod

/-- The size of the elements at a dimension vanishes as an int. -/
structure ZeroStride (d : Declarator) (k : ℕ) : Prop where
  fits : ProductsFit d.item_size (d.dims.drop (k + 1)).reverse
  zero : 4294967296 ∣ d.item_size * d.inner k

theorem elementStride_ok_iff {d : Declarator} {k : ℕ} {size : ℤ}
    (hitem : d.item_size = i32 d.item_size) :
    elementStride d k = .ok size ↔ ProductsFit d.item_size (d.dims.drop (k + 1)).reverse ∧
      size = i32 (d.item_size * d.inner k) := by
  unfold elementStride Declarator.inner
  rw [timesDims_ok_iff, product_int hitem, List.map_reverse, List.prod_reverse]

theorem elementStride_zero_iff {d : Declarator} {k : ℕ} (hitem : d.item_size = i32 d.item_size) :
    elementStride d k = .ok 0 ↔ ZeroStride d k := by
  rw [elementStride_ok_iff hitem]
  constructor
  · exact fun h => ⟨h.1, i32_eq_zero.mp h.2.symm⟩
  · exact fun h => ⟨h.fits, (i32_eq_zero.mpr h.zero).symm⟩

/-- The size that a flexible format counts in vanishes. -/
def ZeroUnit (d : Declarator) : Prop :=
  if d.size = 0 then ZeroStride d 0 else ∃ v ∈ d.dims.head?, d.size.natAbs < v.iv.natAbs

theorem i32_natAbs (x : ℤ) : (i32 x).natAbs ≤ 2147483648 := by
  have hrange := i32_isInt x
  unfold IsInt at hrange
  omega

theorem i32_tdiv_eq_zero {x y : ℤ} (hx : x = i32 x) (hy : y ≠ 0) :
    i32 (x.tdiv y) = 0 ↔ x.natAbs < y.natAbs := by
  have hle : (x.tdiv y).natAbs ≤ 2147483648 := by
    calc (x.tdiv y).natAbs ≤ x.natAbs := Int.natAbs_tdiv_le_natAbs x y
      _ = (i32 x).natAbs := by rw [← hx]
      _ ≤ 2147483648 := i32_natAbs x
  have hsmall : i32 (x.tdiv y) = 0 ↔ x.tdiv y = 0 := by
    rw [i32_eq_zero]
    omega
  rw [hsmall, ← Int.natAbs_eq_zero, Int.natAbs_tdiv]
  exact Nat.div_eq_zero_iff.trans (or_iff_right (Int.natAbs_ne_zero.mpr hy))

section LaidOut
variable {d : Declarator} (hd : d.LaidOut)
include hd

/-- An array with a dimension that vanishes as an int has the size 0. -/
theorem size_of_zero {v : Value} (hv : v ∈ d.dims) (hzero : 4294967296 ∣ v.iv) : d.size = 0 := by
  obtain ⟨k, hk, _⟩ := List.mem_iff_getElem.mp hv
  obtain ⟨-, size, hsize, hd⟩ := hd (Declarator.isArray_of_dims hk)
  rw [hd, (arraySize_ok_iff.mp hsize).2, i32_congr (unsignedProduct_modEq _ _), i32_eq_zero]
  apply Dvd.dvd.mul_left
  exact hzero.trans (List.dvd_prod (List.mem_map_of_mem hv))

/-- The size is only divided by a dimension when it is not 0, so neither is the dimension. -/
theorem plain_formatUnit (dimtag : Option DimensionTag) : Plain (formatUnit d dimtag) := by
  unfold formatUnit
  split_ifs with htag hsize
  · exact plain_timesDims _ _
  · split
    · exact plain_ub
    · rename_i dim dims hdims
      split_ifs with hdim
      · have hmem : dim ∈ d.dims := by
          rw [hdims]
          exact List.mem_cons_self
        refine absurd (size_of_zero hd hmem ?_) hsize
        rw [hdim]
        exact dvd_zero _
      · exact plain_ok _
  · exact plain_ok _

theorem formatUnit_zero_iff {dimtag : Option DimensionTag}
    (hflexible : formatFlexible d dimtag = true) : formatUnit d dimtag = .ok 0 ↔ ZeroUnit d := by
  obtain ⟨harray, hflexible⟩ := Bool.and_eq_true_iff.mp hflexible
  have hcond : dimtag.isSome = true ∨ d.size = 0 := by
    cases dimtag with
    | none => exact .inr (of_decide_eq_true hflexible)
    | some tag => exact .inl rfl
  obtain ⟨hitem, product, -, hsize⟩ := hd harray
  unfold formatUnit ZeroUnit
  rw [if_pos hcond]
  split_ifs with hzero
  · exact elementStride_zero_iff (k := 0) hitem
  · cases hdims : d.dims with
    | nil => exact ⟨fun h => (nomatch h), fun ⟨v, hv, _⟩ => (nomatch hv)⟩
    | cons dim dims =>
      have hdim : dim.iv ≠ 0 := by
        intro hdim
        have hmem : dim ∈ d.dims := by
          rw [hdims]
          exact List.mem_cons_self
        refine hzero (size_of_zero hd hmem ?_)
        rw [hdim]
        exact dvd_zero _
      have hrange : d.size = i32 d.size := by rw [hsize, i32_idem]
      have hquot := i32_tdiv_eq_zero hrange hdim
      dsimp only
      rw [if_neg hdim]
      constructor
      · exact fun h => ⟨dim, rfl, hquot.mp (Except.ok.inj h)⟩
      · rintro ⟨v, hv, hlt⟩
        obtain rfl := Option.mem_some.mp hv
        rw [hquot.mpr hlt]

end LaidOut

/-- Packing and unpacking do not divide by zero for such a declarator. A Format tag is looked
at instead of the first dimension. -/
structure Divisible (d : Declarator) : Prop where
  strides : ∀ k < d.dims.length, (k = 0 → d.tags.format = none) → ¬ ZeroStride d k
  unit : d.tags.format ≠ none → formatFlexible d d.tags.dimension = true → ¬ ZeroUnit d

/-- No run ends in a division by zero. -/
def undividedEffect : Effect Fault PackInfo where
  returns _ _ := True
  fails _ e _ := e ≠ .divideByZero
  refl _ := trivial
  trans _ _ := trivial
  absorb _ h := h

theorem undivided_indifferent (perl : Perl) : Indifferent undividedEffect perl where
  pos _ _ := trivial
  parent _ _ := trivial
  sub sub arg := by
    intro s
    apply Effect.At.get_bind
    have hset : undividedEffect.At (set { s with calls := s.calls + 1 } : Pk PUnit) s := trivial
    apply hset.bind
    intro _ t _
    split
    · exact Effect.holds_pure _ t
    · exact fun h => nomatch h
  fault _ he _ := he.1
  order _ _ := trivial
  path _ _ := trivial

theorem prepare_flexible {perl : Perl} {d : Declarator} {dimtag : Option DimensionTag} {size : ℤ}
    {s t : PackInfo} (h : preparePackFormat perl d dimtag s = .ok (size, true) t) :
    formatFlexible d dimtag = true ∧ formatUnit d dimtag = .ok size := by
  obtain ⟨one, s₁, hunit, h₁⟩ := bind_ok h
  obtain ⟨hone, rfl⟩ := liftCall_ok hunit
  cases hflexible : formatFlexible d dimtag with
  | true =>
    rw [hflexible, if_pos rfl] at h₁
    cases h₁
    exact ⟨rfl, hone⟩
  | false =>
    rw [hflexible, if_neg Bool.false_ne_true] at h₁
    cases dimtag with
    | none => exact nomatch h₁
    | some tag =>
      obtain ⟨dim, s₂, _, h₂⟩ := bind_ok h₁
      obtain ⟨product, s₃, _, h₃⟩ := bind_ok h₂
      exact nomatch h₃

theorem formatUnit_int {d : Declarator} {dimtag : Option DimensionTag} {one : ℤ}
    (hitem : d.item_size = i32 d.item_size) (hone : formatUnit d dimtag = .ok one) :
    one = i32 one := by
  unfold formatUnit at hone
  split_ifs at hone
  · obtain ⟨_, rfl⟩ := timesDims_ok_iff.mp hone
    rw [product_int hitem, i32_idem]
  · split at hone
    · exact nomatch hone
    · split_ifs at hone
      rw [← Except.ok.inj hone, i32_idem]
  · rw [← Except.ok.inj hone]
    rfl

/-- The unit is an int, so it does not vanish as an `unsigned` either. -/
theorem unit_ne_zero {d : Declarator} {dimtag : Option DimensionTag} {one : ℤ} (hd : d.LaidOut)
    (hflexible : formatFlexible d dimtag = true) (hone : formatUnit d dimtag = .ok one)
    (hunit : ¬ ZeroUnit d) : u32 one ≠ 0 := by
  intro hzero
  have hitem := (hd (Bool.and_eq_true_iff.mp hflexible).1).1
  have hi32 : i32 one = 0 := i32_eq_zero.mpr (Int.dvd_of_emod_eq_zero hzero)
  rw [← formatUnit_int hitem hone] at hi32
  rw [hi32] at hone
  exact hunit ((formatUnit_zero_iff hd hflexible).mp hone)

section Sound
variable {d : Declarator} (hd : d.LaidOut ∧ Divisible d)
include hd

theorem undivided_packFormat (perl : Perl) {format : FormatTag} (hformat : d.tags.format = some format)
    (sv : SV) : undividedEffect.Holds (packDeclaratorFormat perl d format sv) := by
  have hE := (undivided_indifferent perl).closed
  apply (undivided_indifferent perl).within
  intro s
  apply (hE.prepare (hE.lift (plain_formatUnit hd.1 _)) s).bind
  rintro ⟨size, flexible⟩ t hprepare
  apply hE.packFormat (fun _ _ _ _ => trivial)
  · rintro rfl hzero
    obtain ⟨hflexible, hone⟩ := prepare_flexible hprepare
    have hne : d.tags.format ≠ none := by
      rw [hformat]
      exact fun h => nomatch h
    exact absurd hzero (unit_ne_zero hd.1 hflexible hone (hd.2.unit hne hflexible))
  · exact fun _ _ => trivial
  · exact fun _ _ => trivial

theorem undivided_unpackFormat (perl : Perl) {format : FormatTag}
    (hformat : d.tags.format = some format) :
    undividedEffect.Holds (unpackDeclaratorFormat perl d format) := by
  have hE := (undivided_indifferent perl).closed
  apply (undivided_indifferent perl).within
  intro s
  apply (hE.prepare (hE.lift (plain_formatUnit hd.1 _)) s).bind
  rintro ⟨size, flexible⟩ t hprepare
  apply hE.unpackFormat
  · rintro rfl hzero
    obtain ⟨hflexible, hone⟩ := prepare_flexible hprepare
    have hne : d.tags.format ≠ none := by
      rw [hformat]
      exact fun h => nomatch h
    exact absurd hzero (unit_ne_zero hd.1 hflexible hone (hd.2.unit hne hflexible))
  · exact fun _ => trivial

theorem undivided_head (perl : Perl) {dimension : ℕ} (dimtag : Option DimensionTag)
    (hformat : dimension = 0 → d.tags.format = none) (hdim : dimension < d.dims.length) :
    undividedEffect.Holds (unpackArrayHead perl d dimension dimtag) := by
  intro s
  apply (undivided_indifferent perl).closed.head
  · intro hzero
    have hitem := (hd.1 (Declarator.isArray_of_dims hdim)).1
    exact absurd ((elementStride_zero_iff hitem).mp hzero) (hd.2.strides dimension hdim hformat)
  · exact fun _ _ _ _ _ _ _ => trivial

end Sound

theorem undivided_packClosed (perl : Perl) (cbc : CBC) :
    PackClosed undividedEffect perl cbc fun d => d.LaidOut ∧ Divisible d where
  toClosed := (undivided_indifferent perl).closed
  grow _ _ := (undivided_indifferent perl).closed.grow (fun _ _ _ _ => trivial) trivial
  store _ _ iv _ := (undivided_indifferent perl).closed.storeInt (fun _ _ _ _ => trivial) iv trivial
  storeFloat _ flags v _ :=
    (undivided_indifferent perl).closed.storeFloatSv (fun _ _ _ _ => trivial) flags v trivial
  elements _ _ _ _ _ _ _ := trivial
  format _ _ _ _ sv _ := by
    apply (undivided_indifferent perl).within
    apply (undivided_indifferent perl).closed.packFormat (fun _ _ _ _ => trivial)
    · exact fun h => nomatch h
    · exact fun _ _ => trivial
    · exact fun _ _ => trivial
  declaratorFormat d format sv hd hformat := undivided_packFormat hd perl hformat sv

theorem undivided_check (size : ℤ) : undividedEffect.Holds (checkBuffer size) := by
  intro s
  obtain ⟨short, pos, hcheck⟩ := checkBuffer_eq size s
  unfold Effect.At
  rw [hcheck]
  trivial

theorem undivided_unpackClosed (perl : Perl) (cbc : CBC) :
    UnpackClosed undividedEffect perl cbc fun d => d.LaidOut ∧ Divisible d where
  toClosed := (undivided_indifferent perl).closed
  check := undivided_check
  fetch _ sign _ _ := (undivided_indifferent perl).closed.fetchInt sign trivial
  fetchFloat _ flags _ := (undivided_indifferent perl).closed.fetchFloatSv flags trivial
  enum := by
    apply (undivided_indifferent perl).unpackEnum undivided_check
    · exact fun _ sign _ _ => (undivided_indifferent perl).closed.fetchInt sign trivial
    · exact fun format size s => (undivided_indifferent perl).closed.unpackFormat format
        (fun h => nomatch h) fun _ => trivial
  head d dimension dimtag hd hformat hdim := undivided_head hd perl dimtag hformat hdim
  format _ _ format size _ := (undivided_indifferent perl).within _ fun s =>
    (undivided_indifferent perl).closed.unpackFormat format (fun h => nomatch h) fun _ => trivial
  declaratorFormat d format hd hformat := undivided_unpackFormat hd perl hformat

/-- No run from any handle ends in a division by zero. -/
def NeverDivides {α : Type} (m : Pk α) : Prop := ∀ st st', m st ≠ .error .divideByZero st'

theorem neverDivides_of_holds {α : Type} {m : Pk α} (h : undividedEffect.Holds m) :
    NeverDivides m :=
  fun st _ hm => (h st).fails hm rfl

/-- Packing and unpacking never divide by zero, for declarators of the heap. -/
def PackSafe (cbc : CBC) : Prop :=
  ∀ perl fuel pTS pDecl dimension pBI, (∀ d ∈ pDecl, cbc.heap.HasDeclarator d) →
    NeverDivides (unpackType perl cbc fuel pTS pDecl dimension pBI) ∧
      ∀ sv, NeverDivides (packType perl cbc fuel pTS pDecl dimension pBI sv)

theorem unpackArray_zero {perl : Perl} {unpackType : UnpackTypeFn} {pTS : TypeSpec} {d : Declarator}
    {k : ℕ} {dimtag : Option DimensionTag} {st : PackInfo} (hzero : elementStride d k = .ok 0) :
    unpackArray perl unpackType pTS d k dimtag st = .error .divideByZero st := by
  have hstride : (liftCall (elementStride d k) : Pk ℤ) st = .ok 0 st := by
    rw [hzero]
    rfl
  unfold unpackArray unpackArrayHead
  rw [bind_assoc, bind_of_ok hstride]
  rfl

/-- Unpacking such an array divides by zero at once. -/
theorem unpackType_zero (cbc : CBC) {d : Declarator} {k : ℕ} (hk : k < d.dims.length)
    (hformat : k = 0 → d.tags.format = none) (hzero : elementStride d k = .ok 0) :
    ∃ st st', unpackType slotPerl cbc 1 (.basic T_INT) (some d) k none st =
      .error .divideByZero st' := by
  refine ⟨pkCreate [] 0, ?_⟩
  rw [unpackType]
  cases k with
  | zero =>
    rw [unpackTypeStep_plain (hformat rfl), unpackUntagged_array hk]
    exact ⟨_, bind_of_error (inScope_error (unpackArray_zero hzero))⟩
  | succ k =>
    have hlevel (step : Pk SV) (hstep : unpackUntagged slotPerl cbc (unpackType slotPerl cbc 0)
        (unpackStruct slotPerl cbc 0) (.basic T_INT) (some d) (k + 1) none none = step) :
        unpackTypeStep slotPerl cbc (unpackType slotPerl cbc 0) (unpackStruct slotPerl cbc 0)
          (.basic T_INT) (some d) (k + 1) none = keepByteOrder step := congrArg keepByteOrder hstep
    rw [hlevel _ (unpackUntagged_array hk)]
    exact ⟨_, keepByteOrder_error (unpackArray_zero hzero)⟩

theorem unpackType_zero_unit (cbc : CBC) {d : Declarator} (hd : d.LaidOut)
    (hformat : d.tags.format ≠ none) (hflexible : formatFlexible d d.tags.dimension = true)
    (hunit : ZeroUnit d) :
    ∃ st st', unpackType slotPerl cbc 1 (.basic T_INT) (some d) 0 none st =
      .error .divideByZero st' := by
  have hone := (formatUnit_zero_iff hd hflexible).mpr hunit
  obtain ⟨format, hf⟩ := Option.ne_none_iff_exists'.mp hformat
  refine ⟨pkCreate [] 0, ?_⟩
  rw [unpackType, unpackTypeStep_format hf]
  refine ⟨(pkCreate [] 0).enter (.declarator d), bind_of_error (within_error ?_)⟩
  unfold preparePackFormat
  rw [hone, hflexible]
  rfl

theorem packSafe_iff {cbc : CBC} (hheap : ∀ d, cbc.heap.HasDeclarator d → d.LaidOut) :
    PackSafe cbc ↔ ∀ d, cbc.heap.HasDeclarator d → Divisible d := by
  constructor
  · intro hsafe d hd
    have hnever (k : ℕ) : NeverDivides (unpackType slotPerl cbc 1 (.basic T_INT) (some d) k none) := by
      refine (hsafe slotPerl 1 (.basic T_INT) (some d) k none ?_).1
      rintro d' ⟨⟩
      exact hd
    constructor
    · intro k hk hformat hzero
      have hitem := (hheap d hd (Declarator.isArray_of_dims hk)).1
      obtain ⟨st, st', hrun⟩ :=
        unpackType_zero cbc hk hformat ((elementStride_zero_iff hitem).mpr hzero)
      exact hnever k st st' hrun
    · intro hformat hflexible hunit
      obtain ⟨st, st', hrun⟩ := unpackType_zero_unit cbc (hheap d hd) hformat hflexible hunit
      exact hnever 0 st st' hrun
  · intro hdivisible perl fuel pTS pDecl dimension pBI hdecl
    have hall : cbc.heap.Declarators fun d => d.LaidOut ∧ Divisible d :=
      Heap.declarators_of fun d hd => ⟨hheap d hd, hdivisible d hd⟩
    have hpDecl : ∀ d ∈ pDecl, d.LaidOut ∧ Divisible d :=
      fun d hd => ⟨hheap d (hdecl d hd), hdivisible d (hdecl d hd)⟩
    constructor
    · apply neverDivides_of_holds
      exact ((undivided_unpackClosed perl cbc).recursion (fun _ h => by cases h) hall fuel).1 _ _ _ _ hpDecl
    · intro sv
      apply neverDivides_of_holds
      exact ((undivided_packClosed perl cbc).recursion (fun _ h => by cases h) hall fuel).1 _ _ _ _ _ hpDecl

/-- `get_member` never divides by zero, for declarators of the heap. -/
def MemberSafe (heap : Heap) : Prop :=
  ∀ fuel flags pMI member, (∀ d ∈ pMI.pDecl, heap.HasDeclarator d) →
    getMember heap fuel flags pMI member ≠ .error .divideByZero

/-- Dividing 0 by dimensions, up to the first one that is 0. -/
theorem divide_zero_by (dims : List Value) :
    dims.foldlM (fun size pValue => divideInt size pValue.iv) 0 =
      if ∃ v ∈ dims, v.iv = 0 then .error .divideByZero else .ok 0 := by
  induction dims with
  | nil => rfl
  | cons v dims ih =>
    rw [List.foldlM_cons]
    by_cases hv : v.iv = 0
    · rw [if_pos ⟨v, List.mem_cons_self, hv⟩, divideInt, if_pos hv]
      rfl
    · have hquot : divideInt 0 v.iv = .ok 0 := by
        rw [divideInt, if_neg hv, Int.zero_tdiv]
        rfl
      rw [hquot]
      refine ih.trans (if_congr ?_ rfl rfl)
      constructor
      · rintro ⟨w, hw, hzero⟩
        exact ⟨w, List.mem_cons_of_mem v hw, hzero⟩
      · rintro ⟨w, hw, hzero⟩
        rcases List.mem_cons.mp hw with rfl | hw
        · exact absurd hzero hv
        · exact ⟨w, hw, hzero⟩

theorem levelSize_zero {d : Declarator} (hsize : d.size = 0) {level : ℕ} (hlevel : level ≤ d.dims.length) :
    levelSize d level =
      if ∃ v ∈ d.dims.take level, v.iv = 0 then .error .divideByZero else .ok 0 := by
  unfold levelSize
  by_cases hzero : level = 0
  · have hnone : ¬ ∃ v ∈ d.dims.take level, v.iv = 0 := by
      rw [hzero, List.take_zero]
      rintro ⟨v, hv, _⟩
      exact absurd hv List.not_mem_nil
    rw [if_pos hzero, if_neg hnone, hsize]
  · rw [if_neg hzero, hsize, if_neg (by decide), if_neg (not_lt.mpr hlevel), divide_zero_by]

/-- The declarator at a level of its dimensions. -/
def MemberInfo.ofDeclarator (d : Declarator) (level : ℕ) : MemberInfo :=
  ⟨.basic T_INT, none, some d, level, 0, 0⟩

theorem gmStart_of {heap : Heap} {d : Declarator} {level : ℕ} {size : ℤ}
    (h : levelSize d level = .ok size) :
    gmStart heap .none (.ofDeclarator d level) = .ok ⟨.basic T_INT, some d, none, none, level, 0, size⟩ := by
  show (levelSize d level >>= fun size => _) = _
  rw [h]
  rfl

theorem getMember_start {heap : Heap} {d : Declarator} {level : ℕ} (member : String)
    (h : levelSize d level = .error .divideByZero) :
    getMember heap 1 .none (.ofDeclarator d level) member = .error .divideByZero := by
  have hstart : gmStart heap .none (.ofDeclarator d level) = .error .divideByZero := by
    show (levelSize d level >>= fun size => _) = _
    rw [h]
    rfl
  unfold getMember
  rw [hstart]
  rfl

/-- The first dimension, or an index, divides the size 0 by zero. -/
theorem getMember_divides (heap : Heap) {d : Declarator} (hd : d.LaidOut) (hbad : ¬ Indexable d) :
    ∃ level member, getMember heap 1 .none (.ofDeclarator d level) member =
      .error .divideByZero := by
  by_cases hzero : ∃ v ∈ d.dims, v.iv = 0
  · have hsize : d.size = 0 := by
      obtain ⟨v, hv, hiv⟩ := hzero
      apply size_of_zero hd hv
      rw [hiv]
      exact dvd_zero _
    refine ⟨d.dims.length, "", getMember_start "" ?_⟩
    rw [levelSize_zero hsize le_rfl, List.take_length, if_pos hzero]
  · have hindex : ∃ v ∈ d.dims, v.undef = false ∧ (4294967296 : ℤ) ∣ v.iv := by
      by_contra hnone
      apply hbad
      intro v hv
      exact ⟨fun hiv => hzero ⟨v, hv, hiv⟩, fun hundef hdvd => hnone ⟨v, hv, hundef, hdvd⟩⟩
    obtain ⟨v, hv, hundef, hdvd⟩ := hindex
    have hsize := size_of_zero hd hv hdvd
    obtain ⟨k, hk, hkv⟩ := List.mem_iff_getElem.mp hv
    have hlevel : levelSize d k = .ok 0 := by
      rw [levelSize_zero hsize hk.le, if_neg]
      rintro ⟨w, hw, hiv⟩
      exact hzero ⟨w, List.mem_of_mem_take hw, hiv⟩
    refine ⟨k, "[0]", ?_⟩
    have hwalk : memberExpr "[0]".toList = [.arrayIndex 0, .finished] := by decide +kernel
    have harray := Declarator.isArray_of_dims hk
    have hdim : d.dims[k]? = some v := by rw [List.getElem?_eq_getElem hk, hkv]
    have hsize : gmElementSize .none d v k 0 0 = .error .divideByZero := by
      unfold gmElementSize
      rw [if_neg (ne_true_of_eq_false hundef)]
      dsimp only
      rw [i32_eq_zero.mpr hdvd]
      rfl
    have hstep : gmIndex .none ⟨.basic T_INT, some d, none, none, k, 0, 0⟩ 0 =
        .error .divideByZero := by
      unfold gmIndex
      dsimp only
      rw [if_neg (fun h => absurd harray (ne_true_of_eq_false h.2)), hdim]
      dsimp only
      rw [hsize]
      rfl
    have hfound : (gmStart heap .none (.ofDeclarator d k) >>= fun st => gmWalk heap 1 .none
        GmFlags.none.accept_dotless_member st (memberExpr "[0]".toList)) = .error .divideByZero := by
      rw [gmStart_of hlevel, hwalk]
      show (gmIndex .none ⟨.basic T_INT, some d, none, none, k, 0, 0⟩ 0 >>= _) = _
      rw [hstep]
      rfl
    unfold getMember
    rw [hfound]

theorem memberSafe_iff {heap : Heap} (hheap : ∀ d, heap.HasDeclarator d → d.LaidOut) :
    MemberSafe heap ↔ ∀ d, heap.HasDeclarator d → Indexable d := by
  constructor
  · intro hsafe d hd
    by_contra hbad
    obtain ⟨level, member, hdivide⟩ := getMember_divides heap (hheap d hd) hbad
    refine hsafe 1 .none (.ofDeclarator d level) member ?_ hdivide
    rintro d' ⟨⟩
    exact hd
  · intro hindexable fuel flags pMI member hpMI
    apply Undivided.ne
    apply undivided_getMember (Heap.declarators_of hindexable)
    exact fun d hd => hindexable d (hpMI d hd)

/-- An array of the heap that is packed from a value with so many elements, and one that is
unpacked, both up to the loop over the elements. A Format tag is looked at instead of the
first dimension. -/
structure ArrayRuns (cbc : CBC) where
  perl : Perl
  d : Declarator
  k : ℕ
  elements : ℕ
  st : PackInfo
  u : PackInfo
  size : ℤ
  packed : ℤ
  unpacked : ℤ
  pos : ℤ
  st' : PackInfo
  u' : PackInfo
  declared : cbc.heap.HasDeclarator d
  dimension : k < d.dims.length
  untagged : k = 0 → d.tags.format = none
  stride : elementStride d k = .ok size
  packs : packCount perl d k (d.tagAt k) size elements st = .ok packed st'
  unpacks : unpackArrayHead perl d k (d.tagAt k) u = .ok (size, pos, unpacked) u'

/-- The rest of the data is so many elements, the last one perhaps cut off. The lengths and
the size are unsigned, and a number that is negative as a long counts as none. -/
def RestCounts (pos length size : ℤ) (n : ℕ) : Prop :=
  let total := u64 (length - pos + (size - 1))
  if 9223372036854775808 * u64 size ≤ total then n = 0
  else n * u64 size ≤ total ∧ total < (n + 1) * u64 size

instance (pos length size : ℤ) (n : ℕ) : Decidable (RestCounts pos length size n) :=
  inferInstanceAs (Decidable (ite _ _ _))

/-- `struct { int a; char b; char d[1]; }` with Dimension '*': one element of `d` is packed,
and with the padding there are three. -/
example : ¬ RestCounts 5 8 1 1 ∧ RestCounts 5 8 1 3 := by decide

/-- The number of elements that a tag gives for a hash, after so many calls of subroutines. -/
def tagNumber (perl : Perl) (parent : Option Hash) (calls : ℕ) (tag : DimensionTag) : Option ℕ :=
  match tag with
  | .none | .flexible => none
  | .fixed dim => some (i64 dim).toNat
  | .member expr =>
    match parent with
    | none => some 0
    | some parent =>
      (dimensionWalk perl parent none (memberExpr expr.toList)).toOption.map fun dim => dim.1.toNat
  | .hook sub => (perl.call calls sub (parent.map .hv)).toOption.map fun sv =>
      (svToDimension perl sv).1.toNat

/-- The rest of the data is as many elements as the value has, where the number is left to
the data; and a tag gives the same number for both hashes. -/
structure ArrayRuns.SameNumber {cbc : CBC} (runs : ArrayRuns cbc) : Prop where
  rest : isFlexible runs.d runs.k (runs.d.tagAt runs.k) = true →
    RestCounts runs.u.pos runs.u.length runs.size runs.elements
  tag : ∀ tag ∈ runs.d.tagAt runs.k,
    tagNumber runs.perl runs.u.parent runs.u.calls tag =
      tagNumber runs.perl runs.st.parent runs.st.calls tag

theorem toNat_loopBound (s : ℤ) : (loopBound s).toNat = s.toNat := by
  unfold loopBound
  split_ifs with hs
  · rw [Int.toNat_of_nonpos hs.le]
    rfl
  · rfl

/-- The quotient of the rest and the size, as a number of elements. -/
theorem restCounts_avail_iff {pos length size avail : ℤ} {n : ℕ}
    (hsize : -2147483648 ≤ size) (hsize' : size < 2147483648)
    (havail : availElements length pos size = .ok avail) :
    RestCounts pos length size n ↔ avail.toNat = n := by
  unfold availElements at havail
  split_ifs at havail with hzero
  obtain rfl := Except.ok.inj havail
  rw [u64_u64_add]
  have hunit : 0 < u64 size := by
    unfold u64
    omega
  have hnonneg := u64_nonneg (length - pos + (size - 1))
  have hlt := u64_lt (length - pos + (size - 1))
  unfold RestCounts
  dsimp only
  generalize u64 (length - pos + (size - 1)) = total at hnonneg hlt ⊢
  generalize u64 size = unit at hunit ⊢
  have hquot : 0 ≤ total / unit := Int.ediv_nonneg hnonneg hunit.le
  have hquot' : total / unit < 18446744073709551616 := by
    calc total / unit ≤ total := Int.ediv_le_self unit hnonneg
      _ < 18446744073709551616 := hlt
  split_ifs with hlarge
  · have hlarge' : 9223372036854775808 ≤ total / unit := (Int.le_ediv_iff_mul_le hunit).mpr hlarge
    have hneg : i64 (total / unit) = total / unit - 18446744073709551616 := by
      unfold i64
      rw [Int.bmod_def]
      split_ifs <;> omega
    rw [hneg, Int.toNat_of_nonpos (by omega)]
    exact eq_comm
  · have hsmall : total / unit < 9223372036854775808 :=
      (Int.ediv_lt_iff_lt_mul hunit).mpr (not_le.mp hlarge)
    rw [i64_of_isLong ⟨by omega, hsmall⟩]
    have heq : (total / unit).toNat = n ↔ total / unit = n := by omega
    rw [heq, Int.ediv_eq_iff_of_pos hunit]
    constructor
    · exact fun h => ⟨h.1, by linarith [h.2]⟩
    · exact fun h => ⟨h.1, by linarith [h.2]⟩

theorem callSub_value {perl : Perl} {sub : ℕ} {arg : Option SV} {sv : SV} {st st' : PackInfo}
    (h : callSub perl sub arg st = .ok sv st') : perl.call st.calls sub arg = .ok sv := by
  cases hcall : perl.call st.calls sub arg with
  | ok sv' =>
    rw [callSub_of_ok hcall] at h
    cases h
    rfl
  | error msg =>
    rw [callSub_of_error hcall] at h
    cases h

/-- The number that a tag gives is that of the hash and the calls before. -/
theorem dimtagEval_number {perl : Perl} {tag : DimensionTag} (htag : tag ≠ .flexible) {avail v : ℤ}
    {st st' : PackInfo} (h : dimtagEval perl tag avail st = .ok v st') :
    tagNumber perl st.parent st.calls tag = some v.toNat := by
  cases tag with
  | none => exact nomatch h
  | flexible => exact absurd rfl htag
  | fixed dim =>
    cases h
    rfl
  | member expr =>
    obtain ⟨dim, t₁, hdim, h⟩ := bind_ok h
    cases h
    obtain ⟨st₁, t₂, hget, hdim⟩ := bind_ok hdim
    cases hget
    unfold tagNumber
    cases hparent : st.parent with
    | none =>
      rw [hparent] at hdim
      cases hdim
      rfl
    | some parent =>
      rw [hparent] at hdim
      dsimp only
      rw [(liftCall_ok hdim).1]
      rfl
  | hook sub =>
    obtain ⟨dim, t₁, hdim, h⟩ := bind_ok h
    cases h
    obtain ⟨st₁, t₂, hget, hdim⟩ := bind_ok hdim
    cases hget
    obtain ⟨sv, t₃, hsub, hdim⟩ := bind_ok hdim
    cases hdim
    unfold tagNumber
    dsimp only
    rw [callSub_value hsub]
    rfl

/-- The number of elements that is given by a dimension or by a tag. -/
def givenNumber (perl : Perl) (d : Declarator) (k : ℕ) (dimtag : Option DimensionTag)
    (parent : Option Hash) (calls : ℕ) : Option ℕ :=
  match dimtag with
  | some tag => tagNumber perl parent calls tag
  | none => d.dims[k]?.map fun v => v.iv.toNat

section Given
variable {perl : Perl} {d : Declarator} {k : ℕ} {dimtag : Option DimensionTag}
  (hflexible : isFlexible d k dimtag = false)
include hflexible

theorem unpackCount_given {avail s : ℤ} {u u' : PackInfo}
    (h : unpackCount perl d k dimtag avail u = .ok s u') :
    givenNumber perl d k dimtag u.parent u.calls = some s.toNat := by
  unfold unpackCount at h
  cases dimtag with
  | some tag => exact dimtagEval_number (of_decide_eq_false hflexible) h
  | none =>
    unfold givenNumber
    unfold isFlexible at hflexible
    cases hv : d.dims[k]? with
    | none =>
      rw [hv] at h
      exact nomatch h
    | some v =>
      rw [hv] at h hflexible
      dsimp only at h hflexible
      rw [hflexible, if_neg Bool.false_ne_true] at h
      cases h
      rfl

theorem packCount_given {size avail s : ℤ} {st st' : PackInfo}
    (h : packCount perl d k dimtag size avail st = .ok s st') :
    givenNumber perl d k dimtag st.parent st.calls = some s.toNat := by
  unfold packCount at h
  cases dimtag with
  | some tag =>
    obtain ⟨v, st₁, hv, h⟩ := bind_ok h
    obtain ⟨grown, st₂, _, h⟩ := bind_ok h
    obtain ⟨_, st₃, _, h⟩ := bind_ok h
    cases h
    exact dimtagEval_number (of_decide_eq_false hflexible) hv
  | none =>
    unfold givenNumber
    unfold isFlexible at hflexible
    cases hv : d.dims[k]? with
    | none =>
      rw [hv] at h
      exact nomatch h
    | some v =>
      rw [hv] at h hflexible
      dsimp only at h hflexible
      rw [hflexible, if_neg Bool.false_ne_true] at h
      cases h
      rfl

end Given

theorem packCount_rest {perl : Perl} {d : Declarator} {k : ℕ} {dimtag : Option DimensionTag}
    (hflexible : isFlexible d k dimtag = true) {size avail s : ℤ} {st st' : PackInfo}
    (h : packCount perl d k dimtag size avail st = .ok s st') : s = avail := by
  rw [packCount_flexible hflexible] at h
  obtain ⟨grown, st₁, _, h⟩ := bind_ok h
  obtain ⟨_, st₂, _, h⟩ := bind_ok h
  cases h
  rfl

/-- The numbers of elements of the two loops. -/
theorem unpackArrayHead_count {perl : Perl} {d : Declarator} {k : ℕ} {dimtag : Option DimensionTag}
    {size size' pos s : ℤ} {u u' : PackInfo} (hstride : elementStride d k = .ok size)
    (h : unpackArrayHead perl d k dimtag u = .ok (size', pos, s) u') :
    ∃ avail count u₁, availElements u.length u.pos size = .ok avail ∧
      unpackCount perl d k dimtag avail u = .ok count u₁ ∧ s.toNat = count.toNat := by
  obtain ⟨stride, t₁, hsize, h⟩ := bind_ok h
  obtain ⟨hfound, rfl⟩ := liftCall_ok hsize
  obtain rfl := Except.ok.inj (hstride.symm.trans hfound)
  obtain ⟨_, t₂, hget, h⟩ := bind_ok h
  cases hget
  obtain ⟨avail, t₃, hlift, h⟩ := bind_ok h
  obtain ⟨havail, rfl⟩ := liftCall_ok hlift
  obtain ⟨count, t₄, hcount, h⟩ := bind_ok h
  obtain ⟨_, t₅, _, h⟩ := bind_ok h
  obtain ⟨_, t₆, _, h⟩ := bind_ok h
  cases h
  exact ⟨avail, count, t₄, havail, hcount, toNat_loopBound count⟩

/-- The two loops have as many turns exactly when the inputs say the same number. -/
theorem ArrayRuns.sameNumber_iff {cbc : CBC} (runs : ArrayRuns cbc)
    (hitem : runs.d.item_size = i32 runs.d.item_size) :
    runs.unpacked.toNat = runs.packed.toNat ↔ runs.SameNumber := by
  obtain ⟨avail, count, u₁, havail, hcount, hloop⟩ :=
    unpackArrayHead_count runs.stride runs.unpacks
  rw [hloop]
  cases hflexible : isFlexible runs.d runs.k (runs.d.tagAt runs.k) with
  | true =>
    have hpacked := packCount_rest hflexible runs.packs
    rw [unpackCount_flexible hflexible] at hcount
    cases hcount
    obtain ⟨_, hsize⟩ := (elementStride_ok_iff hitem).mp runs.stride
    have hrange := i32_isInt (runs.d.item_size * runs.d.inner runs.k)
    rw [← hsize] at hrange
    rw [hpacked, Int.toNat_natCast, ← restCounts_avail_iff hrange.1 hrange.2 havail]
    constructor
    · intro hrest
      refine ⟨fun _ => hrest, fun tag htag => ?_⟩
      rw [Option.mem_def.mp htag] at hflexible
      rw [of_decide_eq_true hflexible]
      rfl
    · exact fun h => h.rest hflexible
  | false =>
    have hpack := packCount_given hflexible runs.packs
    have hunpack := unpackCount_given hflexible hcount
    have hnumbers : count.toNat = runs.packed.toNat ↔
        givenNumber runs.perl runs.d runs.k (runs.d.tagAt runs.k) runs.u.parent runs.u.calls =
          givenNumber runs.perl runs.d runs.k (runs.d.tagAt runs.k) runs.st.parent
            runs.st.calls := by
      rw [hpack, hunpack, Option.some_inj]
    rw [hnumbers]
    constructor
    · intro hsame
      refine ⟨fun h => absurd h (ne_true_of_eq_false hflexible), fun tag htag => ?_⟩
      rw [Option.mem_def.mp htag] at hsame
      exact hsame
    · intro hsame
      cases htag : runs.d.tagAt runs.k with
      | none => rfl
      | some tag => exact hsame.tag tag (Option.mem_def.mpr htag)

/-- Declarators for which nothing is divided by zero. -/
structure ZeroFree (d : Declarator) : Prop where
  divisible : Divisible d
  indexable : Indexable d

/-- Nothing is divided by zero, and packing and unpacking process the same numbers of
elements. -/
def ZeroSafe (cbc : CBC) (R : Set (ArrayRuns cbc)) : Prop :=
  PackSafe cbc ∧ MemberSafe cbc.heap ∧ ∀ runs ∈ R, runs.unpacked.toNat = runs.packed.toNat

/-- For all types of a heap that is laid out, and whichever arrays are packed and unpacked. -/
theorem zero_sized_iff (cbc : CBC) (hheap : ∀ d, cbc.heap.HasDeclarator d → d.LaidOut)
    (R : Set (ArrayRuns cbc)) :
    ZeroSafe cbc R ↔
      (∀ d, cbc.heap.HasDeclarator d → ZeroFree d) ∧ ∀ runs ∈ R, runs.SameNumber := by
  have hsame (runs : ArrayRuns cbc) : runs.unpacked.toNat = runs.packed.toNat ↔ runs.SameNumber :=
    runs.sameNumber_iff (hheap runs.d runs.declared (Declarator.isArray_of_dims runs.dimension)).1
  unfold ZeroSafe
  rw [packSafe_iff hheap, memberSafe_iff hheap]
  constructor
  · rintro ⟨hpack, hmember, hcounts⟩
    exact ⟨fun d hd => ⟨hpack d hd, hmember d hd⟩, fun runs h => (hsame runs).mp (hcounts runs h)⟩
  · rintro ⟨hfree, hcounts⟩
    refine ⟨fun d hd => (hfree d hd).divisible, fun d hd => (hfree d hd).indexable, ?_⟩
    exact fun runs h => (hsame runs).mpr (hcounts runs h)

/-- Members without dimensions are laid out whatever their sizes are. -/
theorem laidOut_of_plain {d : Declarator} (h : d.isArray = false) : d.LaidOut :=
  fun harray => absurd harray (ne_true_of_eq_false h)

/-- `struct { int n; int a[1]; }` -/
theorem countedStruct_laidOut (d : Declarator)
    (hd : (cbc64 (singleHeap countedStruct)).heap.HasDeclarator d) : d.LaidOut := by
  rcases hd with ⟨s, sd, hsd, hd⟩ | ⟨t, rfl⟩
  · have hmem : sd = declaration (.basic T_INT) [memberAt "n" 0 4 4] ∨
        sd = declaration (.basic T_INT) [countedArray] := by
      simpa [cbc64, singleHeap, countedStruct, structOf, structNew] using hsd
    rcases hmem with rfl | rfl
    · obtain rfl := List.mem_singleton.mp hd
      exact laidOut_of_plain rfl
    · obtain rfl := List.mem_singleton.mp hd
      exact fun _ => ⟨by decide, 4, by decide, by decide⟩
  · exact laidOut_of_plain rfl

theorem zero_sized_iff_counted :
    ZeroSafe (cbc64 (singleHeap countedStruct)) Set.univ ↔
      (∀ d, (cbc64 (singleHeap countedStruct)).heap.HasDeclarator d → ZeroFree d) ∧
        ∀ runs ∈ (Set.univ : Set (ArrayRuns (cbc64 (singleHeap countedStruct)))), runs.SameNumber :=
  zero_sized_iff (cbc64 (singleHeap countedStruct)) countedStruct_laidOut Set.univ

/-- `struct e { } a[2]` -/
def emptyElements : Declarator :=
  { memberAt "a" 0 0 0 with ext := .array [⟨2, false, false⟩] }

/-- `struct { struct e { } a[2]; }` -/
def emptyArrayStruct : Struct :=
  structOf "" [declaration (.compound .struct 1) [emptyElements]]

/-- Unpacking an array of empty structs from an empty string. -/
theorem empty_elements_divide :
    ∃ st, pkUnpack slotPerl (cbc64 (singleHeap emptyArrayStruct)) 10 (.compound .struct 0) none 0
      (pkCreate [] 0) = .error .divideByZero st := by
  have hfault : (match pkUnpack slotPerl (cbc64 (singleHeap emptyArrayStruct)) 10
      (.compound .struct 0) none 0 (pkCreate [] 0) with
    | .ok _ _ => none
    | .error e _ => some e) = some .divideByZero := by decide +kernel
  cases hrun : pkUnpack slotPerl (cbc64 (singleHeap emptyArrayStruct)) 10 (.compound .struct 0) none 0
      (pkCreate [] 0) with
  | ok sv st =>
    rw [hrun] at hfault
    exact nomatch hfault
  | error e st =>
    rw [hrun] at hfault
    obtain rfl := Option.some.inj hfault
    exact ⟨st, rfl⟩

end ConvertBinaryC
