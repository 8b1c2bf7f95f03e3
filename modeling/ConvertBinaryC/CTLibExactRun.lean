import ConvertBinaryC.CTLibExactStep
import ConvertBinaryC.CTLibTypeInfo

/-! The layouts of all compounds, which start each other on demand, in the code's
arithmetic and in integers. A compound that is laid out is not touched again, so what its
layout has stored can be read off at the end. -/
namespace ConvertBinaryC
open FoldRules BitCounterRules

/-- Sizes and alignments of types. -/
def Small (n : ℤ) : Prop := 0 < n ∧ n < 65536

instance : DecidablePred Small := fun _ => inferInstanceAs (Decidable (_ ∧ _))

/-- The sizes and alignments that the options can set. -/
structure SmallOptions (arch : NativeArch) (pLP : LayoutParam) : Prop where
  ptr : Small (loadSize pLP.ptr_size arch.ptr_size)
  int : Small (loadSize pLP.int_size arch.int_size)
  basic : ∀ tflags, Small (basicSize arch pLP tflags)
  alignment : Small (layoutAlignment arch pLP)
  compound_alignment : Small (layoutCompoundAlignment arch pLP)

/-- The numbers in the type objects are those of their fields: alignments have 16 bits and
sizes are unsigned. -/
structure Heap.Sane (pLP : LayoutParam) (heap : Heap) : Prop where
  enums : ∀ e, Small (enumTypeSize pLP (heap.enumAt e))
  pack : ∀ s, 0 ≤ (heap.structAt s).pack ∧ (heap.structAt s).pack < 65536
  align : ∀ s, 0 ≤ (heap.structAt s).align ∧ (heap.structAt s).align < 65536
  size : ∀ s, 0 ≤ (heap.structAt s).size ∧ (heap.structAt s).size < 4294967296

/-- The second heap has the same types, and except for `X` the same compounds where a
layout was there before. -/
structure Heap.Keeps (X : Set ℕ) (heap heap' : Heap) : Prop where
  typedefs : heap'.typedefAt = heap.typedefAt
  enums : heap'.enumAt = heap.enumAt
  structs : ∀ t, t ∉ X → (heap.structAt t).align ≠ 0 → heap'.structAt t = heap.structAt t

theorem Heap.Keeps.refl (X : Set ℕ) (heap : Heap) : heap.Keeps X heap :=
  ⟨rfl, rfl, fun _ _ _ => rfl⟩

theorem Heap.Keeps.trans {X : Set ℕ} {heap heap' heap'' : Heap} (h : heap.Keeps X heap')
    (h' : heap'.Keeps X heap'') : heap.Keeps X heap'' where
  typedefs := h'.typedefs.trans h.typedefs
  enums := h'.enums.trans h.enums
  structs := by
    intro t ht halign
    have hsame := h.structs t ht halign
    rw [← hsame]
    exact h'.structs t ht (hsame ▸ halign)

theorem Heap.Keeps.mono {X Y : Set ℕ} {heap heap' : Heap} (h : heap.Keeps X heap') (hXY : X ⊆ Y) :
    heap.Keeps Y heap' :=
  { h with structs := fun t ht => h.structs t fun hX => ht (hXY hX) }

theorem Heap.keeps_setStruct (heap : Heap) (s : ℕ) (pStruct : Struct) :
    heap.Keeps {s} (heap.setStruct s pStruct) :=
  ⟨rfl, rfl, fun _ ht _ => Heap.setStruct_of_ne _ _ ht⟩

/-- A compound without a layout does not have to be excepted. -/
theorem Heap.Keeps.of_fresh {heap heap' : Heap} {s : ℕ} (h : heap.Keeps {s} heap')
    (hfresh : (heap.structAt s).align = 0) : heap.Keeps ∅ heap' :=
  { h with structs := fun t _ halign => h.structs t (fun hts => halign (hts ▸ hfresh)) halign }

section Frame
variable {rule : ExactRule} {arch : NativeArch} {pLP : LayoutParam} {fuel : ℕ}
  {opened : List ℕ} {st st' : LayoutState} {type : TypeSpec} {pDecl : Option Declarator}
  {info : TypeInfo}

/-- What a question about a type asks for, without the dimensions of the declarator. -/
def ExactBase (rule : ExactRule) (arch : NativeArch) (pLP : LayoutParam) (fuel : ℕ)
    (opened : List ℕ) (st : LayoutState) (type : TypeSpec)
    (pointer_flag : Bool) (st' : LayoutState) (base : TypeInfo) : Prop :=
  if pointer_flag then st' = st ∧ base = TypeInfo.scalar (loadSize pLP.ptr_size arch.ptr_size)
  else
    match type with
    | .typedef t => exactTypeInfo rule arch pLP fuel opened st (st.heap.typedefAt t).type
        (some (st.heap.typedefAt t).decl) = .ok (st', base)
    | .enum e => st' = st ∧ base = TypeInfo.scalar (enumTypeSize pLP (st.heap.enumAt e))
    | .compound _ s => s ∉ opened ∧
      (if (st.heap.structAt s).declarations.isSome ∧ (st.heap.structAt s).align = 0 then
        exactCompound rule arch pLP fuel opened st s = .ok st' else st' = st) ∧
        base = structInfo arch pLP (st'.heap.structAt s)
    | .basic tflags => st' = st ∧ base = TypeInfo.scalar (basicSize arch pLP tflags)

theorem exactTypeInfo_ok
    (h : exactTypeInfo rule arch pLP (fuel + 1) opened st type pDecl = .ok (st', info)) :
    ∃ base,
      ExactBase rule arch pLP fuel opened st type (pDecl.any Declarator.pointer_flag) st' base ∧
      exactDeclare rule base ((pDecl.map Declarator.dims).getD []) = .ok info := by
  unfold exactTypeInfo at h
  obtain ⟨⟨st₁, base⟩, hbase, h⟩ := bind_ok h
  obtain ⟨info₁, hdeclare, h⟩ := bind_ok h
  cases h
  refine ⟨base, ?_, hdeclare⟩
  unfold ExactBase
  split_ifs at hbase ⊢ with hptr
  · cases hbase
    exact ⟨rfl, rfl⟩
  · cases type with
    | basic tflags =>
      cases hbase
      exact ⟨rfl, rfl⟩
    | enum e =>
      cases hbase
      exact ⟨rfl, rfl⟩
    | typedef t => exact hbase
    | compound kind s =>
      dsimp only at hbase ⊢
      by_cases hopened : s ∈ opened
      · rw [if_pos hopened] at hbase
        exact nomatch hbase
      rw [if_neg hopened] at hbase
      obtain ⟨st₂, hlayout, hbase⟩ := bind_ok hbase
      cases hbase
      refine ⟨hopened, ?_, rfl⟩
      split_ifs at hlayout ⊢
      · exact hlayout
      · exact (Except.ok.inj hlayout).symm

/-- A layout in integers changes only compounds that had no layout. -/
theorem exact_keeps (fuel : ℕ) :
    (∀ opened st type pDecl st' info,
      exactTypeInfo rule arch pLP fuel opened st type pDecl = .ok (st', info) →
      st.heap.Keeps ∅ st'.heap) ∧
    ∀ opened st s st', exactCompound rule arch pLP fuel opened st s = .ok st' →
      st.heap.Keeps {s} st'.heap := by
  induction fuel with
  | zero =>
    constructor
    · intro opened st type pDecl st' info h
      rw [exactTypeInfo] at h
      exact nomatch h
    · intro opened st s st' h
      rw [exactCompound] at h
      exact nomatch h
  | succ fuel ih =>
    constructor
    · intro opened st type pDecl st' info h
      obtain ⟨base, hbase, -⟩ := exactTypeInfo_ok h
      unfold ExactBase at hbase
      split_ifs at hbase
      · rw [hbase.1]
        exact .refl _ _
      · cases type with
        | basic tflags =>
          rw [hbase.1]
          exact .refl _ _
        | enum e =>
          rw [hbase.1]
          exact .refl _ _
        | typedef t => exact ih.1 _ _ _ _ _ _ hbase
        | compound kind s =>
          dsimp only at hbase
          obtain ⟨-, hlayout, -⟩ := hbase
          split_ifs at hlayout with hfresh
          · exact (ih.2 _ _ _ _ hlayout).of_fresh hfresh.2
          · rw [hlayout]
            exact .refl _ _
    · intro opened st s st' h
      rw [exactCompound] at h
      obtain ⟨⟨heap, bl, pStruct⟩, hstruct, h⟩ := bind_ok h
      cases h
      have hback : ∀ x f type pDecl x' bl info,
          heapQuery (exactTypeInfo rule arch pLP fuel (s :: opened)) s x f type pDecl = .ok (x', bl, info) →
          x'.Keeps {s} heap → x.Keeps {s} heap := by
        intro x f type pDecl x' bl info hask hend
        obtain ⟨⟨st₁, info₁⟩, hask, hok⟩ := bind_ok hask
        cases hok
        have hset := x.keeps_setStruct s (f.store (x.structAt s))
        have hcall := (ih.1 _ _ _ _ _ _ hask).mono (Set.empty_subset {s})
        exact (hset.trans hcall).trans hend
      have hrun := exactStruct_back hback hstruct (Heap.Keeps.refl {s} heap)
      exact hrun.trans (heap.keeps_setStruct s pStruct)

end Frame

/-- What is stored in the compounds that are laid out fits its fields, except in the opened ones,
whose layout is going on. -/
def Heap.LaidFits (opened : List ℕ) (heap : Heap) : Prop :=
  ∀ t, t ∉ opened → (heap.structAt t).align ≠ 0 → ∀ v ∈ (heap.structAt t).stored, v.Fits

theorem Heap.LaidFits.back {X : Set ℕ} {opened : List ℕ} {heap heap' : Heap}
    (h : heap'.LaidFits opened) (hkeeps : heap.Keeps X heap') (hX : ∀ t ∈ X, t ∈ opened) :
    heap.LaidFits opened := by
  intro t ht halign
  have hsame := hkeeps.structs t (fun htX => ht (hX t htX)) halign
  rw [← hsame]
  exact h t ht (hsame ▸ halign)

/-- The state of a layout that is going on in the opened compounds. -/
structure LayoutReady (pLP : LayoutParam) (opened : List ℕ) (st : LayoutState) : Prop where
  sane : st.heap.Sane pLP
  started : ∀ t ∈ opened, (st.heap.structAt t).align ≠ 0

section Agree
variable {arch : NativeArch} {pLP : LayoutParam}

theorem exactDeclare_ok {rule : ExactRule} {base info : TypeInfo} {dims : List Value}
    (h : exactDeclare rule base dims = .ok info) :
    0 ≤ base.size * (dims.map Value.iv).prod ∧ rule.product base.size dims = true ∧
      info = { base with
        item_size := base.size
        size := base.size * (dims.map Value.iv).prod
        riskyVal := base.riskyVal || dims.any Value.risky } := by
  unfold exactDeclare at h
  dsimp only at h
  split_ifs at h with hbad
  rw [not_or, not_lt, Bool.not_eq_false] at hbad
  exact ⟨hbad.1, hbad.2, (Except.ok.inj h).symm⟩

/-- The dimensions of a declarator, as a product and as a product of unsigneds. -/
theorem SameInfo.declare {base exactBase exact : TypeInfo} {dims : List Value}
    (h : SameInfo base exactBase) (hexact : exactDeclare .coded exactBase dims = .ok exact) :
    ∃ info, base.declare dims = .ok info ∧ SameInfo info exact := by
  obtain ⟨hnonneg, hproduct, rfl⟩ := exactDeclare_ok hexact
  have hu32 : u32 exactBase.size = base.size := by
    have hmod : base.size % 4294967296 = exactBase.size % 4294967296 := h.size
    rw [u32, ← hmod]
    exact Int.emod_eq_of_lt h.nonneg h.lt
  have hfits : FitsAs u32 base.size dims := hu32 ▸ of_decide_eq_true hproduct
  have hrange := unsignedProduct_range h.nonneg h.lt dims
  have hmod : unsignedProduct base.size dims ≡ exactBase.size * (dims.map Value.iv).prod
      [ZMOD 4294967296] :=
    calc unsignedProduct base.size dims ≡ base.size * (dims.map Value.iv).prod [ZMOD 4294967296] :=
          unsignedProduct_modEq _ _
      _ ≡ exactBase.size * (dims.map Value.iv).prod [ZMOD 4294967296] := h.size.mul_right _
  refine ⟨_, TypeInfo.declare_ok_iff.mpr ⟨hfits, rfl⟩, ?_⟩
  exact
    { size := hmod
      item_size := h.size
      nonneg := hrange.1
      lt := hrange.2
      exact_nonneg := hnonneg
      align := h.align
      align_pos := h.align_pos
      align_lt := h.align_lt
      hasBitfield := h.hasBitfield
      riskyVal := by
        dsimp only
        rw [h.riskyVal]
      noStructDecl := h.noStructDecl }

theorem SameInfo.refl {info : TypeInfo} (hnonneg : 0 ≤ info.size) (hlt : info.size < 4294967296)
    (halign : Small info.align) : SameInfo info info where
  size := rfl
  item_size := rfl
  nonneg := hnonneg
  lt := hlt
  exact_nonneg := hnonneg
  align := rfl
  align_pos := halign.1
  align_lt := halign.2
  hasBitfield := rfl
  riskyVal := rfl
  noStructDecl := rfl

theorem sameInfo_scalar {size : ℤ} (h : Small size) :
    SameInfo (TypeInfo.scalar size) (TypeInfo.scalar size) :=
  SameInfo.refl h.1.le (lt_trans h.2 (by decide)) h

/-- The information about a compound that has no body or a layout. -/
theorem sameInfo_struct {heap : Heap} {s : ℕ} (hoptions : SmallOptions arch pLP)
    (hsane : heap.Sane pLP)
    (hlaid : (heap.structAt s).declarations.isSome → (heap.structAt s).align ≠ 0) :
    SameInfo (structInfo arch pLP (heap.structAt s)) (structInfo arch pLP (heap.structAt s)) := by
  have hsize := hsane.size s
  have halign := hsane.align s
  unfold structInfo
  cases hdecl : (heap.structAt s).declarations with
  | none =>
    have hint := hoptions.int
    exact SameInfo.refl hint.1.le (lt_trans hint.2 (by decide)) hint
  | some declarations =>
    rw [hdecl] at hlaid
    have hpos : 0 < (heap.structAt s).align := lt_of_le_of_ne halign.1 (Ne.symm (hlaid rfl))
    exact SameInfo.refl hsize.1 hsize.2 ⟨hpos, halign.2⟩

theorem exactTypeInfo_nonneg {rule : ExactRule} {fuel : ℕ} {opened : List ℕ}
    {st st' : LayoutState} {type : TypeSpec} {pDecl : Option Declarator} {info : TypeInfo}
    (h : exactTypeInfo rule arch pLP fuel opened st type pDecl = .ok (st', info)) :
    0 ≤ info.size := by
  cases fuel with
  | zero =>
    rw [exactTypeInfo] at h
    exact nomatch h
  | succ fuel =>
    obtain ⟨base, -, hdeclare⟩ := exactTypeInfo_ok h
    obtain ⟨hnonneg, -, rfl⟩ := exactDeclare_ok hdeclare
    exact hnonneg

theorem Heap.forall_setStruct {heap : Heap} {s : ℕ} {pStruct : Struct} {p : Struct → Prop}
    (hs : p pStruct) (h : ∀ t, p (heap.structAt t)) (t : ℕ) :
    p ((heap.setStruct s pStruct).structAt t) := by
  by_cases ht : t = s
  · rw [ht, Heap.setStruct_self]
    exact hs
  · rw [Heap.setStruct_of_ne _ _ ht]
    exact h t

theorem Heap.Sane.setStruct {heap : Heap} (h : heap.Sane pLP) {s : ℕ} {pStruct : Struct}
    (hpack : 0 ≤ pStruct.pack ∧ pStruct.pack < 65536)
    (halign : 0 ≤ pStruct.align ∧ pStruct.align < 65536)
    (hsize : 0 ≤ pStruct.size ∧ pStruct.size < 4294967296) :
    (heap.setStruct s pStruct).Sane pLP where
  enums := h.enums
  pack := Heap.forall_setStruct (p := fun q => 0 ≤ q.pack ∧ q.pack < 65536) hpack h.pack
  align := Heap.forall_setStruct (p := fun q => 0 ≤ q.align ∧ q.align < 65536) halign h.align
  size := Heap.forall_setStruct (p := fun q => 0 ≤ q.size ∧ q.size < 4294967296) hsize h.size

/-- Storing a frame of a layout that is going on. -/
theorem LayoutReady.store {opened : List ℕ} {heap : Heap} {s : ℕ} {f : Frame}
    {kind : CompoundKind} (hsane : heap.Sane pLP)
    (hstarted : ∀ t ∈ opened, (heap.structAt t).align ≠ 0) (hf : FrameSound kind f) :
    LayoutReady pLP (s :: opened) ⟨heap.setStruct s (f.store (heap.structAt s)), f.bl⟩ where
  sane := hsane.setStruct (hsane.pack s) ⟨hf.align_pos.le, hf.align_lt⟩
    ⟨hf.size_nonneg, hf.size_lt⟩
  started := by
    intro t ht
    dsimp only
    by_cases hts : t = s
    · subst hts
      rw [Heap.setStruct_self]
      exact hf.align_pos.ne'
    · rw [Heap.setStruct_of_ne _ _ hts]
      exact hstarted t ((List.mem_cons.mp ht).resolve_left hts)

theorem structAlignment_small (hoptions : SmallOptions arch pLP) {heap : Heap}
    (hsane : heap.Sane pLP) (s : ℕ) : Small (structAlignment arch pLP (heap.structAt s)) := by
  have hpack := hsane.pack s
  unfold structAlignment
  split_ifs with hzero
  · exact ⟨lt_of_le_of_ne hpack.1 (Ne.symm hzero), hpack.2⟩
  · exact hoptions.alignment

theorem initialFrame_sound (hoptions : SmallOptions arch pLP) {heap : Heap}
    (hsane : heap.Sane pLP) (bl : BitfieldLayouter) (s : ℕ) :
    FrameSound (heap.structAt s).kind (initialFrame arch pLP bl (heap.structAt s)) := by
  have hsmall := structAlignment_small hoptions hsane s
  have hcompound := hoptions.compound_alignment
  have hmin : Small (if structAlignment arch pLP (heap.structAt s) <
      layoutCompoundAlignment arch pLP then structAlignment arch pLP (heap.structAt s)
      else layoutCompoundAlignment arch pLP) := by
    split_ifs
    · exact hsmall
    · exact hcompound
  have hsize := hsane.size s
  exact
    { size_nonneg := hsize.1
      size_lt := hsize.2
      align_pos := by
        unfold initialFrame
        dsimp only
        rw [u16_of_lt hmin.1.le hmin.2]
        exact hmin.1
      align_lt := by
        unfold initialFrame
        dsimp only
        rw [u16_of_lt hmin.1.le hmin.2]
        exact hmin.2
      narrow := ⟨hsmall.1.le, hsmall.2⟩
      union := fun _ => rfl }

/-- `getTypeInfo` and `exactTypeInfo` under its rule agree from equal states if what has been laid
out by the end fits its fields. -/
def TypeInfoAgrees (arch : NativeArch) (pLP : LayoutParam) (fuel : ℕ) : Prop :=
  ∀ opened st type pDecl st' known, LayoutReady pLP opened st →
    exactTypeInfo .coded arch pLP fuel opened st type pDecl = .ok (st', known) →
    st'.heap.LaidFits opened →
    ∃ info, getTypeInfo arch pLP fuel st type pDecl = .ok (st', info) ∧ SameInfo info known ∧
      LayoutReady pLP opened st' ∧ (st.bl.Narrow → st'.bl.Narrow)

def CompoundAgrees (arch : NativeArch) (pLP : LayoutParam) (fuel : ℕ) : Prop :=
  ∀ opened st s st', LayoutReady pLP opened st → (st.heap.structAt s).align = 0 →
    exactCompound .coded arch pLP fuel opened st s = .ok st' → st'.heap.LaidFits opened →
    layoutCompound arch pLP fuel st s = .ok st' ∧ LayoutReady pLP opened st' ∧
      (st.bl.Narrow → st'.bl.Narrow) ∧
      ((st.heap.structAt s).declarations.isSome → (st'.heap.structAt s).align ≠ 0)

/-- The questions that the layout of `s` asks. -/
theorem TypeInfoAgrees.queries {fuel : ℕ} (h : TypeInfoAgrees arch pLP fuel) (opened : List ℕ)
    (s : ℕ) (kind : CompoundKind) :
    QueriesAgree kind (fun heap => heap.Sane pLP ∧ ∀ t ∈ opened, (heap.structAt t).align ≠ 0)
      (fun heap => heap.LaidFits (s :: opened)) (heapQuery (getTypeInfo arch pLP fuel) s)
      (heapQuery (exactTypeInfo .coded arch pLP fuel (s :: opened)) s) where
  back := by
    intro heap f type pDecl heap' bl known hask hfits
    obtain ⟨⟨st₁, known₁⟩, hask, hok⟩ := bind_ok hask
    cases hok
    have hset := heap.keeps_setStruct s (f.store (heap.structAt s))
    have hcall := ((exact_keeps fuel).1 _ _ _ _ _ _ hask).mono (Set.empty_subset {s})
    exact hfits.back (hset.trans hcall) fun t ht => Set.mem_singleton_iff.mp ht ▸ List.mem_cons_self
  nonneg := by
    intro heap f type pDecl heap' bl known hask
    obtain ⟨⟨st₁, known₁⟩, hask, hok⟩ := bind_ok hask
    cases hok
    exact exactTypeInfo_nonneg hask
  step := by
    rintro heap f type pDecl heap' bl known ⟨hsane, hstarted⟩ hf hask hfits
    obtain ⟨⟨st₁, known₁⟩, hask, hok⟩ := bind_ok hask
    cases hok
    obtain ⟨info, hcode, hinfo, hready, hnarrow⟩ :=
      h (s :: opened) _ _ _ _ _ (LayoutReady.store hsane hstarted hf) hask hfits
    refine ⟨info, ?_, hinfo, ⟨hready.sane, ?_⟩, hnarrow hf.narrow⟩
    · unfold heapQuery
      rw [hcode, call_bind_apply]
    · exact fun t ht => hready.started t (List.mem_cons_of_mem s ht)

theorem TypeInfoAgrees.compound (hoptions : SmallOptions arch pLP) {fuel : ℕ}
    (h : TypeInfoAgrees arch pLP fuel) : CompoundAgrees arch pLP (fuel + 1) := by
  intro opened st s st' hready hfresh hexact hfits
  rw [exactCompound] at hexact
  obtain ⟨⟨heap, bl, pStruct⟩, hstruct, hexact⟩ := bind_ok hexact
  cases hexact
  rw [layoutCompound]
  cases hdecl : (st.heap.structAt s).declarations with
  | none =>
    unfold exactStruct at hstruct
    unfold layoutStruct
    rw [hdecl] at hstruct ⊢
    cases hstruct
    rw [call_bind_apply]
    dsimp only
    rw [Heap.setStruct_structAt]
    exact ⟨rfl, hready, id, fun hbody => nomatch hbody⟩
  | some declarations =>
    have hsmall := structAlignment_small hoptions hready.sane s
    obtain ⟨hpack, halign⟩ := exactStruct_fields hstruct
    rw [hdecl] at halign
    have hlaid : pStruct.align ≠ 0 := halign rfl
    have hs : s ∉ opened := fun hX => hready.started s hX hfresh
    have hstored : ∀ v ∈ pStruct.stored, v.Fits := by
      have hself := hfits s hs
      dsimp only at hself
      rw [Heap.setStruct_self] at hself
      exact hself hlaid
    have hother : heap.LaidFits (s :: opened) := by
      intro t ht
      obtain ⟨hts, hX⟩ := not_or.mp fun h => ht (List.mem_cons.mpr h)
      have hout := hfits t hX
      dsimp only at hout
      rwa [Heap.setStruct_of_ne _ _ hts] at hout
    have hquery := h.queries opened s (st.heap.structAt s).kind
    obtain ⟨hcode, ⟨hsane, hstarted⟩, hsound⟩ := layoutStruct_exact hquery hsmall.1 hsmall.2 hdecl
      ⟨hready.sane, hready.started⟩ (initialFrame_sound hoptions hready.sane st.bl s) hstruct hother
      hstored
    have hsize : (⟨.unsigned, pStruct.size⟩ : Stored).Fits := hstored _ List.mem_cons_self
    rw [hcode, call_bind_apply]
    refine ⟨rfl, ⟨?_, ?_⟩, fun _ => hsound.narrow, ?_⟩
    · exact hsane.setStruct (hpack ▸ hready.sane.pack s) ⟨hsound.align_pos.le, hsound.align_lt⟩
        hsize
    · intro t ht
      have hts : t ≠ s := fun heq => hs (heq ▸ ht)
      dsimp only
      rw [Heap.setStruct_of_ne _ _ hts]
      exact hstarted t ht
    · intro _
      dsimp only
      rw [Heap.setStruct_self]
      exact hlaid

end Agree

end ConvertBinaryC
