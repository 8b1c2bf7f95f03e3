import ConvertBinaryC.CTLibMirrorLayout
import ConvertBinaryC.CTLibExactParse

/-! The layouts of a compound and of those that it starts on demand, with each byte order.
They agree on everything but the positions of the bit-fields. -/
namespace ConvertBinaryC
open FoldRules

/-- Heaps that differ at most in the positions of bit-fields. -/
structure Heap.Twin (heap heap' : Heap) : Prop where
  typedefs : heap'.typedefAt = heap.typedefAt
  enums : heap'.enumAt = heap.enumAt
  structs : ∀ s, (heap.structAt s).Twin (heap'.structAt s)

theorem Heap.Twin.refl (heap : Heap) : heap.Twin heap := ⟨rfl, rfl, fun _ => .refl _⟩

/-- The numbers in a compound are those of its fields, and its bit-fields are not too wide. -/
structure Struct.Tame (pStruct : Struct) : Prop where
  pack : 0 ≤ pStruct.pack
  align : 0 ≤ pStruct.align ∧ pStruct.align < 65536
  size : 0 ≤ pStruct.size
  holds : pStruct.ByteWide

structure Heap.Tame (pLP : LayoutParam) (heap : Heap) : Prop where
  enums : ∀ e, Small (enumTypeSize pLP (heap.enumAt e))
  structs : ∀ s, (heap.structAt s).Tame

/-- The heaps of the two layouts. -/
structure HeapTwin (pLP : LayoutParam) (heap heap' : Heap) : Prop where
  twin : heap.Twin heap'
  tame : heap.Tame pLP

/-- The states of the two layouts inside of a compound. -/
structure StateTwin (pLP : LayoutParam) (st st' : LayoutState) : Prop where
  heap : HeapTwin pLP st.heap st'.heap
  bl : st'.bl = st.bl.big
  little : st.bl.Little

def LayoutParam.big (pLP : LayoutParam) : LayoutParam := { pLP with byte_order := .bigEndian }

/-- Every bit-field of the compound fits when it is reached. -/
def CompoundFits (arch : NativeArch) (pLP : LayoutParam) : ℕ → LayoutState → ℕ → Prop
  | 0, _, _ => True
  | fuel + 1, st, s =>
    StructFits arch pLP (heapQuery (getTypeInfo arch pLP fuel) s) st.heap st.bl
      (st.heap.structAt s)

section Run
variable {arch : NativeArch} {pLP : LayoutParam}

theorem HeapTwin.setStruct {heap heap' : Heap} (h : HeapTwin pLP heap heap') (s : ℕ)
    {pStruct pStruct' : Struct} (htwin : pStruct.Twin pStruct') (htame : pStruct.Tame) :
    HeapTwin pLP (heap.setStruct s pStruct) (heap'.setStruct s pStruct') where
  twin :=
    { typedefs := h.twin.typedefs
      enums := h.twin.enums
      structs := by
        intro t
        by_cases ht : t = s
        · rw [ht, Heap.setStruct_self, Heap.setStruct_self]
          exact htwin
        · rw [Heap.setStruct_of_ne _ _ ht, Heap.setStruct_of_ne _ _ ht]
          exact h.twin.structs t }
  tame := ⟨h.tame.enums, Heap.forall_setStruct (p := Struct.Tame) htame h.tame.structs⟩

/-- Storing a frame of a layout that is going on. -/
theorem HeapTwin.store {heap heap' : Heap} (h : HeapTwin pLP heap heap') (s : ℕ) {f : Frame}
    (hf : f.Little) :
    HeapTwin pLP (heap.setStruct s (f.store (heap.structAt s)))
      (heap'.setStruct s (f.big.store (heap'.structAt s))) := by
  have htwin := h.twin.structs s
  have htame := h.tame.structs s
  refine h.setStruct s ⟨?_, htwin.declarations⟩ ⟨htame.pack, hf.align, hf.size, htame.holds⟩
  rw [htwin.fields]
  rfl

theorem Struct.Twin.isSome {pStruct pStruct' : Struct} (h : pStruct.Twin pStruct') :
    pStruct'.declarations.isSome = pStruct.declarations.isSome := by
  have hdecls := h.declarations
  generalize pStruct.declarations = declarations at hdecls ⊢
  generalize pStruct'.declarations = declarations' at hdecls ⊢
  cases hdecls with
  | none => rfl
  | some _ => rfl

theorem structInfo_twin {pStruct pStruct' : Struct} (h : pStruct.Twin pStruct') :
    structInfo arch pLP.big pStruct' = structInfo arch pLP pStruct := by
  have hsome := h.isSome
  rw [h.fields]
  unfold structInfo
  dsimp only
  cases hd : pStruct.declarations with
  | none =>
    rw [hd, Option.isSome_none, Option.isSome_eq_false_iff, Option.isNone_iff_eq_none] at hsome
    rw [hsome]
    rfl
  | some sds =>
    rw [hd, Option.isSome_some] at hsome
    obtain ⟨sds', hd'⟩ := Option.isSome_iff_exists.mp hsome
    rw [hd']

theorem twin_dims {d d' : Option Declarator} (h : Option.Rel Declarator.Twin d d') :
    (d'.map Declarator.dims).getD [] = (d.map Declarator.dims).getD [] := by
  cases h with
  | none => rfl
  | some h => exact h.dims

theorem twin_pointer_flag {d d' : Option Declarator} (h : Option.Rel Declarator.Twin d d') :
    d'.any Declarator.pointer_flag = d.any Declarator.pointer_flag := by
  cases h with
  | none => rfl
  | some h => exact h.pointer_flag

theorem Small.i32_nonneg {n : ℤ} (h : Small n) : 0 ≤ i32 n := by
  have hlt : n < 2147483648 := lt_trans h.2 (by decide)
  rw [i32_of_lt (by linarith [h.1]) hlt]
  exact h.1.le

theorem structInfo_align (hoptions : SmallOptions arch pLP) {pStruct : Struct}
    (h : pStruct.Tame) : 0 ≤ i32 (structInfo arch pLP pStruct).align := by
  unfold structInfo
  cases pStruct.declarations with
  | none => exact hoptions.int.i32_nonneg
  | some _ =>
    have halign := h.align
    dsimp only
    rw [i32_of_lt (by omega) (by omega)]
    exact halign.1

/-- The two layouts get the same type information. -/
def TypeInfoTwin (arch : NativeArch) (pLP : LayoutParam) (fuel : ℕ) : Prop :=
  ∀ st st' type d d', StateTwin pLP st st' → Option.Rel Declarator.Twin d d' →
    Related (fun q q' => StateTwin pLP q.1 q'.1 ∧ q'.2 = q.2 ∧ 0 ≤ i32 q.2.align)
      (getTypeInfo arch pLP fuel st type d) (getTypeInfo arch pLP.big fuel st' type d')

/-- The two layouts of a compound end in step. -/
def CompoundTwin (arch : NativeArch) (pLP : LayoutParam) (fuel : ℕ) : Prop :=
  ∀ st st' s, HeapTwin pLP st.heap st'.heap → st'.bl.big = st.bl.big →
    st.bl.Ready → (st.heap.structAt s).declarations.isSome →
    Related (fun q q' => StateTwin pLP q q' ∧
        ((q.heap.structAt s).Mirrors (q'.heap.structAt s) ↔ CompoundFits arch pLP fuel st s))
      (layoutCompound arch pLP fuel st s) (layoutCompound arch pLP.big fuel st' s)

theorem TypeInfoTwin.queries {fuel : ℕ} (h : TypeInfoTwin arch pLP fuel) (s : ℕ) :
    QueriesTwin (HeapTwin pLP) (heapQuery (getTypeInfo arch pLP fuel) s)
      (heapQuery (getTypeInfo arch pLP.big fuel) s) := by
  intro heap heap' f type d d' hheap hf hd
  have hstate : StateTwin pLP ⟨heap.setStruct s (f.store (heap.structAt s)), f.bl⟩
    ⟨heap'.setStruct s (f.big.store (heap'.structAt s)), f.big.bl⟩ := ⟨hheap.store s hf, rfl, hf.bl⟩
  apply (h _ _ type d d' hstate hd).bind
  rintro ⟨st, info⟩ ⟨st', info'⟩ ⟨hst, hinfo, halign⟩
  exact ⟨hst.heap, hst.bl, hinfo, hst.little, halign⟩

theorem TypeInfoTwin.compound {fuel : ℕ} (hlittle : pLP.byte_order = .littleEndian)
    (hoptions : SmallOptions arch pLP) (h : TypeInfoTwin arch pLP fuel) :
    CompoundTwin arch pLP (fuel + 1) := by
  intro st st' s hheap hbl hready hbody
  have htame := hheap.tame.structs s
  have halign : 0 ≤ structAlignment arch pLP (st.heap.structAt s) := by
    unfold structAlignment
    split_ifs
    · exact htame.pack
    · exact hoptions.alignment.1.le
  have hrun := layoutStruct_twin (h.queries s) hheap (hheap.twin.structs s) hbody htame.holds
    htame.size halign hlittle hbl hready
  unfold layoutCompound CompoundFits
  apply hrun.bind
  rintro ⟨heap₁, bl₁, p₁⟩ ⟨heap₁', bl₁', p₁'⟩ ⟨hheap₁, hbl₁, hp₁, hmirrors⟩
  obtain ⟨htwin₁, hholds₁, hpack₁, halign₁, hsize₁⟩ := hp₁
  refine ⟨⟨?_, hbl₁.1, hbl₁.2⟩, ?_⟩
  · exact hheap₁.setStruct s htwin₁ ⟨hpack₁ ▸ htame.pack, halign₁, hsize₁, hholds₁⟩
  · rw [Heap.setStruct_self, Heap.setStruct_self]
    exact hmirrors

/-- The dimensions are applied in both layouts alike. -/
theorem declare_twin {q q' : LayoutState × TypeInfo}
    (h : StateTwin pLP q.1 q'.1 ∧ q'.2 = q.2 ∧ 0 ≤ i32 q.2.align) (dims : List Value) :
    Related (fun q q' => StateTwin pLP q.1 q'.1 ∧ q'.2 = q.2 ∧ 0 ≤ i32 q.2.align)
      (q.2.declare dims >>= fun info => .ok (q.1, info))
      (q'.2.declare dims >>= fun info => .ok (q'.1, info)) := by
  obtain ⟨hst, hinfo, halign⟩ := h
  rw [hinfo]
  cases hdeclare : q.2.declare dims with
  | error e => trivial
  | ok info =>
    obtain ⟨-, rfl⟩ := TypeInfo.declare_ok_iff.mp hdeclare
    exact ⟨hst, rfl, halign⟩

theorem CompoundTwin.typeInfo {fuel : ℕ} (hoptions : SmallOptions arch pLP)
    (htype : TypeInfoTwin arch pLP fuel) (hcompound : CompoundTwin arch pLP fuel) :
    TypeInfoTwin arch pLP (fuel + 1) := by
  intro st st' type d d' hst hd
  unfold getTypeInfo
  rw [twin_dims hd, twin_pointer_flag hd]
  refine Related.bind (R := fun q q' : LayoutState × TypeInfo =>
    StateTwin pLP q.1 q'.1 ∧ q'.2 = q.2 ∧ 0 ≤ i32 q.2.align) ?_ fun _ _ hbase => declare_twin hbase _
  by_cases hptr : d.any Declarator.pointer_flag = true
  · rw [if_pos hptr, if_pos hptr]
    exact ⟨hst, rfl, hoptions.ptr.i32_nonneg⟩
  · rw [if_neg hptr, if_neg hptr]
    cases type with
    | basic tflags => exact ⟨hst, rfl, (hoptions.basic tflags).i32_nonneg⟩
    | enum e =>
      have hsmall := hst.heap.tame.enums e
      dsimp only
      rw [hst.heap.twin.enums]
      exact ⟨hst, rfl, hsmall.i32_nonneg⟩
    | typedef t =>
      dsimp only
      rw [hst.heap.twin.typedefs]
      exact htype st st' (st.heap.typedefAt t).type (some (st.heap.typedefAt t).decl)
        (some (st.heap.typedefAt t).decl) hst (.some (.refl _))
    | compound kind s =>
      dsimp only
      have htwin := hst.heap.twin.structs s
      have halign : (st'.heap.structAt s).align = (st.heap.structAt s).align := by
        rw [htwin.fields]
      have hlaid : Related (StateTwin pLP)
          (if (st.heap.structAt s).declarations.isSome = true ∧ (st.heap.structAt s).align = 0 then
            layoutCompound arch pLP fuel st s else .ok st)
          (if (st'.heap.structAt s).declarations.isSome = true ∧
              (st'.heap.structAt s).align = 0 then
            layoutCompound arch pLP.big fuel st' s else .ok st') := by
        rw [htwin.isSome, halign]
        split_ifs with hfresh
        · have hbl : st'.bl.big = st.bl.big := by
            rw [hst.bl]
            rfl
          exact (hcompound st st' s hst.heap hbl hst.little.ready hfresh.1).mono fun _ _ h => h.1
        · exact hst
      apply hlaid.bind
      intro st₁ st₁' hst₁
      refine ⟨hst₁, ?_, structInfo_align hoptions (hst₁.heap.tame.structs s)⟩
      dsimp only
      rw [structInfo_twin (hst₁.heap.twin.structs s)]

/-- Both halves of the recursion, by induction on the depth of calls. -/
theorem layouts_twin (hlittle : pLP.byte_order = .littleEndian) (hoptions : SmallOptions arch pLP)
    (fuel : ℕ) : TypeInfoTwin arch pLP fuel ∧ CompoundTwin arch pLP fuel := by
  induction fuel with
  | zero =>
    constructor
    · intro st st' type d d' _ _
      unfold getTypeInfo
      trivial
    · intro st st' s _ _ _ _
      unfold layoutCompound
      trivial
  | succ fuel ih => exact ⟨ih.2.typeInfo hoptions ih.1, ih.1.compound hlittle hoptions⟩

end Run

/-- The layout parameters with one byte order. -/
def LayoutParam.inOrder (pLP : LayoutParam) (byte_order : CByteOrder) : LayoutParam :=
  { pLP with byte_order := byte_order }

/-- The big-endian layout of a compound fails where the little-endian one does, and else
differs from it in nothing but the positions of bit-fields. They are mirrored if and only
if every bit-field fits when it is reached. -/
theorem layouts_mirror_iff {arch : NativeArch} {pLP : LayoutParam} {heap heap' : Heap}
    {bl bl' : BitfieldLayouter} (hoptions : SmallOptions arch pLP) (hsane : heap.Sane pLP)
    (hholds : ∀ t, (heap.structAt t).ByteWide) (hready : bl.Ready) (htwin : heap.Twin heap')
    (hbl : bl'.big = bl.big) (fuel s : ℕ) :
    Related (fun st st' => st.heap.Twin st'.heap ∧
        ((st.heap.structAt s).Mirrors (st'.heap.structAt s) ↔
          CompoundFits arch (pLP.inOrder .littleEndian) fuel ⟨heap, bl⟩ s))
      (layoutCompound arch (pLP.inOrder .littleEndian) fuel ⟨heap, bl⟩ s)
      (layoutCompound arch (pLP.inOrder .bigEndian) fuel ⟨heap', bl'⟩ s) := by
  have hoptions' : SmallOptions arch (pLP.inOrder .littleEndian) :=
    ⟨hoptions.ptr, hoptions.int, hoptions.basic, hoptions.alignment, hoptions.compound_alignment⟩
  have htame : heap.Tame (pLP.inOrder .littleEndian) :=
    ⟨hsane.enums, fun t => ⟨(hsane.pack t).1, hsane.align t, (hsane.size t).1, hholds t⟩⟩
  by_cases hbody : (heap.structAt s).declarations.isSome = true
  · have hcompound : CompoundTwin arch (pLP.inOrder .littleEndian) fuel :=
      (layouts_twin rfl hoptions' fuel).2
    have hmirror := hcompound ⟨heap, bl⟩ ⟨heap', bl'⟩ s ⟨htwin, htame⟩ hbl hready hbody
    exact hmirror.mono fun st st' hst => ⟨hst.1.heap.twin, hst.2⟩
  · -- a compound without a body stays as it is
    have hnone : (heap.structAt s).declarations = none := by
      rwa [Option.isSome_iff_ne_none, not_not] at hbody
    have hnone' : (heap'.structAt s).declarations = none := by
      rw [← (htwin.structs s).isSome, Option.isSome_iff_ne_none, not_not] at hbody
      exact hbody
    cases fuel with
    | zero =>
      unfold layoutCompound
      trivial
    | succ fuel =>
      have hkeep (order : CByteOrder) {h : Heap} {b : BitfieldLayouter}
          (hn : (h.structAt s).declarations = none) :
          layoutCompound arch (pLP.inOrder order) (fuel + 1) ⟨h, b⟩ s = .ok ⟨h, b⟩ := by
        unfold layoutCompound layoutStruct
        rw [hn, call_bind_apply]
        dsimp only
        rw [Heap.setStruct_structAt]
      rw [hkeep _ hnone, hkeep _ hnone']
      refine ⟨htwin, iff_of_true ?_ ?_⟩
      · intro sds sds' hsds
        rw [hnone] at hsds
        cases hsds
      · intro sds hsds
        rw [hnone] at hsds
        cases hsds

/-- `struct { int a : 3; int b : 7; }` -/
def twoFields : Struct :=
  structOf "" [declaration (.basic T_INT) [bitfieldDecl "a" 3, bitfieldDecl "b" 7]]

theorem layouts_mirror_iff_twoFields :
    Related (fun st st' => st.heap.Twin st'.heap ∧
        ((st.heap.structAt 0).Mirrors (st'.heap.structAt 0) ↔
          CompoundFits lp64 (alignment4.inOrder .littleEndian) 2
            ⟨singleHeap twoFields, blCreateMicrosoft⟩ 0))
      (layoutCompound lp64 (alignment4.inOrder .littleEndian) 2
        ⟨singleHeap twoFields, blCreateMicrosoft⟩ 0)
      (layoutCompound lp64 (alignment4.inOrder .bigEndian) 2
        ⟨singleHeap twoFields, blCreateMicrosoft⟩ 0) := by
  have hsane : (singleHeap twoFields).Sane alignment4 := singleHeap_sane rfl rfl rfl
  have hholds (t : ℕ) : ((singleHeap twoFields).structAt t).ByteWide := by
    intro sds hsds sd hsd ds hds d hd bit hbit
    cases hsds
    cases List.mem_singleton.mp hsd
    cases hds
    rcases List.mem_pair.mp hd with rfl | rfl
    · cases hbit
      exact (by decide : (0 : ℤ) ≤ 3 ∧ (3 : ℤ) < 256)
    · cases hbit
      exact (by decide : (0 : ℤ) ≤ 7 ∧ (7 : ℤ) < 256)
  have hready : blCreateMicrosoft.Ready := le_refl (0 : ℤ)
  exact layouts_mirror_iff smallOptions_lp64 hsane hholds hready (.refl _) rfl 2 0

/-- `struct big { char a[40]; }` -/
def bigStruct : Struct :=
  structOf "big" [declaration (.basic T_CHAR) [arrayDecl "a" 40]]

/-- `struct { struct big x : 5; }` -/
def bigField : Struct :=
  structOf "" [declaration (.compound .struct 1) [bitfieldDecl "x" 5]]

def bigFieldHeap : Heap where
  structAt s := if s = 0 then bigField else bigStruct
  enumAt _ := ⟨0, false, false, 4, 4, ⟨"order.h", 1⟩, none, .empty, ""⟩
  typedefAt _ := ⟨.basic T_INT, declNew ""⟩

/-- The position 315 in a unit of 40 bytes is recorded as 59. -/
theorem layouts_not_mirror :
    ¬ Related (fun st st' => (st.heap.structAt 0).Mirrors (st'.heap.structAt 0))
      (layoutCompound lp64 (alignment4.inOrder .littleEndian) 4 ⟨bigFieldHeap, blCreateMicrosoft⟩ 0)
      (layoutCompound lp64 (alignment4.inOrder .bigEndian) 4
        ⟨bigFieldHeap, blCreateMicrosoft⟩ 0) := by
  have hrun (order : CByteOrder) : (layoutCompound lp64 (alignment4.inOrder order) 4
      ⟨bigFieldHeap, blCreateMicrosoft⟩ 0).toOption.map
        (fun st => (st.heap.structAt 0).declarations) =
      some (some [{ declaration (.compound .struct 1) [{ bitfieldDecl "x" 5 with
        offset := 0, size := 40, ext := .bitfield ⟨40, 5, if order = .littleEndian then 0 else 59⟩ }]
        with offset := 0, size := 0 }]) := by
    cases order <;> decide +kernel
  intro h
  cases hlittle : layoutCompound lp64 (alignment4.inOrder .littleEndian) 4
      ⟨bigFieldHeap, blCreateMicrosoft⟩ 0 with
  | error e =>
    have hnone := hrun .littleEndian
    rw [hlittle] at hnone
    cases hnone
  | ok st =>
    rw [hlittle] at h
    obtain ⟨st', hbig, hmirrors⟩ := h.ok_left
    have hd := hrun .littleEndian
    have hd' := hrun .bigEndian
    rw [hlittle] at hd
    rw [hbig] at hd'
    have hsds := hmirrors _ _ (Option.some.inj hd) (Option.some.inj hd')
    obtain ⟨hsd, -⟩ := List.forall₂_cons.mp hsds
    obtain ⟨hfield, -⟩ := List.forall₂_cons.mp (hsd _ _ rfl rfl)
    have hpos := hfield _ _ rfl rfl (by decide)
    exact absurd hpos (by decide)

end ConvertBinaryC
