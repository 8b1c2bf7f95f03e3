import ConvertBinaryC.AbiRules
import ConvertBinaryC.CTLibLayoutHeld

/-! The layout of a compound without bit-fields. Its members are placed as the reference
rule says, as long as the offsets and the size fit the fields in which they are stored. -/
namespace ConvertBinaryC
open FoldRules AbiRules
open BitCounterRules (roundUp roundUp_isLeast)

def CompoundKind.overlay (kind : CompoundKind) : Bool :=
  match kind with
  | .struct => false
  | .union => true

/-- A member as the rule sees it. -/
def MemberStep.part (alignment : ℤ) (step : MemberStep) : Part :=
  ⟨step.info.size, min step.info.align alignment⟩

/-- The offset that is recorded for a member. -/
def Placed.offset (placed : Placed) : ℤ :=
  match placed with
  | .declarator pDecl => pDecl.offset
  | .unnamed offset _ => offset

/-- The field for the offset of a declarator has 29 bits with the sign, that of a
declaration is an int. -/
def MemberStep.bound (step : MemberStep) : ℤ :=
  match step.member.pDecl with
  | some _ => 268435456
  | none => 2147483648

/-- What is known about the members: their sizes are unsigned. -/
structure MemberStep.Ordinary (step : MemberStep) : Prop where
  bitfield : step.member.isBitfield = false
  size : 0 ≤ step.info.size ∧ step.info.size < 4294967296
  align : Small step.info.align

/-- The compound is laid out as the rule says. -/
structure Struct.FollowsAbi (kind : CompoundKind) (alignment compoundAlignment : ℤ)
    (parts : List Part) (pStruct : Struct) : Prop where
  offsets : pStruct.placed.map Placed.offset = starts kind.overlay 0 parts
  align : pStruct.align = AbiRules.alignment (min alignment compoundAlignment) parts
  size : IsSize pStruct.align (ends kind.overlay 0 parts) pStruct.size

/-- The rule's offsets and the size fit the fields. -/
structure AbiFits (kind : CompoundKind) (alignment compoundAlignment : ℤ)
    (steps : List MemberStep) : Prop where
  offsets : List.Forall₂ (fun step start => start < step.bound) steps
    (starts kind.overlay 0 (steps.map (MemberStep.part alignment)))
  size : ∃ size, IsSize
    (AbiRules.alignment (min alignment compoundAlignment)
      (steps.map (MemberStep.part alignment)))
    (ends kind.overlay 0 (steps.map (MemberStep.part alignment))) size ∧ size < 4294967296

section Step
variable {kind : CompoundKind} {alignment : ℤ} {f : Frame} {step : MemberStep}

theorem MemberStep.Ordinary.part_align (h : step.Ordinary) (hA : Small alignment) :
    Small (step.part alignment).align :=
  ⟨lt_min h.align.1 hA.1, (min_le_right _ _).trans_lt hA.2⟩

/-- What is recorded for a member that `placeMember` puts at `pos`. -/
def MemberStep.recorded (kind : CompoundKind) (step : MemberStep) (pos size : ℤ) : ℤ :=
  match step.member.pDecl with
  | some _ => s29 pos
  | none => declarationOffset kind pos size

theorem MemberStep.recorded_lt (pos size : ℤ) : step.recorded kind pos size < step.bound := by
  unfold recorded bound
  cases step.member.pDecl with
  | some pDecl => exact s29_lt pos
  | none => exact declarationOffset_lt kind pos size

/-- The position and the size after a member, as `placeMember` computes them. -/
def nextPlace (kind : CompoundKind) (part : Part) (size : ℤ) : ℤ × ℤ :=
  match kind with
  | .struct => (paddedSize size part.align, u32 (paddedSize size part.align + part.size))
  | .union => (0, max size part.size)

theorem placeMember_next (hA : Small alignment) (h : step.Ordinary) :
    placeMember kind alignment step.info f =
      .ok ((nextPlace kind (step.part alignment) f.size).1, { f with
        align := max f.align (step.part alignment).align
        size := (nextPlace kind (step.part alignment) f.size).2 }) := by
  have hpart := h.part_align hA
  have hmin : (if step.info.align > alignment then alignment else step.info.align) =
      (step.part alignment).align := by
    show _ = min step.info.align alignment
    split_ifs <;> omega
  have hmax : (if (step.part alignment).align > f.align then u16 (step.part alignment).align
      else f.align) = max f.align (step.part alignment).align := by
    rw [u16_of_lt hpart.1.le hpart.2]
    split_ifs <;> omega
  unfold placeMember
  rw [hmin]
  dsimp only
  rw [hmax]
  cases kind with
  | struct =>
    rw [if_neg hpart.1.ne']
    rfl
  | union =>
    have hsize : (if step.info.size > f.size then step.info.size else f.size) =
        max f.size step.info.size := by
      split_ifs <;> omega
    dsimp only
    rw [hsize]
    rfl

/-- One member. -/
theorem memberStep_ordinary (hA : Small alignment) (h : step.Ordinary)
    (hclosed : f.in_bitfield = false) :
    ∃ f' placed, memberStep kind alignment f step = .ok (f', placed) ∧
      f'.in_bitfield = false ∧ f'.align = max f.align (step.part alignment).align ∧
      f'.size = (nextPlace kind (step.part alignment) f.size).2 ∧
      placed.offset = step.recorded kind (nextPlace kind (step.part alignment) f.size).1 f'.size := by
  have hopen : finishOpenBitfield f = f := by
    unfold finishOpenBitfield
    rw [hclosed, if_neg Bool.false_ne_true]
  have hplace : placeMember kind alignment step.info (noteFlags f step.info false) = _ :=
    placeMember_next hA h
  have hbit := h.bitfield
  unfold Member.isBitfield at hbit
  unfold memberStep MemberStep.recorded
  cases hdecl : step.member.pDecl with
  | none =>
    dsimp only
    rw [hopen, hplace, call_bind_apply]
    exact ⟨_, _, rfl, hclosed, rfl, rfl, rfl⟩
  | some pDecl =>
    rw [hdecl, Option.any_some] at hbit
    dsimp only
    rw [layoutDeclarator_ordinary hbit, finishOpenBitfield_noteFlags, hopen, hplace, call_bind_apply,
      call_bind_apply]
    exact ⟨_, _, rfl, hclosed, rfl, rfl, rfl⟩

theorem nextPlace_range (kind : CompoundKind) {part : Part} {size : ℤ}
    (hsize : 0 ≤ size ∧ size < 4294967296) (hpart : part.size < 4294967296) :
    0 ≤ (nextPlace kind part size).2 ∧ (nextPlace kind part size).2 < 4294967296 := by
  cases kind with
  | struct => exact ⟨u32_nonneg _, u32_lt _⟩
  | union => exact ⟨le_max_of_le_left hsize.1, max_lt hsize.2 hpart⟩

/-- As long as the start and the end fit their fields, nothing is cut off. -/
theorem nextPlace_exact (hA : Small alignment) (h : step.Ordinary) {size : ℤ} (hsize : 0 ≤ size)
    (hstart : (step.part alignment).start kind.overlay size < step.bound)
    (hend : max size ((step.part alignment).start kind.overlay size + step.info.size) <
      4294967296) :
    (nextPlace kind (step.part alignment) size).2 =
        max size ((step.part alignment).start kind.overlay size + step.info.size) ∧
      step.recorded kind (nextPlace kind (step.part alignment) size).1
          (nextPlace kind (step.part alignment) size).2 =
        (step.part alignment).start kind.overlay size := by
  have hpart := h.part_align hA
  have hnonneg := h.size.1
  have hbound : step.bound ≤ 2147483648 := by
    unfold MemberStep.bound
    split <;> decide
  cases kind with
  | union =>
    have hzero : (step.part alignment).start CompoundKind.union.overlay size = 0 := rfl
    rw [hzero, zero_add]
    refine ⟨rfl, ?_⟩
    unfold MemberStep.recorded
    cases step.member.pDecl with
    | some pDecl => rfl
    | none => rfl
  | struct =>
    have hround : (step.part alignment).start CompoundKind.struct.overlay size =
        roundUp size (step.part alignment).align := rfl
    rw [hround] at hstart hend ⊢
    have hle : size ≤ roundUp size (step.part alignment).align :=
      (roundUp_isLeast size hpart.1).1.1
    rw [max_eq_right (by omega)] at hend ⊢
    have hpadded : paddedSize size (step.part alignment).align =
        roundUp size (step.part alignment).align :=
      paddedSize_eq_roundUp hsize (by omega) hpart.1
    have hu32 : u32 (roundUp size (step.part alignment).align + step.info.size) =
        roundUp size (step.part alignment).align + step.info.size := u32_of_lt (by omega) hend
    unfold nextPlace
    dsimp only
    rw [hpadded]
    refine ⟨hu32, ?_⟩
    unfold MemberStep.recorded
    unfold MemberStep.bound at hstart
    cases hdecl : step.member.pDecl with
    | some pDecl =>
      rw [hdecl] at hstart
      exact s29_of_lt (by omega) hstart
    | none =>
      rw [hdecl] at hstart
      exact declarationOffset_struct (by omega) hstart

/-- What a run over ordinary members leaves behind. -/
structure RunResult (kind : CompoundKind) (alignment : ℤ) (steps : List MemberStep) (f f' : Frame)
    (placed : List Placed) : Prop where
  closed : f'.in_bitfield = false
  align : f'.align = AbiRules.alignment f.align (steps.map (MemberStep.part alignment))
  small : Small f'.align
  size : 0 ≤ f'.size ∧ f'.size < 4294967296
  bounds : List.Forall₂ (fun step p => p.offset < step.bound) steps placed
  exact :
    List.Forall₂ (fun step start => start < step.bound) steps
      (starts kind.overlay f.size (steps.map (MemberStep.part alignment))) →
    (ends kind.overlay f.size (steps.map (MemberStep.part alignment))).foldl max f.size <
      4294967296 →
    placed.map Placed.offset =
        starts kind.overlay f.size (steps.map (MemberStep.part alignment)) ∧
      f'.size = (ends kind.overlay f.size (steps.map (MemberStep.part alignment))).foldl max f.size

theorem ordinary_run (hA : Small alignment) {steps : List MemberStep}
    (hsteps : ∀ step ∈ steps, step.Ordinary) (hclosed : f.in_bitfield = false)
    (halign : Small f.align) (hsize : 0 ≤ f.size ∧ f.size < 4294967296) :
    ∃ f' placed, mapAccumM (memberStep kind alignment) f steps = .ok (f', placed) ∧
      RunResult kind alignment steps f f' placed := by
  induction steps generalizing f with
  | nil =>
    exact ⟨f, [], rfl, ⟨hclosed, rfl, halign, hsize, .nil, fun _ _ => ⟨rfl, rfl⟩⟩⟩
  | cons step steps ih =>
    have h := hsteps step List.mem_cons_self
    obtain ⟨f₁, p, hstep, hclosed₁, halign₁, hsize₁, hoffset⟩ := memberStep_ordinary hA h hclosed
    have hpart := h.part_align hA
    have hsmall₁ : Small f₁.align := by
      rw [halign₁]
      exact ⟨lt_max_of_lt_left halign.1, max_lt halign.2 hpart.2⟩
    have hrange₁ : 0 ≤ f₁.size ∧ f₁.size < 4294967296 := by
      rw [hsize₁]
      exact nextPlace_range kind hsize h.size.2
    obtain ⟨f', placed, hrun, hresult⟩ :=
      ih (fun step hmem => hsteps step (List.mem_cons_of_mem _ hmem)) hclosed₁ hsmall₁ hrange₁
    refine ⟨f', p :: placed, mapAccumM_cons_ok hstep hrun, ?_⟩
    have hrest := hresult.exact
    rw [hsize₁] at hrest hoffset
    refine ⟨hresult.closed, ?_, hresult.small, hresult.size, .cons ?_ hresult.bounds, ?_⟩
    · rw [hresult.align, halign₁]
      rfl
    · rw [hoffset]
      exact step.recorded_lt _ _
    · intro hstarts hends
      rw [List.map_cons, ends, List.foldl_cons] at hends
      have hcons : starts kind.overlay f.size ((step :: steps).map (MemberStep.part alignment)) =
          (step.part alignment).start kind.overlay f.size :: starts kind.overlay
            ((step.part alignment).start kind.overlay f.size + (step.part alignment).size)
            (steps.map (MemberStep.part alignment)) := rfl
      rw [hcons] at hstarts ⊢
      rw [List.map_cons, List.map_cons, ends, List.foldl_cons]
      obtain ⟨hstart, hstarts⟩ := List.forall₂_cons.mp hstarts
      have hend : max f.size ((step.part alignment).start kind.overlay f.size + step.info.size) <
          4294967296 := (le_foldl_max _ _).trans_lt hends
      obtain ⟨hnext, hrecorded⟩ := nextPlace_exact hA h hsize.1 hstart hend
      have hstartsNext := starts_next kind.overlay f.size h.size.1 hpart.1
        (steps.map (MemberStep.part alignment))
      have hendsNext := ends_next kind.overlay f.size h.size.1 hpart.1
        (steps.map (MemberStep.part alignment))
      rw [hnext] at hrest
      rw [hrecorded] at hoffset
      rw [hstartsNext] at hstarts ⊢
      rw [hendsNext] at hends ⊢
      obtain ⟨hoffsets, hsize'⟩ := hrest hstarts hends
      exact ⟨congrArg₂ List.cons hoffset hoffsets, hsize'⟩

end Step

section Compound
variable {arch : NativeArch} {pLP : LayoutParam} {heap : Heap} {s : ℕ}

/-- The result of a run follows the rule if and only if the rule's numbers fit. -/
theorem RunResult.followsAbi_iff {kind : CompoundKind} {alignment compoundAlignment : ℤ}
    {steps : List MemberStep} {f f' : Frame} {pStruct : Struct}
    (h : RunResult kind alignment steps f f' pStruct.placed) (hzero : f.size = 0)
    (halign : f.align = min alignment compoundAlignment) (hstruct : pStruct.align = f'.align)
    (hsize : pStruct.size = paddedSize f'.size f'.align) :
    pStruct.FollowsAbi kind alignment compoundAlignment (steps.map (MemberStep.part alignment)) ↔
      AbiFits kind alignment compoundAlignment steps := by
  have hresult := h.align
  have hexact := h.exact
  rw [halign] at hresult
  rw [hzero] at hexact
  constructor
  · intro hfollows
    refine ⟨?_, pStruct.size, ?_, ?_⟩
    · rw [← hfollows.offsets, List.forall₂_map_right_iff]
      exact h.bounds
    · rw [← hresult, ← hstruct]
      exact hfollows.size
    · rw [hsize]
      exact paddedSize_lt h.size.2
  · intro hfits
    obtain ⟨size, hleast, hlt⟩ := hfits.size
    rw [← hresult, isSize_iff h.small.1] at hleast
    generalize hends : ends kind.overlay 0 (steps.map (MemberStep.part alignment)) = ends' at *
    have hle : ends'.foldl max 0 ≤ roundUp (ends'.foldl max 0) f'.align :=
      (roundUp_isLeast _ h.small.1).1.1
    obtain ⟨hoffsets, hextent⟩ := hexact hfits.offsets (by omega)
    refine ⟨hoffsets, hstruct.trans hresult, ?_⟩
    have hpadded : paddedSize f'.size f'.align = roundUp f'.size f'.align :=
      paddedSize_eq_roundUp h.size.1 (by rw [hextent]; omega) h.small.1
    rw [hstruct, hends, isSize_iff h.small.1, hsize, hpadded, hextent]

theorem abiFits_congr {kind : CompoundKind} {alignment compoundAlignment : ℤ}
    {codeSteps steps : List MemberStep} (h : List.Forall₂ MemberStep.Sees codeSteps steps) :
    AbiFits kind alignment compoundAlignment codeSteps ↔
      AbiFits kind alignment compoundAlignment steps := by
  have hparts : codeSteps.map (MemberStep.part alignment) = steps.map (MemberStep.part alignment) :=
    map_sees h fun hsees => by rw [MemberStep.part, MemberStep.part, hsees.size, hsees.align]
  have hbounds : codeSteps.map MemberStep.bound = steps.map MemberStep.bound :=
    map_sees h fun hsees => by rw [MemberStep.bound, MemberStep.bound, hsees.member]
  have hoffsets {l : List ℤ} : List.Forall₂ (fun step start => start < step.bound) codeSteps l ↔
      List.Forall₂ (fun step start => start < step.bound) steps l := by
    rw [← List.forall₂_map_left_iff (f := MemberStep.bound) (R := fun bound start => start < bound),
      hbounds, List.forall₂_map_left_iff]
  constructor
  · rintro ⟨h, hsize⟩
    exact ⟨hparts ▸ hoffsets.mp h, hparts ▸ hsize⟩
  · rintro ⟨h, hsize⟩
    exact ⟨hparts ▸ hoffsets.mpr h, hparts ▸ hsize⟩

section Layout
variable {bl : BitfieldLayouter} {depth : ℕ} {steps : List MemberStep}
  (hoptions : SmallOptions arch pLP) (hsane : heap.Sane pLP)
  (hbody : (heap.structAt s).declarations.isSome) (hfresh : (heap.structAt s).size = 0)
  (hsteps : DeclaredSteps arch pLP heap s depth steps)
  (hordinary : ∀ m ∈ (heap.structAt s).members, m.isBitfield = false)
include hoptions hsane hbody hfresh hsteps hordinary

/-- The layout by the steps of the code. -/
theorem layoutCompound_ordinary {codeSteps : List MemberStep}
    (hcode : Steps (heldInfo arch pLP heap depth) (heap.structAt s).members codeSteps) :
    ∃ st, layoutCompound arch pLP (depth + 1) ⟨heap, bl⟩ s = .ok st ∧
      (st.heap.structAt s).size < 4294967296 ∧
      ((st.heap.structAt s).FollowsAbi (heap.structAt s).kind
          (structAlignment arch pLP (heap.structAt s)) (layoutCompoundAlignment arch pLP)
          (codeSteps.map (MemberStep.part (structAlignment arch pLP (heap.structAt s)))) ↔
        AbiFits (heap.structAt s).kind (structAlignment arch pLP (heap.structAt s))
          (layoutCompoundAlignment arch pLP) codeSteps) := by
  have hA := structAlignment_small hoptions hsane s
  have hcompound := hoptions.compound_alignment
  have hrunOk := @layoutCompound_of_run arch pLP heap s depth bl (heap.structAt s).members codeSteps
  generalize halignment : structAlignment arch pLP (heap.structAt s) = alignment at *
  have hcodeOrdinary (step : MemberStep) (hstep : step ∈ codeSteps) : step.Ordinary := by
    have hmem : step.member ∈ (heap.structAt s).members := hcode.1 ▸ List.mem_map_of_mem hstep
    obtain ⟨hsize, halign⟩ := hsteps.size_lt hoptions hsane hcode hstep
    exact ⟨hordinary _ hmem, hsize, halign⟩
  have halignInit : (initialFrame arch pLP bl (heap.structAt s)).align =
      min alignment (layoutCompoundAlignment arch pLP) := by
    have hmin : (if alignment < layoutCompoundAlignment arch pLP then alignment
        else layoutCompoundAlignment arch pLP) = min alignment (layoutCompoundAlignment arch pLP) := by
      split_ifs <;> omega
    simp only [initialFrame, halignment, hmin]
    exact u16_of_lt (lt_min hA.1 hcompound.1).le ((min_le_left _ _).trans_lt hA.2)
  have hsmallInit : Small (initialFrame arch pLP bl (heap.structAt s)).align := by
    rw [halignInit]
    exact ⟨lt_min hA.1 hcompound.1, (min_le_left _ _).trans_lt hA.2⟩
  have hsizeInit : (initialFrame arch pLP bl (heap.structAt s)).size = 0 := hfresh
  obtain ⟨f, placed, hrun, hresult⟩ : ∃ f placed,
      mapAccumM (memberStep (heap.structAt s).kind alignment)
        (initialFrame arch pLP bl (heap.structAt s)) codeSteps = .ok (f, placed) ∧
      RunResult (heap.structAt s).kind alignment codeSteps
        (initialFrame arch pLP bl (heap.structAt s)) f placed :=
    ordinary_run hA hcodeOrdinary rfl hsmallInit (by rw [hsizeInit]; decide)
  have hclosed : finishOpenBitfield f = f := by
    unfold finishOpenBitfield
    rw [hresult.closed, if_neg Bool.false_ne_true]
  obtain ⟨st, hok, hplaced, halign, hsize⟩ := hrunOk hbody rfl (hsteps.known hoptions hsane) hcode
    hrun (by rw [hclosed]; exact hresult.small.1.ne')
  rw [hclosed] at halign hsize
  refine ⟨st, hok, hsize ▸ paddedSize_lt hresult.size.2, ?_⟩
  rw [← hplaced] at hresult
  exact hresult.followsAbi_iff hsizeInit halignInit halign hsize

/-- The layout of a compound whose members are no bit-fields and hold only types that are
laid out. -/
theorem layout_follows_abi_iff :
    (∃ st, layoutCompound arch pLP (depth + 1) ⟨heap, bl⟩ s = .ok st ∧
      (st.heap.structAt s).FollowsAbi (heap.structAt s).kind
        (structAlignment arch pLP (heap.structAt s)) (layoutCompoundAlignment arch pLP)
        (steps.map (MemberStep.part (structAlignment arch pLP (heap.structAt s))))) ↔
      (∀ step ∈ steps, step.member.LongProducts arch pLP heap s depth) ∧
        AbiFits (heap.structAt s).kind (structAlignment arch pLP (heap.structAt s))
          (layoutCompoundAlignment arch pLP) steps := by
  have hlaid {codeSteps : List MemberStep} := @layoutCompound_ordinary arch pLP heap s bl depth
    steps hoptions hsane hbody hfresh hsteps hordinary codeSteps
  have hA := structAlignment_small hoptions hsane s
  generalize structAlignment arch pLP (heap.structAt s) = alignment at *
  -- a compound whose size fits has only members whose sizes do
  have hsees {codeSteps : List MemberStep} {align size : ℤ}
      (hcode : Steps (heldInfo arch pLP heap depth) (heap.structAt s).members codeSteps)
      (hsize : IsSize align (ends (heap.structAt s).kind.overlay 0
        (steps.map (MemberStep.part alignment))) size) (hlt : size < 4294967296) :
      List.Forall₂ MemberStep.Sees codeSteps steps := by
    apply hsteps.sees hoptions hsane hcode
    intro step hstep
    have hpart : ∀ part ∈ steps.map (MemberStep.part alignment), 0 ≤ part.size ∧ 0 < part.align := by
      intro part hmem
      obtain ⟨step, hstep, rfl⟩ := List.mem_map.mp hmem
      obtain ⟨info, -, hsame⟩ := hsteps.same hoptions hsane hcode hstep
      exact ⟨hsame.exact_nonneg, lt_min hsame.align_pos hA.1⟩
    obtain ⟨e, he, hle⟩ := size_le_end (heap.structAt s).kind.overlay hpart le_rfl
      (List.mem_map_of_mem hstep)
    exact (hle.trans (hsize.1.2.2 e he)).trans_lt hlt
  have hparts {codeSteps : List MemberStep} (h : List.Forall₂ MemberStep.Sees codeSteps steps) :
      codeSteps.map (MemberStep.part alignment) = steps.map (MemberStep.part alignment) :=
    map_sees h fun hsees => by rw [MemberStep.part, MemberStep.part, hsees.size, hsees.align]
  constructor
  · rintro ⟨st, hok, hfollows⟩
    obtain ⟨codeSteps, f, placed, hcode, -⟩ :=
      layoutCompound_run hbody rfl (hsteps.known hoptions hsane) hok
    obtain ⟨st', hok', hlt, hiff⟩ := hlaid hcode
    rw [hok] at hok'
    cases hok'
    have hall := hsees hcode hfollows.size hlt
    rw [hparts hall, abiFits_congr hall] at hiff
    exact ⟨(hsteps.long_iff hoptions hsane).mp ⟨codeSteps, hcode⟩, hiff.mp hfollows⟩
  · rintro ⟨hproducts, hfits⟩
    obtain ⟨codeSteps, hcode⟩ := (hsteps.long_iff hoptions hsane).mpr hproducts
    obtain ⟨st, hok, -, hiff⟩ := hlaid hcode
    obtain ⟨size, hsize, hlt⟩ := hfits.size
    have hall := hsees hcode hsize hlt
    rw [hparts hall, abiFits_congr hall] at hiff
    exact ⟨st, hok, hiff.mpr hfits⟩

end Layout

end Compound

/-- The members of `smallStruct` with what is known about their types. -/
def smallSteps : List MemberStep :=
  [⟨⟨.basic T_CHAR, some (declNew "c")⟩, ⟨1, 1, 1, false, false, false⟩⟩,
    ⟨⟨.basic T_INT, some (arrayDecl "a" 3)⟩, ⟨12, 4, 4, false, false, false⟩⟩]

theorem layout_follows_abi_iff_small :
    (∃ st, layoutCompound lp64 alignment4 2 ⟨singleHeap smallStruct, blCreateGeneric⟩ 0 = .ok st ∧
      (st.heap.structAt 0).FollowsAbi smallStruct.kind (structAlignment lp64 alignment4 smallStruct)
        (layoutCompoundAlignment lp64 alignment4)
        (smallSteps.map (MemberStep.part (structAlignment lp64 alignment4 smallStruct)))) ↔
      (∀ step ∈ smallSteps, step.member.LongProducts lp64 alignment4 (singleHeap smallStruct) 0 1) ∧
        AbiFits smallStruct.kind (structAlignment lp64 alignment4 smallStruct)
          (layoutCompoundAlignment lp64 alignment4) smallSteps := by
  have hsane : (singleHeap smallStruct).Sane alignment4 := singleHeap_sane rfl rfl rfl
  have hdeclared : ∀ step ∈ smallSteps,
      declaredInfo .declared lp64 alignment4 (singleHeap smallStruct) 0 1 step.member =
        some step.info := by
    intro step hstep
    rcases List.mem_pair.mp hstep with rfl | rfl
    · decide +kernel
    · decide +kernel
  exact layout_follows_abi_iff smallOptions_lp64 hsane rfl rfl ⟨rfl, hdeclared⟩
    (by decide : ∀ m ∈ smallStruct.members, m.isBitfield = false)

/-- `struct { char c[268435456]; int i; }` -/
def farStruct : Struct :=
  structOf "far" [declaration (.basic T_CHAR) [arrayDecl "c" 268435456],
    declaration (.basic T_INT) [declNew "i"]]

/-- The sizes and alignments of its members. -/
def farParts : List Part := [⟨268435456, 1⟩, ⟨4, 4⟩]

/-- The offset 2^28 of the second member is recorded as -2^28. -/
theorem layout_off_abi :
    ∃ st, layoutCompound lp64 alignment4 2 ⟨singleHeap farStruct, blCreateGeneric⟩ 0 = .ok st ∧
      ¬ (st.heap.structAt 0).FollowsAbi .struct 4 1 farParts := by
  have hoffsets : (layoutCompound lp64 alignment4 2 ⟨singleHeap farStruct, blCreateGeneric⟩
      0).toOption.map (fun st => (st.heap.structAt 0).placed.map Placed.offset) =
        some [0, -268435456] := by decide +kernel
  cases hst : layoutCompound lp64 alignment4 2 ⟨singleHeap farStruct, blCreateGeneric⟩ 0 with
  | error e =>
    rw [hst] at hoffsets
    exact nomatch hoffsets
  | ok st =>
    rw [hst] at hoffsets
    refine ⟨st, rfl, ?_⟩
    intro hfollows
    have hcode : (st.heap.structAt 0).placed.map Placed.offset = [0, -268435456] :=
      Option.some.inj hoffsets
    have hrule := hfollows.offsets
    rw [hcode] at hrule
    exact absurd hrule (by decide +kernel)

end ConvertBinaryC
