import ConvertBinaryC.CTLibExactRun

/-! Every number that the code stores in a type object is below the bound of its field,
since it is converted when it is stored. -/
namespace ConvertBinaryC
open FoldRules

def Stored.Below (v : Stored) : Prop := v.value < v.field.bound

instance : DecidablePred Stored.Below := fun v =>
  inferInstanceAs (Decidable (v.value < v.field.bound))

/-- All numbers in the compounds are below the bounds of their fields. -/
def Heap.StructsBelow (heap : Heap) : Prop :=
  ∀ s, ∀ v ∈ (heap.structAt s).stored, v.Below

section Step
variable {kind : CompoundKind} {alignment offset offset' pos : ℤ} {info : TypeInfo}
  {f f' : Frame} {pDecl pDecl' : Declarator}

theorem finishOpenBitfield_lt (hf : f.size < 4294967296) :
    (finishOpenBitfield f).size < 4294967296 := by
  unfold finishOpenBitfield
  split_ifs
  · exact u32_lt _
  · exact hf

theorem placeMember_lt (hf : f.size < 4294967296) (hinfo : info.size < 4294967296)
    (h : placeMember kind alignment info f = .ok (pos, f')) : f'.size < 4294967296 := by
  unfold placeMember at h
  dsimp only at h
  cases kind with
  | struct =>
    dsimp only at h
    split_ifs at h
    all_goals
      cases h
      exact u32_lt _
  | union =>
    dsimp only at h
    cases h
    dsimp only
    split_ifs
    · exact hinfo
    · exact hf

theorem layoutDeclarator_below (hf : f.size < 4294967296) (hinfo : info.size < 4294967296)
    (hoffset : offset < 2147483648)
    (h : layoutDeclarator kind alignment info f offset pDecl = .ok ((f', offset'), pDecl')) :
    f'.size < 4294967296 ∧ offset' < 2147483648 ∧ ∀ v ∈ pDecl'.stored, v.Below := by
  by_cases hbit : pDecl.isBitfield = true
  · obtain ⟨bit, hext⟩ := Declarator.isBitfield_iff.mp hbit
    unfold layoutDeclarator at h
    simp only [hext] at h
    obtain ⟨⟨f₁, d⟩, hpush, h⟩ := bind_ok h
    cases h
    obtain ⟨bl, -, hpush⟩ := bind_ok hpush
    obtain ⟨⟨error, bl', d⟩, hstep, hpush⟩ := bind_ok hpush
    cases error with
    | bitfieldTooWide => exact nomatch hpush
    | noError =>
      have hfields : ∀ v ∈ d.stored, v.Below := by
        rcases BitfieldLayouter.push_recorded hstep with ⟨hzero, hd⟩ | ⟨hbits, o, size, pos, hd⟩
        · have hbits : bit.bits = 0 := hzero
          have hstored : d.stored = [] := by
            rw [hd]
            simp only [Declarator.stored, hext, if_pos hbits]
          rw [hstored]
          exact fun v hv => absurd hv List.not_mem_nil
        · have hne : bit.bits ≠ 0 := hbits
          rw [hd]
          simp only [Declarator.stored, BLPushParam.record, if_neg hne, List.mem_cons,
            List.not_mem_nil, or_false, forall_eq_or_imp, forall_eq]
          exact ⟨s29_lt o, i32_lt size, u8_lt size⟩
      cases kind with
      | struct =>
        cases hpush
        exact ⟨hf, hoffset, hfields⟩
      | union =>
        cases hpush
        exact ⟨u32_lt _, hoffset, hfields⟩
  · rw [Bool.not_eq_true] at hbit
    rw [layoutDeclarator_ordinary hbit] at h
    obtain ⟨⟨pos, f₁⟩, hplace, h⟩ := bind_ok h
    cases h
    have hstart : (finishOpenBitfield (noteFlags f info false)).size < 4294967296 :=
      finishOpenBitfield_lt hf
    refine ⟨placeMember_lt hstart hinfo hplace, ?_, ?_⟩
    · split_ifs
      · exact i32_lt pos
      · exact hoffset
    · rw [Declarator.stored_placed hbit]
      simp only [List.mem_cons, List.not_mem_nil, or_false, forall_eq_or_imp, forall_eq]
      exact ⟨s29_lt pos, i32_lt info.size, i32_lt info.item_size⟩

end Step

section Query
variable {σ : Type} {I : σ → Prop} {query : TypeQuery σ} {kind : CompoundKind} {alignment : ℤ}

end Query

/-- The heap during the layouts that start from `heap₀`. -/
structure Heap.Widths (heap₀ heap : Heap) : Prop where
  structs : heap.StructsBelow
  enums : heap.enumAt = heap₀.enumAt
  typedefs : heap.typedefAt = heap₀.typedefAt

section Layout
variable {arch : NativeArch} {pLP : LayoutParam} {heap₀ : Heap}

theorem Heap.Widths.setStruct {heap : Heap} (h : heap₀.Widths heap) {s : ℕ} {pStruct : Struct}
    (hstored : ∀ v ∈ pStruct.stored, v.Below) : heap₀.Widths (heap.setStruct s pStruct) where
  structs := Heap.forall_setStruct (p := fun q => ∀ v ∈ q.stored, v.Below) hstored h.structs
  enums := h.enums
  typedefs := h.typedefs

end Layout

end ConvertBinaryC
