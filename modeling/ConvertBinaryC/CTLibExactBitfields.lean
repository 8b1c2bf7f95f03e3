import ConvertBinaryC.CTLibBitfieldCursor
import ConvertBinaryC.CTLibExactLayout

/-! What the layout reads from the layouters of bit-fields, and what these record: if a
storage unit fits its fields, it is recorded as it is. -/
namespace ConvertBinaryC
open FoldRules

/-- The maximal alignment of a layouter has 16 bits. -/
structure BitfieldLayouter.Narrow (bl : BitfieldLayouter) : Prop where
  nonneg : 0 ≤ bl.max_align
  lt : bl.max_align < 65536

section Layouter
variable {self self' : BitfieldLayouter} {p : BLPushParam} {error : BLError}
  {pDecl : Declarator}

theorem BitfieldLayouter.Narrow.of_like (h : self.Narrow) (hlike : self.Like self') :
    self'.Narrow :=
  ⟨hlike.max_align ▸ h.nonneg, hlike.max_align ▸ h.lt⟩

/-- The alignment of a type is never above that of the layouter. -/
theorem BitfieldLayouter.typeAlign_le (self : BitfieldLayouter) (p : BLPushParam) :
    self.typeAlign p ≤ self.max_align := by
  unfold typeAlign
  split_ifs with h
  · exact h.le
  · exact le_rfl

/-- A push reads the size of a type as an int. -/
theorem BitfieldLayouter.push_congr (self : BitfieldLayouter) (pDecl : Declarator)
    (bit : BitfieldInfo) {type_size type_size' : ℤ} (type_align : ℤ)
    (h : i32 type_size = i32 type_size') :
    self.push ⟨pDecl, bit, type_size, type_align⟩ =
      self.push ⟨pDecl, bit, type_size', type_align⟩ := by
  unfold push
  cases self.blc with
  | generic u =>
    dsimp only [genericPush, genericTypeChange, typeAlign]
    rw [h]
    rfl
  | microsoft u =>
    dsimp only [microsoftPush, microsoftTypeChange, typeAlign]
    rw [h]
    rfl
  | simple b => rfl

/-- A zero width records nothing, and every other field records its storage unit. -/
theorem BitfieldLayouter.push_recorded (h : self.push p = .ok (.noError, self', pDecl)) :
    (p.bit.bits = 0 ∧ pDecl = p.pDecl) ∨
      (p.bit.bits ≠ 0 ∧ ∃ offset size pos, pDecl = p.record offset size pos) := by
  cases hblc : self.blc with
  | generic u =>
    simp only [push, hblc] at h
    obtain ⟨v, offset, bit_offset, -, -, -, hcases⟩ := genericPush_ok h
    rcases hcases with ⟨hzero, -, -, hdecl, -⟩ | ⟨hzero, -, hdecl, -⟩ | ⟨hbits, size, -, hdecl, -⟩
    · exact Or.inl ⟨hzero, hdecl⟩
    · exact Or.inl ⟨hzero, hdecl⟩
    · exact Or.inr ⟨hbits, offset, size, _, hdecl⟩
  | microsoft u =>
    simp only [push, hblc] at h
    obtain ⟨changed, v, -, -, -, hcases⟩ := microsoftPush_ok h
    rcases hcases with ⟨hzero, hdecl, -⟩ | ⟨hbits, offset, bit_offset, -, -, hdecl, -⟩
    · exact Or.inl ⟨hzero, hdecl⟩
    · exact Or.inr ⟨hbits, offset, _, _, hdecl⟩
  | simple b =>
    simp only [push, hblc, Except.ok.injEq] at h
    unfold simplePush simplePlace at h
    split_ifs at h with hbits
    · cases h
      exact Or.inl ⟨hbits, rfl⟩
    · cases h
      exact Or.inr ⟨hbits, _, _, _, rfl⟩
    · cases h
      exact Or.inr ⟨hbits, _, _, _, rfl⟩

/-- A storage unit that fits its fields is recorded as it is. -/
theorem BitfieldLayouter.push_exactRecord (hbits : p.bit.bits ≠ 0)
    (h : self.push p = .ok (.noError, self', pDecl))
    (hfits : ∀ v ∈ (self'.exactRecord pDecl).stored, v.Fits) :
    self'.exactRecord pDecl = pDecl := by
  -- the recorded numbers, before the conversions
  have hrecord {offset size pos : ℤ} (hoffset : 0 ≤ offset ∧ offset < 268435456)
      (hsize : 0 ≤ size ∧ size < 2147483648 ∧ size < 256) :
      p.record offset size pos = { p.pDecl with
        offset := offset, size := size, ext := .bitfield ⟨size, p.bit.bits, u8 pos⟩ } := by
    unfold BLPushParam.record
    rw [s29_of_lt (by omega) hoffset.2, i32_of_lt (by omega) hsize.2.1, u8_of_lt hsize.1 hsize.2.2]
  cases hblc : self.blc with
  | generic u =>
    simp only [push, hblc] at h
    obtain ⟨v, offset, bit_offset, -, -, -, hcases⟩ := genericPush_ok h
    rcases hcases with ⟨hzero, -⟩ | ⟨hzero, -⟩ | ⟨-, used_bytes, hused, hdecl, hoff, hblc'⟩
    · exact absurd hzero hbits
    · exact absurd hzero hbits
    · have hsize := (usedBytes_ok hused).2
      unfold exactRecord at hfits ⊢
      rw [hblc', hoff] at hfits ⊢
      dsimp only at hfits ⊢
      have hoffset : (⟨.declaratorOffset, offset⟩ : Stored).Fits := by
        apply hfits
        rw [hdecl]
        simp [Declarator.stored, BLPushParam.record, hbits]
      rw [hdecl, hrecord hoffset (by omega)]
  | microsoft u =>
    simp only [push, hblc] at h
    obtain ⟨changed, v, -, -, -, hcases⟩ := microsoftPush_ok h
    rcases hcases with ⟨hzero, -⟩ | ⟨-, offset, bit_offset, -, -, hdecl, hoff, hblc'⟩
    · exact absurd hzero hbits
    · unfold exactRecord at hfits ⊢
      rw [hblc', hoff, hdecl] at hfits ⊢
      dsimp only [BLPushParam.record] at hfits
      simp only [Declarator.stored, if_neg hbits, List.mem_cons, List.not_mem_nil, or_false,
        forall_eq_or_imp, forall_eq] at hfits
      obtain ⟨hoffset, hint, hchar⟩ := hfits
      rw [hrecord hoffset ⟨hint.1, hint.2, hchar.2⟩]
  | simple b =>
    simp only [push, hblc, Except.ok.injEq] at h
    have hplace (c : BLBlock) (hsize : c.block_size = b.block_size)
        (hc : simplePlace self c p = (.noError, self', pDecl)) : self'.exactRecord pDecl = pDecl := by
      cases hc
      unfold exactRecord at hfits ⊢
      dsimp only [BLPushParam.record] at hfits
      simp only [Declarator.stored, if_neg hbits, List.mem_cons, List.not_mem_nil, or_false,
        forall_eq_or_imp, forall_eq] at hfits
      obtain ⟨hoffset, hint, hchar⟩ := hfits
      dsimp only
      rw [hrecord hoffset ⟨hint.1, hint.2, hchar.2⟩]
    unfold simplePush at h
    rw [if_neg hbits] at h
    split_ifs at h
    · exact hplace (simpleNextBlock b) rfl h
    · exact hplace b rfl h

theorem microsoftFlush_unitInit (self : BitfieldLayouter) :
    microsoftFlush self unitInit = (self, unitInit) := if_neg (lt_irrefl 0)

/-- A single field at the start of a union ends far below 2^32. -/
theorem BitfieldLayouter.single_lt (hmax : self.Narrow)
    (hunit : ∀ u, self.blc = .generic u ∨ self.blc = .microsoft u → u = unitInit)
    (hblock : ∀ b, self.blc = .simple b → b.pos = 0) (hoffset : self.offset = 0)
    (halign : 0 ≤ i32 p.type_align) (h : self.push p = .ok (.noError, self', pDecl)) :
    self'.finalize.offset < 4294967296 := by
  have htype : 0 ≤ self.typeAlign p := by
    unfold typeAlign
    split_ifs
    · exact halign
    · exact hmax.nonneg
  have hmaxLt := hmax.lt
  have htypeLe := self.typeAlign_le p
  have hsize := i32_lt p.type_size
  cases hblc : self.blc with
  | generic u =>
    obtain rfl := hunit u (Or.inl hblc)
    simp only [push, hblc] at h
    obtain ⟨v, offset, bit_offset, ⟨changed, hchange, hadvance⟩, -, -, hcases⟩ := genericPush_ok h
    have hstart : changed.offset = 0 ∧ v.bit_offset = 0 ∧ 0 ≤ v.cur_type_align ∧
        v.cur_type_align < 65536 := by
      unfold genericTypeChange at hchange
      split_ifs at hchange
      · cases hchange
        exact ⟨hoffset, rfl, le_rfl, by decide⟩
      · dsimp only at hchange
        split_ifs at hchange
        cases hchange
        dsimp only
        rw [hoffset, Int.zero_tmod]
        exact ⟨rfl, rfl, htype, by omega⟩
    obtain ⟨hchanged, hbit, halign, halignLt⟩ := hstart
    -- the loop makes at most one step
    have hslot : offset < 65536 ∧ bit_offset = 0 := by
      rw [hchanged, hbit] at hadvance
      simp only [genericAdvance, Int.toNat_zero, zero_add] at hadvance
      split_ifs at hadvance
      · cases hadvance
        omega
      · cases hadvance
        omega
    rcases hcases with ⟨-, hpos, -⟩ | ⟨-, -, -, hoff, hblc'⟩ | ⟨-, used_bytes, hused, -, hoff, hblc'⟩
    · omega
    · simp only [finalize, hblc', genericFinalize, hoff, hslot.2]
      have hzero : (0 + 7 : ℤ).tdiv 8 = 0 := by decide
      omega
    · have hroom := usedBytes_ok hused
      have hbytes : (bit_offset + p.bit.bits + 7).tdiv 8 ≤ (71 : ℤ).tdiv 8 :=
        Int.tdiv_le_tdiv (by decide) (by omega)
      have height : (71 : ℤ).tdiv 8 = 8 := by decide
      simp only [finalize, hblc', genericFinalize, hoff]
      omega
  | microsoft u =>
    obtain rfl := hunit u (Or.inr hblc)
    simp only [push, hblc] at h
    obtain ⟨changed, v, hchange, -, -, hcases⟩ := microsoftPush_ok h
    have hstart : changed.offset = 0 ∧ v.bit_offset = 0 ∧ v.cur_type_size < 2147483648 := by
      unfold microsoftTypeChange at hchange
      by_cases hsame : unitInit.cur_type_size = i32 p.type_size
      · rw [if_pos hsame] at hchange
        cases hchange
        exact ⟨hoffset, rfl, by decide⟩
      · rw [if_neg hsame] at hchange
        dsimp only at hchange
        rw [microsoftFlush_unitInit] at hchange
        dsimp only at hchange
        rw [hoffset, Int.zero_tmod, if_pos rfl] at hchange
        split_ifs at hchange
        cases hchange
        exact ⟨rfl, rfl, hsize⟩
    obtain ⟨hchanged, hbit, hv⟩ := hstart
    rcases hcases with ⟨-, -, hoff, hblc'⟩ | ⟨-, offset, bit_offset, -, hslot, -, hoff, hblc'⟩
    · simp only [finalize, hblc', microsoftFinalize, microsoftFlush, hoff, hbit, lt_irrefl, if_false,
        hchanged]
      decide
    · simp only [finalize, hblc', microsoftFinalize, microsoftFlush, hoff]
      split_ifs
      · dsimp only
        omega
      · dsimp only
        omega
  | simple b =>
    have hpos := hblock b hblc
    simp only [push, hblc, Except.ok.injEq] at h
    have hend (c : BLBlock) (hc : c.pos < 2147483648) (hblc' : self'.blc = .simple c)
        (hoff : self'.offset = 0) : self'.finalize.offset < 4294967296 := by
      have hnext := i32_lt (c.pos + c.block_size)
      simp only [finalize, hblc', simpleFinalize, hoff]
      split_ifs <;> omega
    unfold simplePush simplePlace at h
    split_ifs at h
    · cases h
      exact hend _ (i32_lt _) rfl hoffset
    · cases h
      exact hend _ (i32_lt _) rfl hoffset
    · cases h
      exact hend _ (by dsimp only; omega) rfl hoffset

end Layouter

end ConvertBinaryC
