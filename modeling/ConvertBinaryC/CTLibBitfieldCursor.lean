import ConvertBinaryC.CTLibBitfields
import ConvertBinaryC.CTLibStorageUnit
import ConvertBinaryC.SpanRules

/-! Where the bits of a bit-field are: each class of layouter keeps a cursor, in bits
from the start of the compound, and hands out spans of bits at or after it. -/
namespace ConvertBinaryC
open FoldRules SpanRules

/-- Bits are counted from the low bit of a byte in little endian order and from the
high bit in big endian order. -/
def bitIndex (bo : CByteOrder) (byte : ℤ) (bit : ℕ) : ℤ :=
  match bo with
  | .littleEndian => 8 * byte + bit
  | .bigEndian => 8 * byte + 7 - bit

/-- The span of a bit-field whose storage unit is at `offset`. -/
def BitfieldInfo.span (info : BitfieldInfo) (bo : CByteOrder) (offset : ℤ) : Span :=
  let start := 8 * offset + unitPos bo info.size info.pos info.bits
  ⟨start, start + info.bits⟩

/-- The window of a bit-field lies in its storage unit. -/
structure BitfieldInfo.InUnit (info : BitfieldInfo) : Prop where
  pos : 0 ≤ info.pos
  fits : info.pos + info.bits ≤ 8 * info.size

/-- The memory bit that holds bit `j` of the storage unit is in the span of the field
if and only if `j` is in its window. -/
theorem BitfieldInfo.span_mem {info : BitfieldInfo} (h : info.InUnit) (bo : CByteOrder)
    (offset : ℤ) {j : ℕ} (hlo : info.pos ≤ j) (hhi : j < info.pos + info.bits) :
    (info.span bo offset).Mem (bitIndex bo (offset + unitByte bo info.size.toNat j) (j % 8)) := by
  have hj : (j : ℤ) < 8 * info.size := hhi.trans_le h.fits
  obtain ⟨n, hn⟩ : ∃ n : ℕ, info.size = n := ⟨info.size.toNat, by omega⟩
  have hdiv := Nat.div_add_mod j 8
  cases bo with
  | littleEndian =>
    simp only [span, unitPos, Span.Mem, bitIndex, unitByte]
    omega
  | bigEndian =>
    simp only [span, unitPos, Span.Mem, bitIndex, unitByte, hn, Int.toNat_natCast]
    have hsub : ((n - 1 - j / 8 : ℕ) : ℤ) = n - 1 - (j / 8 : ℕ) := by omega
    rw [hsub]
    omega

namespace BitfieldLayouter

/-- The next free bit. -/
def cursor (self : BitfieldLayouter) : ℤ :=
  match self.blc with
  | .generic u => 8 * self.offset + u.bit_offset
  | .microsoft u => 8 * self.offset + u.bit_offset
  | .simple b => 8 * (self.offset + b.pos) + (8 * b.block_size - b.bits_left)

/-- The state of an open run of bit-fields. -/
def Sane (self : BitfieldLayouter) : Prop :=
  match self.blc with
  | .generic u => 0 ≤ self.offset ∧ 0 ≤ u.bit_offset ∧ 0 ≤ u.cur_type_align
  | .microsoft u => 0 ≤ self.offset ∧ 0 ≤ u.bit_offset ∧ u.bit_offset ≤ 8 * u.cur_type_size ∧
      u.cur_type_size ≤ 32
  | .simple b => 0 ≤ self.offset ∧ 0 ≤ b.pos ∧ 0 ≤ b.bits_left ∧
      b.bits_left ≤ 8 * b.block_size ∧ b.block_size ≤ 32

/-- The unit and the bit in it at which `Generic_push` puts a field. -/
def GenericSlot (self : BitfieldLayouter) (u : BLUnit) (p : BLPushParam) (v : BLUnit)
    (offset bit_offset : ℤ) : Prop :=
  ∃ changed, genericTypeChange self u p = .ok (changed, v) ∧
    genericAdvance p.bit.bits v (v.bit_offset.toNat + 2) changed.offset v.bit_offset =
      .ok (offset, bit_offset)

/-- A push that does not move the cursor back: a zero width leaves enough of the unit
in front of the boundary it moves to, a unit is no longer than 32 bytes, and no field
is wider than the block. -/
def PushFits (self : BitfieldLayouter) (p : BLPushParam) : Prop :=
  match self.blc with
  | .generic u => 0 ≤ self.typeAlign p ∧ (p.bit.bits = 0 → ∀ v offset bit_offset,
      self.GenericSlot u p v offset bit_offset → 0 < bit_offset →
      bit_offset ≤ 8 * (v.cur_type_size - offset.tmod v.cur_type_size))
  | .microsoft _ => 0 ≤ self.typeAlign p ∧ 0 ≤ i32 p.type_size ∧ i32 p.type_size ≤ 32
  | .simple b => p.bit.bits ≤ 8 * b.block_size

end BitfieldLayouter

/-- The first part of `Generic_push` renames the cursor's bit. -/
theorem genericTypeChange_cursor {self changed : BitfieldLayouter} {u v : BLUnit}
    {p : BLPushParam} (h : genericTypeChange self u p = .ok (changed, v))
    (hO : 0 ≤ self.offset) (hB : 0 ≤ u.bit_offset) (ha : 0 ≤ u.cur_type_align)
    (hp : 0 ≤ self.typeAlign p) :
    8 * changed.offset + v.bit_offset = 8 * self.offset + u.bit_offset ∧
      0 ≤ changed.offset ∧ 0 ≤ v.bit_offset ∧ 0 ≤ v.cur_type_align := by
  unfold genericTypeChange at h
  split_ifs at h
  · cases h
    exact ⟨rfl, hO, hB, ha⟩
  · dsimp only at h
    split_ifs at h with hzero
    cases h
    have hmod := Int.tmod_eq_emod_of_nonneg (b := self.typeAlign p) hO
    have hnonneg := Int.emod_nonneg self.offset hzero
    have hdiv := Int.mul_ediv_add_emod self.offset (self.typeAlign p)
    have hquot := mul_nonneg hp (Int.ediv_nonneg hO hp)
    dsimp only
    rw [hmod]
    omega

/-- The loop of `Generic_push` never moves back and ends where the field fits. -/
theorem genericAdvance_cursor {bits : ℤ} {u : BLUnit} (ha : 0 ≤ u.cur_type_align) {fuel : ℕ}
    {offset bit_offset offset' bit_offset' : ℤ} (hO : 0 ≤ offset) (hB : 0 ≤ bit_offset)
    (h : genericAdvance bits u fuel offset bit_offset = .ok (offset', bit_offset')) :
    0 ≤ offset' ∧ 0 ≤ bit_offset' ∧ 8 * offset + bit_offset ≤ 8 * offset' + bit_offset' ∧
      bits ≤ 8 * u.cur_type_size - bit_offset' := by
  induction fuel generalizing offset bit_offset with
  | zero => cases h
  | succ fuel ih =>
    unfold genericAdvance at h
    split_ifs at h with hfit hmore
    · have hnext := ih (by omega) (by omega) h
      omega
    · have hnext := ih (by omega) (by omega) h
      omega
    · cases h
      omega

/-- What `Generic_push` does, by the slot that it finds. -/
theorem genericPush_ok {self self' : BitfieldLayouter} {u : BLUnit} {p : BLPushParam}
    {error : BLError} {pDecl : Declarator}
    (h : genericPush self u p = .ok (error, self', pDecl)) :
    ∃ v offset bit_offset, self.GenericSlot u p v offset bit_offset ∧
      self'.byte_order = self.byte_order ∧ self'.max_align = self.max_align ∧
      ((p.bit.bits = 0 ∧ 0 < bit_offset ∧ v.cur_type_size ≠ 0 ∧ pDecl = p.pDecl ∧
          self'.offset = offset + (v.cur_type_size - offset.tmod v.cur_type_size) ∧
          self'.blc = .generic { v with bit_offset := 0 }) ∨
        (p.bit.bits = 0 ∧ bit_offset ≤ 0 ∧ pDecl = p.pDecl ∧ self'.offset = offset ∧
          self'.blc = .generic { v with bit_offset := bit_offset }) ∨
        (p.bit.bits ≠ 0 ∧ ∃ used_bytes, usedBytes (bit_offset + p.bit.bits) = .ok used_bytes ∧
          pDecl = p.record offset used_bytes
            (unitPos self.byte_order used_bytes bit_offset p.bit.bits) ∧
          self'.offset = offset ∧
          self'.blc = .generic { v with bit_offset := bit_offset + p.bit.bits })) := by
  obtain ⟨⟨changed, v⟩, hchange, h⟩ := bind_ok h
  obtain ⟨unit_bits, -, h⟩ := bind_ok h
  obtain ⟨⟨offset, bit_offset⟩, hadvance, h⟩ := bind_ok h
  obtain ⟨hbo, hmax⟩ := genericTypeChange_fields hchange
  refine ⟨v, offset, bit_offset, ⟨changed, hchange, hadvance⟩, ?_⟩
  simp only [genericPlace] at h
  split_ifs at h with hbits hpos hzero
  · cases h
    exact ⟨hbo, hmax, Or.inl ⟨hbits, hpos, hzero, rfl, rfl, rfl⟩⟩
  · cases h
    exact ⟨hbo, hmax, Or.inr (Or.inl ⟨hbits, not_lt.mp hpos, rfl, rfl, rfl⟩)⟩
  · obtain ⟨used_bytes, hused, h⟩ := bind_ok h
    cases h
    exact ⟨hbo, hmax, Or.inr (Or.inr ⟨hbits, used_bytes, hused, hbo ▸ rfl, rfl, rfl⟩)⟩

theorem usedBytes_ok {bits used_bytes : ℤ} (h : usedBytes bits = .ok used_bytes) :
    bits ≤ 8 * used_bytes ∧
      (used_bytes = 1 ∨ used_bytes = 2 ∨ used_bytes = 4 ∨ used_bytes = 8) := by
  unfold usedBytes at h
  split_ifs at h <;> cases h <;> omega

/-- What `Microsoft_push` does: the unit that it uses is the current one or starts at
a later offset. -/
theorem microsoftTypeChange_cursor {self changed : BitfieldLayouter} {u v : BLUnit}
    {p : BLPushParam} (h : microsoftTypeChange self u p = .ok (changed, v))
    (hO : 0 ≤ self.offset) (hB : 0 ≤ u.bit_offset) (hfit : u.bit_offset ≤ 8 * u.cur_type_size)
    (hp : 0 ≤ self.typeAlign p) (hsize : 0 ≤ i32 p.type_size) :
    8 * self.offset + u.bit_offset ≤ 8 * changed.offset + v.bit_offset ∧
      0 ≤ changed.offset ∧ 0 ≤ v.bit_offset ∧ v.bit_offset ≤ 8 * v.cur_type_size ∧
      v.cur_type_size = i32 p.type_size := by
  unfold microsoftTypeChange at h
  split_ifs at h with hsame
  · cases h
    exact ⟨le_refl _, hO, hB, hfit, hsame⟩
  · dsimp only at h
    by_cases hzero : self.typeAlign p = 0
    · rw [if_pos hzero] at h
      cases h
    · rw [if_neg hzero] at h
      have hpos : 0 < self.typeAlign p := lt_of_le_of_ne hp (Ne.symm hzero)
      by_cases hflush : 0 < u.bit_offset
      · simp only [microsoftFlush, if_pos hflush] at h
        have hlt := Int.tmod_lt_of_pos (self.offset + u.cur_type_size) hpos
        split_ifs at h <;> cases h <;> dsimp only <;> omega
      · simp only [microsoftFlush, if_neg hflush] at h
        have hlt := Int.tmod_lt_of_pos self.offset hpos
        split_ifs at h <;> cases h <;> dsimp only <;> omega

theorem microsoftPush_ok {self self' : BitfieldLayouter} {u : BLUnit} {p : BLPushParam}
    {pDecl : Declarator} (h : microsoftPush self u p = .ok (.noError, self', pDecl)) :
    ∃ changed v, microsoftTypeChange self u p = .ok (changed, v) ∧
      self'.byte_order = self.byte_order ∧ self'.max_align = self.max_align ∧
      ((p.bit.bits = 0 ∧ pDecl = p.pDecl ∧ self'.offset = (microsoftFlush changed v).1.offset ∧
          self'.blc = .microsoft (microsoftFlush changed v).2) ∨
        (p.bit.bits ≠ 0 ∧ ∃ offset bit_offset, p.bit.bits ≤ 8 * v.cur_type_size - bit_offset ∧
          ((offset = changed.offset ∧ bit_offset = v.bit_offset) ∨
            (offset = changed.offset + v.cur_type_size ∧ bit_offset = 0)) ∧
          pDecl = p.record offset v.cur_type_size
            (unitPos self.byte_order v.cur_type_size bit_offset p.bit.bits) ∧
          self'.offset = offset ∧
          self'.blc = .microsoft { v with bit_offset := bit_offset + p.bit.bits })) := by
  obtain ⟨⟨changed, v⟩, hchange, h⟩ := bind_ok h
  obtain ⟨hbo, hmax⟩ := microsoftTypeChange_fields hchange
  obtain ⟨hflushOrder, hflushMax⟩ := microsoftFlush_fields changed v
  refine ⟨changed, v, hchange, ?_⟩
  dsimp only [microsoftPlace] at h
  split_ifs at h with hbits
  · cases h
    exact ⟨hflushOrder.trans hbo, hflushMax.trans hmax, Or.inl ⟨hbits, rfl, rfl, rfl⟩⟩
  · obtain ⟨unit_bits, hunit, h⟩ := bind_ok h
    obtain ⟨-, rfl⟩ := int_ok_iff.mp hunit
    split_ifs at h with hfull hwide <;> cases h
    · refine ⟨hbo, hmax, Or.inr ⟨hbits, changed.offset + v.cur_type_size, 0, by omega,
        Or.inr ⟨rfl, rfl⟩, hbo ▸ rfl, rfl, rfl⟩⟩
    · exact ⟨hbo, hmax, Or.inr ⟨hbits, changed.offset, v.bit_offset, by omega,
        Or.inl ⟨rfl, rfl⟩, hbo ▸ rfl, rfl, rfl⟩⟩

/-- What a push records and where, in terms of the cursor. -/
structure PushSpan (bl bl' : BitfieldLayouter) (p : BLPushParam) (pDecl : Declarator) :
    Prop where
  sane : bl'.Sane
  le : bl.cursor ≤ bl'.cursor
  zero : p.bit.bits = 0 → pDecl = p.pDecl
  span : p.bit.bits ≠ 0 → ∃ info, pDecl.ext = .bitfield info ∧ info.bits = p.bit.bits ∧
    info.InUnit ∧ pDecl.size = info.size ∧ 0 ≤ pDecl.offset ∧
    bl.cursor ≤ (info.span bl.byte_order pDecl.offset).lo ∧
    (info.span bl.byte_order pDecl.offset).hi = bl'.cursor

/-- The conversions of a recorded field lose nothing below 2^28. -/
theorem record_span {p : BLPushParam} (bo : CByteOrder) (size : ℤ) {offset bit_offset : ℤ}
    (hO : 0 ≤ offset) (hsmall : offset < 268435456) (hsize : size ≤ 32)
    (hB : 0 ≤ bit_offset) (hbits : 0 < p.bit.bits) (hfit : bit_offset + p.bit.bits ≤ 8 * size) :
    ∃ info, (p.record offset size (unitPos bo size bit_offset p.bit.bits)).ext = .bitfield info ∧
      info.bits = p.bit.bits ∧ info.InUnit ∧
      (p.record offset size (unitPos bo size bit_offset p.bit.bits)).size = info.size ∧
      (p.record offset size (unitPos bo size bit_offset p.bit.bits)).offset = offset ∧
      info.span bo offset = ⟨8 * offset + bit_offset, 8 * offset + bit_offset + p.bit.bits⟩ := by
  have hpos : 0 ≤ unitPos bo size bit_offset p.bit.bits ∧
      unitPos bo size bit_offset p.bit.bits + p.bit.bits ≤ 8 * size := by
    cases bo <;> dsimp only [unitPos] <;> omega
  have hu8 : u8 (unitPos bo size bit_offset p.bit.bits) =
      unitPos bo size bit_offset p.bit.bits := u8_of_lt hpos.1 (by omega)
  have hsize8 : u8 size = size := u8_of_lt (by omega) (by omega)
  refine ⟨_, rfl, rfl, ⟨?_, ?_⟩, ?_, s29_of_lt (by omega) hsmall, ?_⟩
  · exact hu8.symm ▸ hpos.1
  · rw [hu8, hsize8]
    exact hpos.2
  · exact (i32_of_lt (by omega) (by omega)).trans hsize8.symm
  · simp only [BitfieldInfo.span, hu8, hsize8]
    cases bo with
    | littleEndian => rfl
    | bigEndian =>
      simp only [unitPos, Span.mk.injEq]
      omega

/-- The bits of a block are taken from its low end. -/
theorem simplePos_eq_unitPos (byte_order : CByteOrder) (b : BLBlock) (bits : ℤ) :
    simplePos byte_order b bits =
      unitPos byte_order b.block_size (8 * b.block_size - b.bits_left) bits := by
  cases byte_order with
  | littleEndian => rfl
  | bigEndian =>
    dsimp only [simplePos, unitPos]
    omega

section Push
variable {self self' : BitfieldLayouter} {p : BLPushParam} {pDecl : Declarator}
  (hbits : 0 ≤ p.bit.bits) (hsmall : self'.cursor < 2147483648)
include hbits hsmall

theorem genericPush_span {u : BLUnit} (hblc : self.blc = .generic u) (hsane : self.Sane)
    (hfit : self.PushFits p) (h : genericPush self u p = .ok (.noError, self', pDecl)) :
    PushSpan self self' p pDecl := by
  simp only [BitfieldLayouter.Sane, hblc] at hsane
  simp only [BitfieldLayouter.PushFits, hblc] at hfit
  have hcursor : self.cursor = 8 * self.offset + u.bit_offset := by
    simp only [BitfieldLayouter.cursor, hblc]
  obtain ⟨hO, hB, ha⟩ := hsane
  obtain ⟨v, offset, bit_offset, hslot, -, -, hcases⟩ := genericPush_ok h
  obtain ⟨changed, hchange, hadvance⟩ := id hslot
  obtain ⟨hsame, hO₁, hB₁, ha₁⟩ := genericTypeChange_cursor hchange hO hB ha hfit.1
  obtain ⟨hO₂, hB₂, hle, hroom⟩ := genericAdvance_cursor ha₁ hO₁ hB₁ hadvance
  rcases hcases with ⟨hzero, hpos, hcts, hdecl, hoff, hblc'⟩ | ⟨hzero, hpos, hdecl, hoff, hblc'⟩ |
    ⟨hne, used_bytes, hused, hdecl, hoff, hblc'⟩
  · -- a zero width moves to the next boundary of the type
    have hleft := hfit.2 hzero v offset bit_offset hslot hpos
    have hcursor' : self'.cursor = 8 * self'.offset := by
      simp only [BitfieldLayouter.cursor, hblc', add_zero]
    refine ⟨?_, ?_, fun _ => hdecl, fun hne => absurd hzero hne⟩
    · simp only [BitfieldLayouter.Sane, hblc']
      omega
    · omega
  · have hcursor' : self'.cursor = 8 * self'.offset + bit_offset := by
      simp only [BitfieldLayouter.cursor, hblc']
    refine ⟨?_, ?_, fun _ => hdecl, fun hne => absurd hzero hne⟩
    · simp only [BitfieldLayouter.Sane, hblc']
      omega
    · omega
  · have hcursor' : self'.cursor = 8 * self'.offset + (bit_offset + p.bit.bits) := by
      simp only [BitfieldLayouter.cursor, hblc']
    obtain ⟨hfits, hsize⟩ := usedBytes_ok hused
    obtain ⟨info, hext, hinfo, hunit, hdsize, hdoff, hspan⟩ := record_span self.byte_order
      used_bytes hO₂ (by omega) (by omega) hB₂ (by omega) hfits
    rw [← hdecl] at hext hdsize hdoff
    refine ⟨?_, by omega, fun hz => absurd hz hne, fun _ =>
      ⟨info, hext, hinfo, hunit, hdsize, hdoff ▸ hO₂, ?_, ?_⟩⟩
    · simp only [BitfieldLayouter.Sane, hblc']
      omega
    · rw [hdoff, hspan]
      dsimp only
      omega
    · rw [hdoff, hspan]
      dsimp only
      omega

theorem microsoftPush_span {u : BLUnit} (hblc : self.blc = .microsoft u) (hsane : self.Sane)
    (hfit : self.PushFits p) (h : microsoftPush self u p = .ok (.noError, self', pDecl)) :
    PushSpan self self' p pDecl := by
  simp only [BitfieldLayouter.Sane, hblc] at hsane
  simp only [BitfieldLayouter.PushFits, hblc] at hfit
  have hcursor : self.cursor = 8 * self.offset + u.bit_offset := by
    simp only [BitfieldLayouter.cursor, hblc]
  obtain ⟨hO, hB, hroom, -⟩ := hsane
  obtain ⟨changed, v, hchange, -, -, hcases⟩ := microsoftPush_ok h
  obtain ⟨hle, hO₁, hB₁, hroom₁, hsize⟩ :=
    microsoftTypeChange_cursor hchange hO hB hroom hfit.1 hfit.2.1
  rcases hcases with ⟨hzero, hdecl, hoff, hblc'⟩ | ⟨hne, offset, bit_offset, hfits, hslot, hdecl,
    hoff, hblc'⟩
  · have hcursor' : self'.cursor = 8 * self'.offset + (microsoftFlush changed v).2.bit_offset := by
      simp only [BitfieldLayouter.cursor, hblc']
    have hflush : 8 * changed.offset + v.bit_offset ≤ self'.cursor ∧ self'.Sane := by
      simp only [BitfieldLayouter.Sane, hblc']
      rw [hcursor', hoff]
      unfold microsoftFlush
      split_ifs <;> dsimp only <;> omega
    exact ⟨hflush.2, by omega, fun _ => hdecl, fun hne => absurd hzero hne⟩
  · have hcursor' : self'.cursor = 8 * self'.offset + (bit_offset + p.bit.bits) := by
      simp only [BitfieldLayouter.cursor, hblc']
    have hslot' : 0 ≤ offset ∧ 0 ≤ bit_offset ∧ self.cursor ≤ 8 * offset + bit_offset := by omega
    obtain ⟨info, hext, hinfo, hunit, hdsize, hdoff, hspan⟩ := record_span self.byte_order
      v.cur_type_size hslot'.1 (by omega) (by omega) hslot'.2.1 (by omega)
      (show bit_offset + p.bit.bits ≤ 8 * v.cur_type_size by omega)
    rw [← hdecl] at hext hdsize hdoff
    refine ⟨?_, by omega, fun hz => absurd hz hne, fun _ =>
      ⟨info, hext, hinfo, hunit, hdsize, hdoff ▸ hslot'.1, ?_, ?_⟩⟩
    · simp only [BitfieldLayouter.Sane, hblc']
      omega
    · rw [hdoff, hspan]
      exact hslot'.2.2
    · rw [hdoff, hspan]
      dsimp only
      omega

theorem simplePlace_span {b : BLBlock} (hblc : self.blc = .simple b) (hsane : self.Sane)
    (hne : p.bit.bits ≠ 0) (hroom : p.bit.bits ≤ b.bits_left)
    (h : simplePlace self b p = (.noError, self', pDecl)) : PushSpan self self' p pDecl := by
  simp only [BitfieldLayouter.Sane, hblc] at hsane
  have hcursor : self.cursor = 8 * (self.offset + b.pos) + (8 * b.block_size - b.bits_left) := by
    simp only [BitfieldLayouter.cursor, hblc]
  simp only [simplePlace, Prod.mk.injEq, true_and] at h
  obtain ⟨hself, hdecl⟩ := h
  have hcursor' : self'.cursor = self.cursor + p.bit.bits := by
    rw [← hself, hcursor]
    simp only [BitfieldLayouter.cursor]
    omega
  rw [simplePos_eq_unitPos] at hdecl
  obtain ⟨info, hext, hinfo, hunit, hdsize, hdoff, hspan⟩ := record_span self.byte_order
    b.block_size (show 0 ≤ self.offset + b.pos by omega) (by omega) (by omega) (by omega)
    (by omega) (show 8 * b.block_size - b.bits_left + p.bit.bits ≤ 8 * b.block_size by omega)
  rw [hdecl] at hext hdsize hdoff
  refine ⟨?_, by omega, fun hz => absurd hz hne, fun _ =>
    ⟨info, hext, hinfo, hunit, hdsize, by omega, ?_, ?_⟩⟩
  · rw [← hself]
    simp only [BitfieldLayouter.Sane]
    omega
  · rw [hdoff, hspan]
    dsimp only
    omega
  · rw [hdoff, hspan]
    dsimp only
    omega

theorem simplePush_span {b : BLBlock} (hblc : self.blc = .simple b) (hsane : self.Sane)
    (hbefore : self.cursor < 2147483648) (hfit : self.PushFits p)
    (h : simplePush self b p = (.noError, self', pDecl)) : PushSpan self self' p pDecl := by
  have hsane' := hsane
  simp only [BitfieldLayouter.Sane, hblc] at hsane'
  simp only [BitfieldLayouter.PushFits, hblc] at hfit
  have hcursor : self.cursor = 8 * (self.offset + b.pos) + (8 * b.block_size - b.bits_left) := by
    simp only [BitfieldLayouter.cursor, hblc]
  -- the next block starts at or after the cursor
  have hnext : simpleNextBlock b =
      { b with pos := b.pos + b.block_size, bits_left := 8 * b.block_size } := by
    rw [simpleNextBlock, i32_of_lt (by omega) (by omega), i32_of_lt (by omega) (by omega)]
  have hnextSane : ({ self with blc := .simple (simpleNextBlock b) } : BitfieldLayouter).Sane := by
    simp only [BitfieldLayouter.Sane, hnext]
    omega
  have hnextCursor : self.cursor ≤
      ({ self with blc := .simple (simpleNextBlock b) } : BitfieldLayouter).cursor := by
    simp only [BitfieldLayouter.cursor, hblc, hnext]
    omega
  unfold simplePush at h
  split_ifs at h with hzero hfull
  · cases h
    exact ⟨hnextSane, hnextCursor, fun _ => rfl, fun hne => absurd hzero hne⟩
  · have hplace := simplePlace_span hbits hsmall
      (show ({ self with blc := .simple (simpleNextBlock b) } : BitfieldLayouter).blc = _ from rfl)
      hnextSane hzero
      (by simp only [hnext]; exact hfit) h
    refine { hplace with le := hnextCursor.trans hplace.le, span := fun hne => ?_ }
    obtain ⟨info, hext, hinfo, hunit, hdsize, hdoff, hlo, hhi⟩ := hplace.span hne
    exact ⟨info, hext, hinfo, hunit, hdsize, hdoff, hnextCursor.trans hlo, hhi⟩
  · exact simplePlace_span hbits hsmall hblc hsane hzero (not_lt.mp hfull) h

/-- Every class hands out the bits after its cursor, as long as the push fits. -/
theorem BitfieldLayouter.push_span (hsane : self.Sane) (hbefore : self.cursor < 2147483648)
    (hfit : self.PushFits p) (h : self.push p = .ok (.noError, self', pDecl)) :
    PushSpan self self' p pDecl := by
  cases hblc : self.blc with
  | generic u =>
    simp only [push, hblc] at h
    exact genericPush_span hbits hsmall hblc hsane hfit h
  | microsoft u =>
    simp only [push, hblc] at h
    exact microsoftPush_span hbits hsmall hblc hsane hfit h
  | simple b =>
    simp only [push, hblc, Except.ok.injEq] at h
    exact simplePush_span hbits hsmall hblc hsane hbefore hfit h

end Push

/-- Finishing a run rounds the cursor up to a byte or more. -/
theorem BitfieldLayouter.finalize_cursor {self : BitfieldLayouter} (hsane : self.Sane)
    (hbefore : self.cursor < 2147483648) :
    self.cursor ≤ 8 * self.finalize.offset ∧ 0 ≤ self.finalize.offset ∧
      self.finalize.offset < 268435456 + 64 := by
  cases hblc : self.blc with
  | generic u =>
    simp only [Sane, hblc] at hsane
    simp only [cursor, hblc] at hbefore ⊢
    simp only [finalize, hblc, genericFinalize]
    have hdiv := Int.tdiv_eq_ediv_of_nonneg (b := 8) (show 0 ≤ u.bit_offset + 7 by omega)
    rw [hdiv]
    omega
  | microsoft u =>
    simp only [Sane, hblc] at hsane
    simp only [cursor, hblc] at hbefore ⊢
    simp only [finalize, hblc, microsoftFinalize, microsoftFlush]
    split_ifs <;> dsimp only <;> omega
  | simple b =>
    simp only [Sane, hblc] at hsane
    simp only [cursor, hblc] at hbefore ⊢
    simp only [finalize, hblc, simpleFinalize]
    rw [i32_of_lt (by omega) (by omega)]
    split_ifs <;> omega

end ConvertBinaryC
