import ConvertBinaryC.CTLibBitfieldCursor

/-! One push of a bit-field with each byte order: only the recorded position differs, and
it is counted from the other end of the storage unit. -/
namespace ConvertBinaryC
open FoldRules

/-- The layouter with the other byte order. -/
def BitfieldLayouter.big (self : BitfieldLayouter) : BitfieldLayouter :=
  { self with byte_order := .bigEndian }

/-- Two declarators that differ at most in the position of a bit-field. -/
structure Declarator.Twin (d d' : Declarator) : Prop where
  fields : d' = { d with ext := d'.ext }
  ext : d'.ext = d.ext ∨ ∃ bit bit', d.ext = .bitfield bit ∧ d'.ext = .bitfield bit' ∧
    bit' = { bit with pos := bit'.pos }

/-- The position in one order is the rest of the storage unit above the field in the other. -/
def Declarator.Mirrors (d d' : Declarator) : Prop :=
  ∀ bit bit', d.ext = .bitfield bit → d'.ext = .bitfield bit' → bit.bits ≠ 0 →
    bit'.pos = 8 * d.size - bit.bits - bit.pos

theorem Declarator.Twin.refl (d : Declarator) : d.Twin d := ⟨rfl, Or.inl rfl⟩

theorem Declarator.Twin.bitfield {d d' : Declarator} (h : d.Twin d') {bit : BitfieldInfo}
    (hext : d.ext = .bitfield bit) :
    ∃ bit', d'.ext = .bitfield bit' ∧ bit' = { bit with pos := bit'.pos } := by
  rcases h.ext with hsame | ⟨b, b', hb, hb', hpos⟩
  · exact ⟨bit, hsame.trans hext, rfl⟩
  · have heq : b = bit := DeclaratorExt.bitfield.inj (hb.symm.trans hext)
    exact ⟨b', hb', heq ▸ hpos⟩

/-- Declarators that are no bit-fields are twins only of themselves. -/
theorem Declarator.Twin.plain {d d' : Declarator} (h : d.Twin d')
    (hext : ∀ bit, d.ext ≠ .bitfield bit) : d' = d := by
  rcases h.ext with hsame | ⟨b, b', hb, hb', hpos⟩
  · have hfields := h.fields
    rw [hsame] at hfields
    exact hfields
  · exact absurd hb (hext b)

theorem Declarator.Twin.isBitfield {d d' : Declarator} (h : d.Twin d') :
    d'.isBitfield = d.isBitfield := by
  unfold Declarator.isBitfield
  rcases h.ext with hsame | ⟨b, b', hb, hb', hpos⟩
  · rw [hsame]
  · rw [hb, hb']

theorem Declarator.Twin.dims {d d' : Declarator} (h : d.Twin d') : d'.dims = d.dims := by
  unfold Declarator.dims
  rcases h.ext with hsame | ⟨b, b', hb, hb', hpos⟩
  · rw [hsame]
  · rw [hb, hb']

theorem Declarator.Twin.pointer_flag {d d' : Declarator} (h : d.Twin d') :
    d'.pointer_flag = d.pointer_flag := by
  have hflag := congrArg Declarator.pointer_flag h.fields
  exact hflag

/-- A field of no width is not recorded. -/
theorem Declarator.mirrors_of_zero {d : Declarator} {bit : BitfieldInfo} (d' : Declarator)
    (hext : d.ext = .bitfield bit) (hzero : bit.bits = 0) : d.Mirrors d' := by
  intro b b' hb _ hne
  have heq : bit = b := DeclaratorExt.bitfield.inj (hext.symm.trans hb)
  exact absurd (heq ▸ hzero) hne

/-- The arguments of the two pushes. -/
structure BLPushParam.Twin (p p' : BLPushParam) : Prop where
  pDecl : p.pDecl.Twin p'.pDecl
  bits : p'.bit.bits = p.bit.bits
  type_size : p'.type_size = p.type_size
  type_align : p'.type_align = p.type_align

/-- What holds of a layouter at all times. -/
def BitfieldLayouter.Ready (self : BitfieldLayouter) : Prop :=
  match self.blc with
  | .generic u => 0 ≤ self.offset ∧ 0 ≤ u.bit_offset ∧ 0 ≤ u.cur_type_align
  | .microsoft u => 0 ≤ u.bit_offset
  | .simple b => b.bits_left ≤ max 0 (i32 (8 * b.block_size))

/-- A width is stored in a byte. -/
def IsWidth (bits : ℤ) : Prop := 0 ≤ bits ∧ bits < 256

/-- Where `Microsoft_push` puts a field: at the current bit of the unit, or at the start of
another one. -/
def BLUnit.firstBit (u : BLUnit) (p : BLPushParam) : ℤ :=
  if u.cur_type_size = i32 p.type_size ∧ p.bit.bits ≤ 8 * u.cur_type_size - u.bit_offset then
    u.bit_offset
  else 0

/-- The bits that are left in the block in which `Simple_push` puts a field: the current one if it
has room, or the next one. -/
def BLBlock.leftFor (b : BLBlock) (bits : ℤ) : ℤ :=
  if bits > b.bits_left then i32 (8 * b.block_size) else b.bits_left

/-- The position of the field fits an unsigned character, counted from either end of the
unit. -/
def BitfieldLayouter.PosFits (self : BitfieldLayouter) (p : BLPushParam) : Prop :=
  match self.blc with
  | .microsoft u => p.bit.bits ≠ 0 → u.firstBit p < 256 ∧
      8 * i32 p.type_size - p.bit.bits - u.firstBit p < 256
  | .simple b => p.bit.bits ≠ 0 →
      (0 ≤ 8 * i32 b.block_size - b.leftFor p.bit.bits ∧
        8 * i32 b.block_size - b.leftFor p.bit.bits < 256) ∧
      0 ≤ b.leftFor p.bit.bits - p.bit.bits ∧ b.leftFor p.bit.bits - p.bit.bits < 256
  | .generic _ => True

/-- The results of the two pushes. -/
structure PushTwin (fits : Prop) (q q' : BLError × BitfieldLayouter × Declarator) : Prop where
  error : q'.1 = q.1
  layouter : q'.2.1 = q.2.1.big
  ready : q.1 = .noError → q.2.1.Ready
  twin : q.1 = .noError → q.2.2.Twin q'.2.2
  mirrors : q.1 = .noError → (q.2.2.Mirrors q'.2.2 ↔ fits)

section Record
variable {p p' : BLPushParam} (h : p.Twin p')
include h

theorem BLPushParam.Twin.record (offset size pos pos' : ℤ) :
    (p.record offset size pos).Twin (p'.record offset size pos') := by
  have hfields := h.pDecl.fields
  constructor
  · unfold BLPushParam.record
    rw [hfields]
  · refine Or.inr ⟨_, _, rfl, rfl, ?_⟩
    rw [h.bits]

omit h in
theorem BLPushParam.record_mirrors_iff (offset size pos pos' : ℤ) (hbits : p.bit.bits ≠ 0) :
    (p.record offset size pos).Mirrors (p'.record offset size pos') ↔
      u8 pos' = 8 * i32 size - p.bit.bits - u8 pos := by
  unfold Declarator.Mirrors BLPushParam.record
  constructor
  · exact fun hmirrors => hmirrors _ _ rfl rfl hbits
  · intro heq bit bit' hbit hbit' _
    cases hbit
    cases hbit'
    exact heq

/-- A recorded field is mirrored if and only if neither position is cut off. -/
theorem BLPushParam.Twin.record_mirrors (offset : ℤ) {size bit_offset : ℤ}
    (hbits : p.bit.bits ≠ 0) (hsize : i32 size = size) (hB : 0 ≤ bit_offset)
    (hfit : p.bit.bits ≤ 8 * size - bit_offset) :
    (p.record offset size (unitPos .littleEndian size bit_offset p.bit.bits)).Mirrors
        (p'.record offset size (unitPos .bigEndian size bit_offset p'.bit.bits)) ↔
      bit_offset < 256 ∧ 8 * size - p.bit.bits - bit_offset < 256 := by
  have hlow := u8_lt bit_offset
  have hhigh := u8_lt (8 * size - p.bit.bits - bit_offset)
  rw [BLPushParam.record_mirrors_iff _ _ _ _ hbits, h.bits, hsize]
  dsimp only [unitPos]
  unfold u8 at *
  omega

end Record

section Push
variable {bl : BitfieldLayouter} {u : BLUnit} {p p' : BLPushParam} (h : p.Twin p')
include h

theorem BLPushParam.Twin.typeAlign (bl : BitfieldLayouter) :
    bl.big.typeAlign p' = bl.typeAlign p := by
  unfold BitfieldLayouter.typeAlign
  rw [h.type_align]
  rfl

theorem genericTypeChange_big (bl : BitfieldLayouter) (u : BLUnit) :
    genericTypeChange bl.big u p' =
      (genericTypeChange bl u p).map fun r => (r.1.big, r.2) := by
  unfold genericTypeChange
  rw [h.type_size, h.typeAlign]
  split_ifs
  · rfl
  · dsimp only
    split_ifs
    · rfl
    · rfl

theorem genericPlace_twin (hext : p.pDecl.ext = .bitfield p.bit)
    (horder : bl.byte_order = .littleEndian) {offset bit_offset : ℤ} (hO : 0 ≤ offset)
    (hB : 0 ≤ bit_offset) (ha : 0 ≤ u.cur_type_align) (hbits : 0 ≤ p.bit.bits)
    (hfit : p.bit.bits ≤ 8 * u.cur_type_size - bit_offset) :
    Related (PushTwin True) (genericPlace bl u p offset bit_offset)
      (genericPlace bl.big u p' offset bit_offset) := by
  unfold genericPlace
  rw [h.bits]
  by_cases hzero : p.bit.bits = 0
  · rw [if_pos hzero, if_pos hzero]
    have hmirrors : p.pDecl.Mirrors p'.pDecl ↔ True := iff_true_intro (Declarator.mirrors_of_zero p'.pDecl hext hzero)
    by_cases hpos : 0 < bit_offset
    · rw [if_pos hpos, if_pos hpos]
      have hsize : 0 < u.cur_type_size := by omega
      have hlt := Int.tmod_lt_of_pos offset hsize
      rw [if_neg hsize.ne', if_neg hsize.ne']
      exact ⟨rfl, rfl, fun _ => ⟨by dsimp only; omega, le_rfl, ha⟩, fun _ => h.pDecl,
        fun _ => hmirrors⟩
    · rw [if_neg hpos, if_neg hpos]
      exact ⟨rfl, rfl, fun _ => ⟨hO, hB, ha⟩, fun _ => h.pDecl, fun _ => hmirrors⟩
  · rw [if_neg hzero, if_neg hzero]
    show Related _ (usedBytes (bit_offset + p.bit.bits) >>= _)
      (usedBytes (bit_offset + p.bit.bits) >>= _)
    cases hused : usedBytes (bit_offset + p.bit.bits) with
    | error e => trivial
    | ok used_bytes =>
      obtain ⟨hroom, hsize⟩ := usedBytes_ok hused
      have hi32 : i32 used_bytes = used_bytes := i32_of_lt (by omega) (by omega)
      have hmirrors := h.record_mirrors offset hzero hi32 hB (by omega)
      refine ⟨rfl, rfl, fun _ => ⟨hO, by dsimp only; omega, ha⟩, fun _ => ?_, fun _ => ?_⟩
      · exact h.record _ _ _ _
      · dsimp only
        rw [horder]
        have hsmall : bit_offset < 256 ∧ 8 * used_bytes - p.bit.bits - bit_offset < 256 := by
          omega
        rw [h.bits] at hmirrors
        exact hmirrors.trans (iff_true_intro hsmall)

theorem genericPush_twin (hext : p.pDecl.ext = .bitfield p.bit)
    (horder : bl.byte_order = .littleEndian) (hO : 0 ≤ bl.offset) (hB : 0 ≤ u.bit_offset)
    (ha : 0 ≤ u.cur_type_align) (halign : 0 ≤ bl.typeAlign p) (hbits : 0 ≤ p.bit.bits) :
    Related (PushTwin True) (genericPush bl u p) (genericPush bl.big u p') := by
  unfold genericPush
  rw [genericTypeChange_big h, h.bits]
  cases hchange : genericTypeChange bl u p with
  | error e => trivial
  | ok r =>
    obtain ⟨changed, v⟩ := r
    obtain ⟨-, hO', hB', ha'⟩ := genericTypeChange_cursor hchange hO hB ha halign
    have horder' : changed.byte_order = .littleEndian :=
      (genericTypeChange_fields hchange).1.trans horder
    dsimp only [Except.map, call_bind_apply]
    cases int (8 * v.cur_type_size) with
    | error e => trivial
    | ok unit_bits =>
    show Related _ (genericAdvance p.bit.bits v (v.bit_offset.toNat + 2) changed.offset
      v.bit_offset >>= _) (genericAdvance p.bit.bits v (v.bit_offset.toNat + 2) changed.offset
      v.bit_offset >>= _)
    cases hadvance : genericAdvance p.bit.bits v (v.bit_offset.toNat + 2) changed.offset
        v.bit_offset with
    | error e => trivial
    | ok slot =>
      obtain ⟨hO'', hB'', -, hroom⟩ := genericAdvance_cursor ha' hO' hB' hadvance
      exact genericPlace_twin h hext horder' hO'' hB'' ha' hbits hroom

omit h in
theorem microsoftFlush_big (bl : BitfieldLayouter) (u : BLUnit) :
    microsoftFlush bl.big u = ((microsoftFlush bl u).1.big, (microsoftFlush bl u).2) := by
  unfold microsoftFlush
  split_ifs
  · rfl
  · rfl

theorem microsoftTypeChange_big (bl : BitfieldLayouter) (u : BLUnit) :
    microsoftTypeChange bl.big u p' =
      (microsoftTypeChange bl u p).map fun r => (r.1.big, r.2) := by
  unfold microsoftTypeChange microsoftFlush
  rw [h.type_size, h.typeAlign]
  generalize bl.typeAlign p = unit
  obtain ⟨blc, byte_order, max_align, align, offset⟩ := bl
  dsimp only [BitfieldLayouter.big]
  by_cases hflush : 0 < u.bit_offset
  · simp only [if_pos hflush]
    split_ifs <;> rfl
  · simp only [if_neg hflush]
    split_ifs <;> rfl

omit h in
/-- A unit of another type starts at its first bit. -/
theorem microsoftTypeChange_bit {changed : BitfieldLayouter} {v : BLUnit} (hB : 0 ≤ u.bit_offset)
    (hchange : microsoftTypeChange bl u p = .ok (changed, v)) :
    v.cur_type_size = i32 p.type_size ∧
      v.bit_offset = if u.cur_type_size = i32 p.type_size then u.bit_offset else 0 := by
  unfold microsoftTypeChange microsoftFlush at hchange
  by_cases hsame : u.cur_type_size = i32 p.type_size
  · rw [if_pos hsame] at hchange ⊢
    cases hchange
    exact ⟨hsame, rfl⟩
  · rw [if_neg hsame] at hchange ⊢
    dsimp only at hchange
    split_ifs at hchange with hpos
    · cases hchange
      exact ⟨rfl, rfl⟩
    · cases hchange
      exact ⟨rfl, rfl⟩
    · cases hchange
      refine ⟨rfl, ?_⟩
      dsimp only
      omega
    · cases hchange
      exact ⟨rfl, rfl⟩

/-- The field at a bit of its unit that leaves room for it. -/
theorem microsoftPlace_twin (horder : bl.byte_order = .littleEndian) (hB : 0 ≤ u.bit_offset)
    (hsize : i32 u.cur_type_size = u.cur_type_size) (hne : p.bit.bits ≠ 0)
    (hbits : 0 ≤ p.bit.bits) (hfit : p.bit.bits ≤ 8 * u.cur_type_size - u.bit_offset) :
    PushTwin (u.bit_offset < 256 ∧ 8 * u.cur_type_size - p.bit.bits - u.bit_offset < 256)
      (microsoftPlace bl u p) (microsoftPlace bl.big u p') := by
  have hmirrors := h.record_mirrors bl.offset hne hsize hB hfit
  unfold microsoftPlace
  refine ⟨rfl, ?_, fun _ => ?_, fun _ => h.record _ _ _ _, fun _ => ?_⟩
  · dsimp only
    rw [h.bits]
    rfl
  · exact add_nonneg hB hbits
  · dsimp only
    rw [horder]
    exact hmirrors

theorem microsoftPush_twin (hext : p.pDecl.ext = .bitfield p.bit)
    (horder : bl.byte_order = .littleEndian) (hB : 0 ≤ u.bit_offset) (hbits : 0 ≤ p.bit.bits) :
    Related (PushTwin (p.bit.bits ≠ 0 → u.firstBit p < 256 ∧
        8 * i32 p.type_size - p.bit.bits - u.firstBit p < 256))
      (microsoftPush bl u p) (microsoftPush bl.big u p') := by
  unfold microsoftPush
  rw [microsoftTypeChange_big h, h.bits]
  cases hchange : microsoftTypeChange bl u p with
  | error e => trivial
  | ok r =>
    obtain ⟨changed, v⟩ := r
    obtain ⟨hsize, hbit⟩ := microsoftTypeChange_bit hB hchange
    have horder' : changed.byte_order = .littleEndian :=
      (microsoftTypeChange_fields hchange).1.trans horder
    have hB' : 0 ≤ v.bit_offset := by
      rw [hbit]
      split_ifs
      · exact hB
      · exact le_rfl
    have hi32 : i32 v.cur_type_size = v.cur_type_size := by rw [hsize, i32_idem]
    dsimp only [Except.map, call_bind_apply]
    by_cases hzero : p.bit.bits = 0
    · rw [if_pos hzero, if_pos hzero, microsoftFlush_big]
      refine ⟨rfl, rfl, fun _ => ?_, fun _ => h.pDecl, fun _ => ?_⟩
      · show 0 ≤ (microsoftFlush changed v).2.bit_offset
        unfold microsoftFlush
        split_ifs
        · exact le_rfl
        · exact hB'
      · exact iff_of_true (Declarator.mirrors_of_zero p'.pDecl hext hzero) fun hne => absurd hzero hne
    · rw [if_neg hzero, if_neg hzero]
      have hfirst : u.firstBit p =
          if p.bit.bits > 8 * v.cur_type_size - v.bit_offset then 0 else v.bit_offset := by
        unfold BLUnit.firstBit
        rw [hbit, hsize]
        split_ifs <;> omega
      cases hint : int (8 * v.cur_type_size) with
      | error e => trivial
      | ok unit_bits =>
      obtain ⟨-, rfl⟩ := int_ok_iff.mp hint
      dsimp only [call_bind_apply]
      by_cases hfull : p.bit.bits > 8 * v.cur_type_size - v.bit_offset
      · rw [if_pos hfull, if_pos hfull]
        rw [if_pos hfull] at hfirst
        by_cases hwide : p.bit.bits > 8 * v.cur_type_size
        · rw [if_pos hwide, if_pos hwide]
          exact ⟨rfl, rfl, nofun, nofun, nofun⟩
        · rw [if_neg hwide, if_neg hwide, hfirst, ← hsize]
          have hnext : ({ changed with offset := changed.offset + v.cur_type_size } :
              BitfieldLayouter).byte_order = .littleEndian := horder'
          have hplace := microsoftPlace_twin h (u := { v with bit_offset := 0 }) hnext le_rfl
            hi32 hzero hbits (by dsimp only; omega)
          exact { hplace with
            mirrors := fun hok => (hplace.mirrors hok).trans ⟨fun hfits _ => hfits,
              fun hfits => hfits hzero⟩ }
      · rw [if_neg hfull, if_neg hfull]
        rw [if_neg hfull] at hfirst
        rw [hfirst, ← hsize]
        have hplace := microsoftPlace_twin h horder' hB' hi32 hzero hbits (not_lt.mp hfull)
        exact { hplace with
          mirrors := fun hok => (hplace.mirrors hok).trans ⟨fun hfits _ => hfits,
            fun hfits => hfits hzero⟩ }

omit h in
/-- The bits below a field and those above it, as they are recorded: together they are the rest of
the unit if and only if none is cut off. -/
theorem block_cut_iff {v left bits : ℤ} (hbits : 0 < bits ∧ bits < 256)
    (hleft : left = i32 (8 * v) ∨ bits ≤ left ∧ left ≤ i32 (8 * v)) :
    u8 (left - bits) = 8 * i32 v - bits - u8 (8 * v - left) ↔
      (0 ≤ 8 * i32 v - left ∧ 8 * i32 v - left < 256) ∧ 0 ≤ left - bits ∧ left - bits < 256 := by
  have hv : i32 v % 4294967296 = v % 4294967296 := Int.bmod_emod
  have hunit : i32 (8 * v) % 4294967296 = 8 * v % 4294967296 := Int.bmod_emod
  obtain ⟨hlow, hhigh⟩ := i32_isInt (8 * v)
  unfold u8
  omega

/-- The field in a block with `left` bits. -/
theorem simplePlace_twin {b : BLBlock} (horder : bl.byte_order = .littleEndian)
    (hbits : 0 < p.bit.bits ∧ p.bit.bits < 256)
    (hleft : b.bits_left = i32 (8 * b.block_size) ∨
      p.bit.bits ≤ b.bits_left ∧ b.bits_left ≤ i32 (8 * b.block_size)) :
    PushTwin ((0 ≤ 8 * i32 b.block_size - b.bits_left ∧ 8 * i32 b.block_size - b.bits_left < 256) ∧
        0 ≤ b.bits_left - p.bit.bits ∧ b.bits_left - p.bit.bits < 256)
      (simplePlace bl b p) (simplePlace bl.big b p') := by
  have hmirrors := @BLPushParam.record_mirrors_iff p p' (bl.offset + b.pos) b.block_size
    (8 * b.block_size - b.bits_left) (b.bits_left - p.bit.bits) hbits.1.ne'
  unfold simplePlace
  refine ⟨rfl, ?_, fun _ => ?_, fun _ => h.record _ _ _ _, fun _ => ?_⟩
  · dsimp only
    rw [h.bits]
    rfl
  · show b.bits_left - p.bit.bits ≤ max 0 (i32 (8 * b.block_size))
    omega
  · dsimp only
    rw [horder]
    rw [h.bits]
    exact hmirrors.trans (block_cut_iff hbits hleft)

theorem simplePush_twin {b : BLBlock} (hext : p.pDecl.ext = .bitfield p.bit)
    (horder : bl.byte_order = .littleEndian) (hbits : IsWidth p.bit.bits)
    (hleft : b.bits_left ≤ max 0 (i32 (8 * b.block_size))) :
    PushTwin (p.bit.bits ≠ 0 →
        (0 ≤ 8 * i32 b.block_size - b.leftFor p.bit.bits ∧
          8 * i32 b.block_size - b.leftFor p.bit.bits < 256) ∧
        0 ≤ b.leftFor p.bit.bits - p.bit.bits ∧ b.leftFor p.bit.bits - p.bit.bits < 256)
      (simplePush bl b p) (simplePush bl.big b p') := by
  unfold simplePush BLBlock.leftFor
  rw [h.bits]
  by_cases hzero : p.bit.bits = 0
  · rw [if_pos hzero, if_pos hzero]
    refine ⟨rfl, rfl, fun _ => ?_, fun _ => h.pDecl, fun _ => ?_⟩
    · exact le_max_right _ _
    · exact iff_of_true (Declarator.mirrors_of_zero p'.pDecl hext hzero) fun hne => absurd hzero hne
  · rw [if_neg hzero, if_neg hzero]
    have hpos : 0 < p.bit.bits ∧ p.bit.bits < 256 := ⟨lt_of_le_of_ne hbits.1 (Ne.symm hzero), hbits.2⟩
    by_cases hfull : p.bit.bits > b.bits_left
    · rw [if_pos hfull, if_pos hfull, if_pos hfull]
      have hplace := simplePlace_twin h (b := simpleNextBlock b) horder hpos (Or.inl rfl)
      exact { hplace with
        mirrors := fun hok => (hplace.mirrors hok).trans ⟨fun hfits _ => hfits,
          fun hfits => hfits hzero⟩ }
    · rw [if_neg hfull, if_neg hfull, if_neg hfull]
      have hplace := simplePlace_twin h (b := b) horder hpos (Or.inr ⟨not_lt.mp hfull, by omega⟩)
      exact { hplace with
        mirrors := fun hok => (hplace.mirrors hok).trans ⟨fun hfits _ => hfits,
          fun hfits => hfits hzero⟩ }

/-- One push with each byte order. -/
theorem push_twin (hext : p.pDecl.ext = .bitfield p.bit)
    (horder : bl.byte_order = .littleEndian) (hready : bl.Ready) (hmax : 0 ≤ bl.max_align)
    (halign : 0 ≤ i32 p.type_align) (hwidth : IsWidth p.bit.bits) :
    Related (PushTwin (bl.PosFits p)) (bl.push p) (bl.big.push p') := by
  have hmin : 0 ≤ bl.typeAlign p := by
    unfold BitfieldLayouter.typeAlign
    split_ifs
    · exact halign
    · exact hmax
  unfold BitfieldLayouter.push
  unfold BitfieldLayouter.Ready at hready
  unfold BitfieldLayouter.PosFits
  have hbig : bl.big.blc = bl.blc := rfl
  rw [hbig]
  cases hblc : bl.blc with
  | generic u =>
    rw [hblc] at hready
    exact genericPush_twin h hext horder hready.1 hready.2.1 hready.2.2 hmin hwidth.1
  | microsoft u =>
    rw [hblc] at hready
    exact microsoftPush_twin h hext horder hready hwidth.1
  | simple b =>
    rw [hblc] at hready
    exact simplePush_twin h hext horder hwidth hready

end Push

end ConvertBinaryC
