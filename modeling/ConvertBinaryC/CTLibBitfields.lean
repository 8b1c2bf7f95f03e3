import ConvertBinaryC.CTLibTypes

/-! The three classes of bit-field layouters (`ctlib/bitfields.c`). A layouter is
an object with mutable fields that the whole layout pass shares. -/
namespace ConvertBinaryC

/-- The fields that the Generic and Microsoft classes add to the common ones. -/
structure BLUnit where
  bit_offset : ℤ
  cur_type_size : ℤ
  cur_type_align : ℤ
  deriving DecidableEq, Repr

/-- The fields that the Simple class adds. -/
structure BLBlock where
  block_size : ℤ
  pos : ℤ
  bits_left : ℤ
  deriving DecidableEq, Repr

inductive BLClass where
  | generic (u : BLUnit)
  | microsoft (u : BLUnit)
  | simple (b : BLBlock)
  deriving DecidableEq, Repr

structure BitfieldLayouter where
  blc : BLClass
  byte_order : CByteOrder
  max_align : ℤ
  align : ℤ
  offset : ℤ
  deriving DecidableEq, Repr

inductive BLError where
  | noError
  | bitfieldTooWide
  deriving DecidableEq, Repr

/-- `bit` is the bit-field part of `pDecl`. -/
structure BLPushParam where
  pDecl : Declarator
  bit : BitfieldInfo
  type_size : ℤ
  type_align : ℤ

/-- The results of a push are the error, the layouter and the declarator after it. -/
abbrev BLPush := Call (BLError × BitfieldLayouter × Declarator)

/-- Record where a bit-field ends up in its declarator. -/
def BLPushParam.record (p : BLPushParam) (offset size pos : ℤ) : Declarator :=
  { p.pDecl with
    offset := s29 offset
    size := i32 size
    ext := .bitfield { size := u8 size, bits := p.bit.bits, pos := u8 pos } }

/-- The position of a field relative to the low bit of its storage unit. A push has formed the same
product before, so it is an int. -/
def unitPos (byte_order : CByteOrder) (size bit_offset bits : ℤ) : ℤ :=
  match byte_order with
  | .littleEndian => bit_offset
  | .bigEndian => 8 * size - bit_offset - bits

def unitInit : BLUnit := ⟨0, 0, 0⟩

/-- The alignment of a type, reduced to the layouter's maximum. -/
def BitfieldLayouter.typeAlign (self : BitfieldLayouter) (p : BLPushParam) : ℤ :=
  if i32 p.type_align < self.max_align then i32 p.type_align else self.max_align

def genericReset (self : BitfieldLayouter) : BitfieldLayouter :=
  { self with blc := .generic unitInit }

/-- The first part of `Generic_push`: start a storage unit of another type at or
before the current bit. -/
def genericTypeChange (self : BitfieldLayouter) (u : BLUnit) (p : BLPushParam) :
    Call (BitfieldLayouter × BLUnit) :=
  if u.cur_type_size = i32 p.type_size then .ok (self, u)
  else
    let align := self.typeAlign p
    if align = 0 then .error .divideByZero
    else
      let delta := self.offset.tmod align
      .ok ({ self with align := max self.align align, offset := self.offset - delta },
        { bit_offset := u.bit_offset + 8 * delta
          cur_type_size := i32 p.type_size
          cur_type_align := align })

/-- The loop of `Generic_push`: move the unit on until the field fits. A field wider
than its type never fits. -/
def genericAdvance (bits : ℤ) (u : BLUnit) : ℕ → ℤ → ℤ → Call (ℤ × ℤ)
  | 0, _, _ => .error .divergence
  | fuel + 1, offset, bit_offset =>
    if bits > 8 * u.cur_type_size - bit_offset then
      genericAdvance bits u fuel (offset + u.cur_type_align)
        (if bit_offset > 8 * u.cur_type_align then bit_offset - 8 * u.cur_type_align else 0)
    else .ok (offset, bit_offset)

/-- The smallest integer that holds so many bits. The variable stays uninitialised
when there is none. -/
def usedBytes (new_bit_offset : ℤ) : Call ℤ :=
  if new_bit_offset ≤ 8 then .ok 1
  else if new_bit_offset ≤ 16 then .ok 2
  else if new_bit_offset ≤ 32 then .ok 4
  else if new_bit_offset ≤ 64 then .ok 8
  else .error .undefinedBehaviour

/-- The last part of `Generic_push`, once the field fits at `bit_offset`. -/
def genericPlace (self : BitfieldLayouter) (u : BLUnit) (p : BLPushParam)
    (offset bit_offset : ℤ) : BLPush :=
  if p.bit.bits = 0 then
    if 0 < bit_offset then
      if u.cur_type_size = 0 then .error .divideByZero
      else
        .ok (.noError, { self with
          offset := offset + (u.cur_type_size - offset.tmod u.cur_type_size)
          blc := .generic { u with bit_offset := 0 } }, p.pDecl)
    else
      .ok (.noError, { self with
        offset := offset
        blc := .generic { u with bit_offset := bit_offset } }, p.pDecl)
  else do
    let new_bit_offset := bit_offset + p.bit.bits
    let used_bytes ← usedBytes new_bit_offset
    .ok (.noError, { self with
      offset := offset
      blc := .generic { u with bit_offset := new_bit_offset } },
      p.record offset used_bytes (unitPos self.byte_order used_bytes bit_offset p.bit.bits))

def genericPush (self : BitfieldLayouter) (u : BLUnit) (p : BLPushParam) : BLPush := do
  let (self, u) ← genericTypeChange self u p
  -- the bits of the type, against which the loop tests first; those of an alignment are few
  let _ ← int (8 * u.cur_type_size)
  -- one step for each bit that can be skipped and one that leaves the loop
  let (offset, bit_offset) ←
    genericAdvance p.bit.bits u (u.bit_offset.toNat + 2) self.offset u.bit_offset
  genericPlace self u p offset bit_offset

def genericFinalize (self : BitfieldLayouter) (u : BLUnit) : BitfieldLayouter :=
  { self with offset := self.offset + (u.bit_offset + 7).tdiv 8 }

def microsoftReset (self : BitfieldLayouter) : BitfieldLayouter :=
  { self with blc := .microsoft unitInit }

/-- Leave the current storage unit if anything is stored in it. -/
def microsoftFlush (self : BitfieldLayouter) (u : BLUnit) : BitfieldLayouter × BLUnit :=
  if 0 < u.bit_offset then
    ({ self with offset := self.offset + u.cur_type_size }, { u with bit_offset := 0 })
  else (self, u)

/-- The first part of `Microsoft_push`: start an aligned unit of another type. -/
def microsoftTypeChange (self : BitfieldLayouter) (u : BLUnit) (p : BLPushParam) :
    Call (BitfieldLayouter × BLUnit) :=
  if u.cur_type_size = i32 p.type_size then .ok (self, u)
  else
    let align := self.typeAlign p
    let (flushed, v) := microsoftFlush { self with align := max self.align align } u
    if align = 0 then .error .divideByZero
    else
      let delta := flushed.offset.tmod align
      let type : ℤ → BLUnit := fun bit_offset =>
        { bit_offset := bit_offset, cur_type_size := i32 p.type_size, cur_type_align := align }
      if delta = 0 then .ok (flushed, type v.bit_offset)
      else .ok ({ flushed with offset := flushed.offset + (align - delta) }, type 0)

/-- The last part of `Microsoft_push`: the field at the current bit of the unit. -/
def microsoftPlace (self : BitfieldLayouter) (u : BLUnit) (p : BLPushParam) :
    BLError × BitfieldLayouter × Declarator :=
  (.noError, { self with blc := .microsoft { u with bit_offset := u.bit_offset + p.bit.bits } },
    p.record self.offset u.cur_type_size
      (unitPos self.byte_order u.cur_type_size u.bit_offset p.bit.bits))

def microsoftPush (self : BitfieldLayouter) (u : BLUnit) (p : BLPushParam) : BLPush := do
  let (self, u) ← microsoftTypeChange self u p
  if p.bit.bits = 0 then
    let (flushed, v) := microsoftFlush self u
    .ok (.noError, { flushed with blc := .microsoft v }, p.pDecl)
  else do
    let unit_bits ← int (8 * u.cur_type_size)
    if p.bit.bits > unit_bits - u.bit_offset then
      if p.bit.bits > unit_bits then
        .ok (.bitfieldTooWide, { self with blc := .microsoft u }, p.pDecl)
      else
        -- the next unit is taken even if nothing is stored in the current one
        .ok (microsoftPlace { self with offset := self.offset + u.cur_type_size }
          { u with bit_offset := 0 } p)
    else .ok (microsoftPlace self u p)

def microsoftFinalize (self : BitfieldLayouter) (u : BLUnit) : BitfieldLayouter :=
  (microsoftFlush self u).1

/-- The offset moves to the next block even if it is the start of one. The pushes and the end of the
run form the same product. -/
def simpleReset (self : BitfieldLayouter) (b : BLBlock) : Call BitfieldLayouter :=
  if b.block_size = 0 then .error .divideByZero
  else do
    let block_bits ← long (8 * b.block_size)
    .ok { self with
      offset := self.offset + (b.block_size - self.offset.tmod b.block_size)
      blc := .simple { b with pos := 0, bits_left := i32 block_bits } }

def simpleNextBlock (b : BLBlock) : BLBlock :=
  { b with pos := i32 (b.pos + b.block_size), bits_left := i32 (8 * b.block_size) }

def simplePos (byte_order : CByteOrder) (b : BLBlock) (bits : ℤ) : ℤ :=
  match byte_order with
  | .littleEndian => 8 * b.block_size - b.bits_left
  | .bigEndian => b.bits_left - bits

def simplePlace (self : BitfieldLayouter) (b : BLBlock) (p : BLPushParam) :
    BLError × BitfieldLayouter × Declarator :=
  (.noError, { self with blc := .simple { b with bits_left := b.bits_left - p.bit.bits } },
    p.record (self.offset + b.pos) b.block_size (simplePos self.byte_order b p.bit.bits))

def simplePush (self : BitfieldLayouter) (b : BLBlock) (p : BLPushParam) :
    BLError × BitfieldLayouter × Declarator :=
  if p.bit.bits = 0 then (.noError, { self with blc := .simple (simpleNextBlock b) }, p.pDecl)
  else if p.bit.bits > b.bits_left then simplePlace self (simpleNextBlock b) p
  else simplePlace self b p

def simpleFinalize (self : BitfieldLayouter) (b : BLBlock) : BitfieldLayouter :=
  let pos := if b.bits_left ≠ 8 * b.block_size then i32 (b.pos + b.block_size) else b.pos
  { self with
    blc := .simple { b with pos := pos }
    offset := self.offset + pos
    align := b.block_size }

def BitfieldLayouter.reset (self : BitfieldLayouter) : Call BitfieldLayouter :=
  match self.blc with
  | .generic _ => .ok (genericReset self)
  | .microsoft _ => .ok (microsoftReset self)
  | .simple b => simpleReset self b

def BitfieldLayouter.push (self : BitfieldLayouter) (p : BLPushParam) : BLPush :=
  match self.blc with
  | .generic u => genericPush self u p
  | .microsoft u => microsoftPush self u p
  | .simple b => .ok (simplePush self b p)

def BitfieldLayouter.finalize (self : BitfieldLayouter) : BitfieldLayouter :=
  match self.blc with
  | .generic u => genericFinalize self u
  | .microsoft u => microsoftFinalize self u
  | .simple b => simpleFinalize self b

/-- `bl_create` for each of the three class names. -/
def blCreate (blc : BLClass) : BitfieldLayouter := ⟨blc, .littleEndian, 0, 0, 0⟩

def blCreateGeneric : BitfieldLayouter := blCreate (.generic unitInit)

def blCreateMicrosoft : BitfieldLayouter := blCreate (.microsoft unitInit)

def blCreateSimple : BitfieldLayouter := blCreate (.simple ⟨4, 0, 0⟩)

/-- The class of a layouter without the state of a run. -/
def BLClass.blank : BLClass → BLClass
  | .generic _ => .generic unitInit
  | .microsoft _ => .microsoft unitInit
  | .simple b => .simple ⟨b.block_size, 0, 0⟩

/-- What no call on a layouter changes. -/
structure BitfieldLayouter.Like (a b : BitfieldLayouter) : Prop where
  blank : b.blc.blank = a.blc.blank
  byte_order : b.byte_order = a.byte_order
  max_align : b.max_align = a.max_align

/-- The state of a run of bit-fields. -/
structure BitfieldLayouter.SameRun (a b : BitfieldLayouter) : Prop where
  blc : b.blc = a.blc
  align : b.align = a.align
  offset : b.offset = a.offset

/-- The Simple class never looks at the maximal alignment. -/
def BLClass.usesMaxAlign : BLClass → Bool
  | .simple _ => false
  | _ => true

theorem BLClass.usesMaxAlign_of_blank {b c : BLClass} (h : c.blank = b.blank) :
    c.usesMaxAlign = b.usesMaxAlign := by
  cases b <;> cases c <;> first | rfl | exact absurd h (by simp [blank])

variable {self self' : BitfieldLayouter}

theorem BitfieldLayouter.Like.refl (self : BitfieldLayouter) : self.Like self := ⟨rfl, rfl, rfl⟩

theorem BitfieldLayouter.Like.trans {a b c : BitfieldLayouter} (hab : a.Like b)
    (hbc : b.Like c) : a.Like c :=
  ⟨hbc.blank.trans hab.blank, hbc.byte_order.trans hab.byte_order,
    hbc.max_align.trans hab.max_align⟩

theorem BitfieldLayouter.finalize_like (self : BitfieldLayouter) : self.Like self.finalize := by
  obtain ⟨blc, _, _, _, _⟩ := self
  cases blc with
  | generic u => exact ⟨rfl, rfl, rfl⟩
  | microsoft u =>
    simp only [finalize, microsoftFinalize, microsoftFlush]
    split_ifs <;> exact ⟨rfl, rfl, rfl⟩
  | simple b => exact ⟨rfl, rfl, rfl⟩

theorem BitfieldLayouter.reset_like (h : self.reset = .ok self') : self.Like self' := by
  obtain ⟨blc, _, _, _, _⟩ := self
  cases blc with
  | generic u => exact Except.ok.inj h ▸ ⟨rfl, rfl, rfl⟩
  | microsoft u => exact Except.ok.inj h ▸ ⟨rfl, rfl, rfl⟩
  | simple b =>
    simp only [reset, simpleReset] at h
    split_ifs at h
    obtain ⟨block_bits, -, h⟩ := FoldRules.bind_ok h
    exact Except.ok.inj h ▸ ⟨rfl, rfl, rfl⟩

theorem genericTypeChange_fields {u u' : BLUnit} {p : BLPushParam}
    (h : genericTypeChange self u p = .ok (self', u')) :
    self'.byte_order = self.byte_order ∧ self'.max_align = self.max_align := by
  unfold genericTypeChange at h
  split_ifs at h
  · cases h
    exact ⟨rfl, rfl⟩
  · dsimp only at h
    split_ifs at h
    cases h
    exact ⟨rfl, rfl⟩

theorem genericPush_like {u : BLUnit} {p : BLPushParam} {error : BLError} {pDecl : Declarator}
    (hblc : self.blc = .generic u) (h : genericPush self u p = .ok (error, self', pDecl)) :
    self.Like self' := by
  obtain ⟨⟨changed, v⟩, hchange, h⟩ := FoldRules.bind_ok h
  obtain ⟨unit_bits, -, h⟩ := FoldRules.bind_ok h
  obtain ⟨⟨offset, bit_offset⟩, -, h⟩ := FoldRules.bind_ok h
  obtain ⟨hbo, hmax⟩ := genericTypeChange_fields hchange
  have hblank (v : BLUnit) : (BLClass.generic v).blank = self.blc.blank := by rw [hblc]; rfl
  simp only [genericPlace] at h
  split_ifs at h
  · cases h
    exact ⟨hblank _, hbo, hmax⟩
  · cases h
    exact ⟨hblank _, hbo, hmax⟩
  · obtain ⟨used_bytes, -, h⟩ := FoldRules.bind_ok h
    cases h
    exact ⟨hblank _, hbo, hmax⟩

theorem microsoftFlush_fields (self : BitfieldLayouter) (u : BLUnit) :
    (microsoftFlush self u).1.byte_order = self.byte_order ∧
      (microsoftFlush self u).1.max_align = self.max_align := by
  unfold microsoftFlush
  split_ifs <;> exact ⟨rfl, rfl⟩

theorem microsoftTypeChange_fields {u u' : BLUnit} {p : BLPushParam}
    (h : microsoftTypeChange self u p = .ok (self', u')) :
    self'.byte_order = self.byte_order ∧ self'.max_align = self.max_align := by
  unfold microsoftTypeChange at h
  split_ifs at h
  · cases h
    exact ⟨rfl, rfl⟩
  · dsimp only at h
    have hflush := microsoftFlush_fields
      { self with align := max self.align (self.typeAlign p) } u
    split_ifs at h <;> cases h <;> exact hflush

theorem microsoftPush_like {u : BLUnit} {p : BLPushParam} {error : BLError}
    {pDecl : Declarator} (hblc : self.blc = .microsoft u)
    (h : microsoftPush self u p = .ok (error, self', pDecl)) : self.Like self' := by
  obtain ⟨⟨changed, v⟩, hchange, h⟩ := FoldRules.bind_ok h
  obtain ⟨hbo, hmax⟩ := microsoftTypeChange_fields hchange
  obtain ⟨hflushOrder, hflushMax⟩ := microsoftFlush_fields changed v
  have hblank (v : BLUnit) : (BLClass.microsoft v).blank = self.blc.blank := by rw [hblc]; rfl
  dsimp only [microsoftPlace] at h
  split_ifs at h
  · cases h
    exact ⟨hblank _, hflushOrder.trans hbo, hflushMax.trans hmax⟩
  · obtain ⟨unit_bits, -, h⟩ := FoldRules.bind_ok h
    split_ifs at h <;> cases h <;> exact ⟨hblank _, hbo, hmax⟩

theorem BitfieldLayouter.push_like {p : BLPushParam} {error : BLError} {pDecl : Declarator}
    (h : self.push p = .ok (error, self', pDecl)) : self.Like self' := by
  obtain ⟨blc, byte_order, max_align, align, offset⟩ := self
  cases blc with
  | generic u => exact genericPush_like rfl h
  | microsoft u => exact microsoftPush_like rfl h
  | simple b =>
    simp only [push, simplePush, simplePlace] at h
    split_ifs at h <;> cases h <;> exact ⟨rfl, rfl, rfl⟩

end ConvertBinaryC
