import ConvertBinaryC.CTLibBitfieldCursor
import ConvertBinaryC.CTLibExpression
import ConvertBinaryC.CTLibLayoutOrder
import ConvertBinaryC.CTLibParser
import ConvertBinaryC.CTLibTypeInfo

/-! The width of a bit-field: the action for a member declarator (`member_declarator` in
`ctlib/parser.y`) records it, and the layouters (`ctlib/bitfields.c`) place the field. -/
namespace ConvertBinaryC
open FoldRules

/-- A member declarator, with a name or with a width only. -/
inductive MemberDeclarator where
  | named (decl : Declarator) (bit_field_size : Option Value)
  | unnamed (bit_field_size : Value)

/-- The width that is written in the source. -/
def MemberDeclarator.width : MemberDeclarator → Option Value
  | .named _ bit_field_size => bit_field_size
  | .unnamed bit_field_size => some bit_field_size

/-- The width stands behind neither a pointer nor an array. -/
def MemberDeclarator.Plain : MemberDeclarator → Prop
  | .named decl _ => decl.pointer_flag = false ∧ decl.isArray = false
  | .unnamed _ => True

/-- What is recorded. A width that is written over the list of dimensions of an array
leaves a declarator that is marked as both. -/
inductive RecordedMember where
  | member (decl : Declarator)
  | overwritten (decl : Declarator) (bits : ℤ)

def RecordedMember.decl : RecordedMember → Declarator
  | .member decl => decl
  | .overwritten decl _ => decl

/-- `member_declarator`, with the message of the error that stops the parser. -/
def memberDeclarator : MemberDeclarator → Except String RecordedMember
  | .named decl bit_field_size =>
    let width := bit_field_size.getD undefVal
    if width.undef then .ok (.member decl)
    else if width.iv ≤ 0 then
      .error ((if width.iv < 0 then "negative" else "zero") ++ " width for bit-field '" ++
        decl.identifier ++ "'")
    else match decl.ext with
      | .array _ => .ok (.overwritten decl (u8 width.iv))
      | _ => .ok (.member { decl with ext := .bitfield ⟨0, u8 width.iv, 0⟩ })
  | .unnamed width =>
    if width.iv < 0 then .error "negative width for bit-field"
    else .ok (.member { declNew "" with ext := .bitfield ⟨0, u8 width.iv, 0⟩ })

/-- A basic type without `void` and floating point types. -/
def IntegralFlags (tflags : TFlags) : Prop :=
  tflags.test T_VOID = false ∧ tflags.test T_FLOAT = false ∧ tflags.test T_DOUBLE = false

/-- The integral types, through typedefs. -/
inductive IntegralType (heap : Heap) : TypeSpec → Prop
  | basic {tflags : TFlags} (h : IntegralFlags tflags) : IntegralType heap (.basic tflags)
  | enum {e : ℕ} (h : (heap.enumAt e).enumerators.isSome) : IntegralType heap (.enum e)
  | typedef {t : ℕ} (hpointer : (heap.typedefAt t).decl.pointer_flag = false)
      (hdims : (heap.typedefAt t).decl.dims = [])
      (h : IntegralType heap (heap.typedefAt t).type) : IntegralType heap (.typedef t)

/-- The declarator is recorded as a bit-field of the width that is written, over an
integral type. -/
def RecordsWidth (heap : Heap) (type : TypeSpec) (width : Value) : RecordedMember → Prop
  | .member decl => width.undef = false ∧ IntegralType heap type ∧ decl.pointer_flag = false ∧
      ∃ bit, decl.ext = .bitfield bit ∧ bit.bits = width.iv
  | .overwritten _ _ => False

/-- A declarator has its width and, unless that is zero, a place for as many bits in a unit
of the recorded size. -/
def HoldsWidth (width : ℤ) (decl : Declarator) : Prop :=
  ∃ bit, decl.ext = .bitfield bit ∧ bit.bits = width ∧
    (width ≠ 0 → decl.size = bit.size ∧ bit.InUnit)

/-- A push ends, with an error or with a place for the field. -/
def PushRespects (bl : BitfieldLayouter) (p : BLPushParam) (width : ℤ) : Prop :=
  ∃ error bl' decl, bl.push p = .ok (error, bl', decl) ∧
    (error = .noError → HoldsWidth width decl)

/-- A member is recorded with its width, and the push of a member respects it. -/
def WidthRespected (heap : Heap) (type : TypeSpec) (width : Value) (bl : BitfieldLayouter)
    (info : TypeInfo) (out : RecordedMember) : Prop :=
  RecordsWidth heap type width out ∧ ∀ decl bit, out = .member decl → decl.ext = .bitfield bit →
    PushRespects bl ⟨decl, bit, info.item_size, info.align⟩ width.iv

/-- The layouters in an open run of bit-fields: after `reset` with some offset and
alignment, and after pushes. -/
inductive OpenRun : BitfieldLayouter → Prop
  | start {self self' : BitfieldLayouter} (align : ℤ) {offset : ℤ} (hmax : 0 < self.max_align)
      (hoffset : 0 ≤ offset) (h : self.reset = .ok self') :
      OpenRun { self' with align := align, offset := offset }
  | push {self self' : BitfieldLayouter} {p : BLPushParam} {decl : Declarator}
      (hself : OpenRun self) (hbits : 0 ≤ p.bit.bits) (halign : 0 < i32 p.type_align)
      (hsize : 0 ≤ i32 p.type_size) (h : self.push p = .ok (.noError, self', decl)) :
      OpenRun self'

/-- The widths that a class can place in a storage unit of a type. The size of a block is
recorded in a byte. -/
def BLClass.Room (blc : BLClass) (type_size width : ℤ) : Prop :=
  match blc with
  | .generic _ => width ≤ 8 * type_size
  | .microsoft _ => True
  | .simple b => width = 0 ∨
      0 < i32 b.block_size ∧ i32 b.block_size < 256 ∧ width ≤ 8 * i32 b.block_size

/-- The condition for a width to be respected: it is known and fits the byte that it is
recorded in, it stands behind neither a pointer nor an array, the type is integral, and
the layouter checks the width or has room for it. -/
structure WidthFits (heap : Heap) (type : TypeSpec) (m : MemberDeclarator) (width : Value)
    (bl : BitfieldLayouter) (info : TypeInfo) : Prop where
  known : width.undef = false
  byte : width.iv < 256
  plain : m.Plain
  integral : IntegralType heap type
  room : bl.blc.Room info.item_size width.iv

/-- What holds in every open run; a field that is too wide for a block of the Simple
class can leave a negative number of bits. -/
def BitfieldLayouter.InRun (self : BitfieldLayouter) : Prop :=
  match self.blc with
  | .generic u => 0 < self.max_align ∧ 0 ≤ self.offset ∧ 0 ≤ u.bit_offset ∧
      0 ≤ u.cur_type_align ∧ (u.cur_type_size ≠ 0 → 0 < u.cur_type_align)
  | .microsoft u => 0 < self.max_align ∧ 0 ≤ self.offset ∧ 0 ≤ u.bit_offset ∧
      u.bit_offset ≤ 8 * u.cur_type_size
  | .simple b => b.bits_left ≤ i32 (8 * b.block_size)

section TypeChange
variable {self changed : BitfieldLayouter} {u v : BLUnit} {p : BLPushParam}

theorem typeAlign_pos (hmax : 0 < self.max_align) (halign : 0 < i32 p.type_align) :
    0 < self.typeAlign p := by
  unfold BitfieldLayouter.typeAlign
  split_ifs
  · exact halign
  · exact hmax

theorem genericTypeChange_exists (halign : 0 < self.typeAlign p) :
    ∃ changed v, genericTypeChange self u p = .ok (changed, v) := by
  unfold genericTypeChange
  by_cases hsame : u.cur_type_size = i32 p.type_size
  · rw [if_pos hsame]
    exact ⟨_, _, rfl⟩
  · rw [if_neg hsame]
    dsimp only
    rw [if_neg halign.ne']
    exact ⟨_, _, rfl⟩

/-- The unit is one of the pushed type, and it can be moved on. -/
theorem genericTypeChange_unit (h : genericTypeChange self u p = .ok (changed, v))
    (halign : 0 < self.typeAlign p) (hu : u.cur_type_size ≠ 0 → 0 < u.cur_type_align) :
    v.cur_type_size = i32 p.type_size ∧ (v.cur_type_size ≠ 0 → 0 < v.cur_type_align) := by
  unfold genericTypeChange at h
  split_ifs at h with hsame
  · cases h
    exact ⟨hsame, hu⟩
  · dsimp only at h
    rw [if_neg halign.ne'] at h
    cases h
    exact ⟨rfl, fun _ => halign⟩

theorem microsoftTypeChange_exists (halign : 0 < self.typeAlign p) :
    ∃ changed v, microsoftTypeChange self u p = .ok (changed, v) := by
  unfold microsoftTypeChange
  by_cases hsame : u.cur_type_size = i32 p.type_size
  · rw [if_pos hsame]
    exact ⟨_, _, rfl⟩
  · rw [if_neg hsame]
    dsimp only
    rw [if_neg halign.ne']
    split_ifs <;> exact ⟨_, _, rfl⟩

end TypeChange

section Run
variable {self self' : BitfieldLayouter} {p : BLPushParam} {decl : Declarator}

theorem inRun_of_reset (align : ℤ) {offset : ℤ} (hmax : 0 < self.max_align) (hoffset : 0 ≤ offset)
    (h : self.reset = .ok self') :
    ({ self' with align := align, offset := offset } : BitfieldLayouter).InRun := by
  obtain ⟨blc, byte_order, max_align, align', offset'⟩ := self
  cases blc with
  | generic u =>
    cases h
    exact ⟨hmax, hoffset, le_rfl, le_rfl, fun h => absurd rfl h⟩
  | microsoft u =>
    cases h
    exact ⟨hmax, hoffset, le_rfl, le_rfl⟩
  | simple b =>
    simp only [BitfieldLayouter.reset, simpleReset] at h
    split_ifs at h
    obtain ⟨block_bits, hlong, h⟩ := bind_ok h
    obtain rfl := (long_ok_iff.mp hlong).2
    cases h
    exact le_rfl

theorem simplePush_inRun {b : BLBlock} (hbits : 0 ≤ p.bit.bits) (hblc : self.blc = .simple b)
    (hrun : self.InRun) (h : simplePush self b p = (.noError, self', decl)) : self'.InRun := by
  simp only [BitfieldLayouter.InRun, hblc] at hrun
  unfold simplePush simplePlace simpleNextBlock at h
  split_ifs at h <;> cases h
  · exact le_rfl
  · exact sub_le_self _ hbits
  · exact (sub_le_self _ hbits).trans hrun

variable (hbits : 0 ≤ p.bit.bits) (halign : 0 < i32 p.type_align) (hsize : 0 ≤ i32 p.type_size)
include hbits halign hsize

theorem genericPush_inRun {u : BLUnit} (hblc : self.blc = .generic u) (hrun : self.InRun)
    (h : genericPush self u p = .ok (.noError, self', decl)) : self'.InRun := by
  simp only [BitfieldLayouter.InRun, hblc] at hrun
  obtain ⟨hmax, hO, hB, ha, hu⟩ := hrun
  have htype : 0 < self.typeAlign p := typeAlign_pos hmax halign
  obtain ⟨v, offset, bit_offset, ⟨changed, hchange, hadvance⟩, -, hmax', hcases⟩ := genericPush_ok h
  obtain ⟨-, hO₁, hB₁, ha₁⟩ := genericTypeChange_cursor hchange hO hB ha htype.le
  obtain ⟨hvsize, hv⟩ := genericTypeChange_unit hchange htype hu
  obtain ⟨hO₂, hB₂, -, -⟩ := genericAdvance_cursor ha₁ hO₁ hB₁ hadvance
  have hmax₁ : 0 < self'.max_align := by rwa [hmax']
  rcases hcases with ⟨-, -, hne, -, hoff, hblc'⟩ | ⟨-, -, -, hoff, hblc'⟩ |
    ⟨-, used_bytes, -, -, hoff, hblc'⟩
  · have hpos : 0 < v.cur_type_size := by omega
    have hmod := Int.tmod_lt_of_pos offset hpos
    simp only [BitfieldLayouter.InRun, hblc']
    exact ⟨hmax₁, by omega, le_rfl, ha₁, hv⟩
  · simp only [BitfieldLayouter.InRun, hblc']
    exact ⟨hmax₁, hoff ▸ hO₂, hB₂, ha₁, hv⟩
  · simp only [BitfieldLayouter.InRun, hblc']
    exact ⟨hmax₁, hoff ▸ hO₂, by omega, ha₁, hv⟩

theorem microsoftPush_inRun {u : BLUnit} (hblc : self.blc = .microsoft u) (hrun : self.InRun)
    (h : microsoftPush self u p = .ok (.noError, self', decl)) : self'.InRun := by
  simp only [BitfieldLayouter.InRun, hblc] at hrun
  obtain ⟨hmax, hO, hB, hroom⟩ := hrun
  have htype : 0 < self.typeAlign p := typeAlign_pos hmax halign
  obtain ⟨changed, v, hchange, -, hmax', hcases⟩ := microsoftPush_ok h
  obtain ⟨-, hO₁, hB₁, hroom₁, hvsize⟩ :=
    microsoftTypeChange_cursor hchange hO hB hroom htype.le hsize
  have hmax₁ : 0 < self'.max_align := by rwa [hmax']
  rcases hcases with ⟨-, -, hoff, hblc'⟩ | ⟨-, offset, bit_offset, hfits, hslot, -, hoff, hblc'⟩
  · simp only [BitfieldLayouter.InRun, hblc', hoff]
    unfold microsoftFlush
    split_ifs <;> dsimp only <;> omega
  · simp only [BitfieldLayouter.InRun, hblc', hoff]
    omega

theorem BitfieldLayouter.push_inRun (hrun : self.InRun)
    (h : self.push p = .ok (.noError, self', decl)) : self'.InRun := by
  cases hblc : self.blc with
  | generic u =>
    simp only [push, hblc] at h
    exact genericPush_inRun hbits halign hsize hblc hrun h
  | microsoft u =>
    simp only [push, hblc] at h
    exact microsoftPush_inRun hbits halign hsize hblc hrun h
  | simple b =>
    simp only [push, hblc, Except.ok.injEq] at h
    exact simplePush_inRun hbits hblc hrun h

end Run

theorem OpenRun.inRun {bl : BitfieldLayouter} (h : OpenRun bl) : bl.InRun := by
  induction h with
  | start align hmax hoffset h => exact inRun_of_reset align hmax hoffset h
  | push hself hbits halign hsize h ih =>
    exact BitfieldLayouter.push_inRun hbits halign hsize ih h

/-- The sizes of the integers that a field can be stored in. -/
def StorageSize (size : ℤ) : Prop := size = 1 ∨ size = 2 ∨ size = 4 ∨ size = 8

instance : DecidablePred StorageSize := fun size =>
  inferInstanceAs (Decidable (size = 1 ∨ size = 2 ∨ size = 4 ∨ size = 8))

/-- A window inside of its unit is recorded as it is. -/
theorem record_holds {p : BLPushParam} (bo : CByteOrder) {size offset bit_offset : ℤ}
    (hsize : size ≤ 16) (hbits : 0 ≤ p.bit.bits) (hB : 0 ≤ bit_offset)
    (hfit : bit_offset + p.bit.bits ≤ 8 * size) :
    HoldsWidth p.bit.bits (p.record offset size (unitPos bo size bit_offset p.bit.bits)) := by
  have hpos : 0 ≤ unitPos bo size bit_offset p.bit.bits ∧
      unitPos bo size bit_offset p.bit.bits + p.bit.bits ≤ 8 * size := by
    cases bo <;> dsimp only [unitPos] <;> omega
  have hpos8 : u8 (unitPos bo size bit_offset p.bit.bits) =
      unitPos bo size bit_offset p.bit.bits := u8_of_lt hpos.1 (by omega)
  have hsize8 : u8 size = size := u8_of_lt (by omega) (by omega)
  have hsize32 : i32 size = size := i32_of_lt (by omega) (by omega)
  refine ⟨_, rfl, rfl, fun _ => ⟨hsize32.trans hsize8.symm, ?_, ?_⟩⟩
  · exact hpos8.symm ▸ hpos.1
  · rw [hpos8, hsize8]
    exact hpos.2

/-- The loop of `Generic_push` ends for a field that is not wider than the type. -/
theorem genericAdvance_ends {bits : ℤ} {u : BLUnit} (hwidth : bits ≤ 8 * u.cur_type_size)
    (halign : 0 < u.cur_type_align) {fuel : ℕ} {offset bit_offset : ℤ} (hB : 0 ≤ bit_offset)
    (hfuel : bit_offset + 2 ≤ fuel) :
    ∃ offset' bit_offset', genericAdvance bits u fuel offset bit_offset =
      .ok (offset', bit_offset') := by
  induction fuel generalizing offset bit_offset with
  | zero => omega
  | succ fuel ih =>
    unfold genericAdvance
    by_cases hfull : bits > 8 * u.cur_type_size - bit_offset
    · rw [if_pos hfull]
      -- something was skipped, so there is less to skip now
      split_ifs with hmore
      · apply ih
        · omega
        · push_cast at hfuel
          omega
      · apply ih
        · exact le_rfl
        · push_cast at hfuel
          omega
    · rw [if_neg hfull]
      exact ⟨_, _, rfl⟩

/-- For a wider one it never does. -/
theorem genericAdvance_diverges {bits : ℤ} {u : BLUnit} (hwidth : 8 * u.cur_type_size < bits)
    (fuel : ℕ) {offset bit_offset : ℤ} (hB : 0 ≤ bit_offset) :
    genericAdvance bits u fuel offset bit_offset = .error .divergence := by
  induction fuel generalizing offset bit_offset with
  | zero => rfl
  | succ fuel ih =>
    unfold genericAdvance
    rw [if_pos (show bits > 8 * u.cur_type_size - bit_offset by omega)]
    split_ifs with hmore
    · exact ih (by omega)
    · exact ih le_rfl

theorem usedBytes_exists {bits : ℤ} (h : bits ≤ 64) : ∃ used_bytes, usedBytes bits = .ok used_bytes := by
  unfold usedBytes
  split_ifs
  · exact ⟨1, rfl⟩
  · exact ⟨2, rfl⟩
  · exact ⟨4, rfl⟩
  · exact ⟨8, rfl⟩

theorem genericPlace_holds {changed : BitfieldLayouter} {v : BLUnit} {p : BLPushParam}
    (hext : p.pDecl.ext = .bitfield p.bit) (hbits : 0 ≤ p.bit.bits) {offset bit_offset : ℤ}
    (hpos : 0 < v.cur_type_size) (hle : v.cur_type_size ≤ 8) (hB : 0 ≤ bit_offset)
    (hfit : bit_offset + p.bit.bits ≤ 8 * v.cur_type_size) :
    ∃ error bl' decl, genericPlace changed v p offset bit_offset = .ok (error, bl', decl) ∧
      (error = .noError → HoldsWidth p.bit.bits decl) := by
  unfold genericPlace
  by_cases hzero : p.bit.bits = 0
  · have hkept : HoldsWidth p.bit.bits p.pDecl :=
      ⟨p.bit, hext, rfl, fun hne => absurd hzero hne⟩
    rw [if_pos hzero]
    by_cases hopen : 0 < bit_offset
    · rw [if_pos hopen, if_neg hpos.ne']
      exact ⟨_, _, _, rfl, fun _ => hkept⟩
    · rw [if_neg hopen]
      exact ⟨_, _, _, rfl, fun _ => hkept⟩
  · obtain ⟨used_bytes, hused⟩ := usedBytes_exists (show bit_offset + p.bit.bits ≤ 64 by omega)
    obtain ⟨hfits, hsize⟩ := usedBytes_ok hused
    rw [if_neg hzero]
    dsimp only
    rw [hused]
    exact ⟨_, _, _, rfl, fun _ => record_holds _ (by omega) hbits hB hfits⟩

/-- A block whose size is recorded as it is has room for as many bits as are left in it, even
if the recorded position is not the one in the block. -/
theorem simplePlace_holds {bl : BitfieldLayouter} {b : BLBlock} {p : BLPushParam}
    (hpos : 0 < i32 b.block_size) (hbyte : i32 b.block_size < 256)
    (hleft : b.bits_left ≤ 8 * i32 b.block_size) (hfit : p.bit.bits ≤ b.bits_left) :
    HoldsWidth p.bit.bits (simplePlace bl b p).2.2 := by
  have hsame : b.block_size ≡ i32 b.block_size [ZMOD 4294967296] := Int.bmod_emod.symm
  have hsize8 : u8 b.block_size = i32 b.block_size := by
    unfold Int.ModEq at hsame
    unfold u8
    omega
  have hwindow : 0 ≤ u8 (simplePos bl.byte_order b p.bit.bits) ∧
      u8 (simplePos bl.byte_order b p.bit.bits) + p.bit.bits ≤ 8 * i32 b.block_size := by
    unfold Int.ModEq at hsame
    cases bl.byte_order <;> dsimp only [simplePos] <;> unfold u8 <;> omega
  refine ⟨_, rfl, rfl, fun _ => ⟨hsize8.symm, hwindow.1, ?_⟩⟩
  dsimp only [simplePlace]
  rw [hsize8]
  exact hwindow.2

section Push
variable {bl : BitfieldLayouter} {p : BLPushParam} (hrun : bl.InRun)
  (hstorage : StorageSize p.type_size) (halign : p.type_align = p.type_size)
  (hext : p.pDecl.ext = .bitfield p.bit) (hbits : 0 ≤ p.bit.bits)

theorem StorageSize.int {size : ℤ} (h : StorageSize size) : i32 size = size ∧ 0 < size ∧ size ≤ 8 := by
  unfold StorageSize at h
  exact ⟨i32_of_lt (by omega) (by omega), by omega, by omega⟩

include hrun hstorage halign hext hbits

theorem genericPush_respects_iff {u : BLUnit} (hblc : bl.blc = .generic u) :
    PushRespects bl p p.bit.bits ↔ p.bit.bits ≤ 8 * p.type_size := by
  obtain ⟨hint, hpos, hle⟩ := hstorage.int
  simp only [BitfieldLayouter.InRun, hblc] at hrun
  obtain ⟨hmax, hO, hB, ha, hu⟩ := hrun
  have htype : 0 < bl.typeAlign p := typeAlign_pos hmax (by rw [halign, hint]; exact hpos)
  obtain ⟨changed, v, hchange⟩ := genericTypeChange_exists (u := u) htype
  obtain ⟨-, hO₁, hB₁, ha₁⟩ := genericTypeChange_cursor hchange hO hB ha htype.le
  obtain ⟨hvsize, hv⟩ := genericTypeChange_unit hchange htype hu
  rw [hint] at hvsize
  have hpush : bl.push p = (genericAdvance p.bit.bits v (v.bit_offset.toNat + 2) changed.offset
      v.bit_offset >>= fun r => genericPlace changed v p r.1 r.2) := by
    show (match bl.blc with
      | .generic u => genericPush bl u p
      | .microsoft u => microsoftPush bl u p
      | .simple b => .ok (simplePush bl b p)) = _
    rw [hblc]
    show (genericTypeChange bl u p >>= _) = _
    rw [hchange, call_bind_apply]
    dsimp only
    rw [int_ok_iff.mpr ⟨⟨by omega, by omega⟩, rfl⟩]
    rfl
  unfold PushRespects
  rw [hpush]
  constructor
  · rintro ⟨error, bl', decl, hok, -⟩
    by_contra hwide
    rw [genericAdvance_diverges (by omega) _ hB₁] at hok
    exact nomatch hok
  · intro hwidth
    obtain ⟨offset, bit_offset, hadvance⟩ := genericAdvance_ends
      (show p.bit.bits ≤ 8 * v.cur_type_size by omega) (hv (by omega)) hB₁
      (show v.bit_offset + 2 ≤ (v.bit_offset.toNat + 2 : ℕ) by omega)
    obtain ⟨-, hB₂, -, hroom⟩ := genericAdvance_cursor ha₁ hO₁ hB₁ hadvance
    rw [hadvance]
    exact genericPlace_holds hext hbits (by omega) (by omega) hB₂ (by omega)

theorem microsoftPush_respects {u : BLUnit} (hblc : bl.blc = .microsoft u) :
    PushRespects bl p p.bit.bits := by
  obtain ⟨hint, hpos, hle⟩ := hstorage.int
  simp only [BitfieldLayouter.InRun, hblc] at hrun
  obtain ⟨hmax, hO, hB, hroom⟩ := hrun
  have htype : 0 < bl.typeAlign p := typeAlign_pos hmax (by rw [halign, hint]; exact hpos)
  obtain ⟨changed, v, hchange⟩ := microsoftTypeChange_exists (u := u) htype
  obtain ⟨-, -, hB₁, hroom₁, hvsize⟩ :=
    microsoftTypeChange_cursor hchange hO hB hroom htype.le (by omega)
  rw [hint] at hvsize
  have hv16 : v.cur_type_size ≤ 16 := by omega
  have hpush : bl.push p = microsoftPush bl u p := by
    simp only [BitfieldLayouter.push, hblc]
  unfold PushRespects
  rw [hpush, microsoftPush, hchange]
  dsimp only [bind, Except.bind]
  by_cases hzero : p.bit.bits = 0
  · rw [if_pos hzero]
    exact ⟨_, _, _, rfl, fun _ => ⟨p.bit, hext, rfl, fun hne => absurd hzero hne⟩⟩
  rw [if_neg hzero, int_ok_iff.mpr ⟨⟨by omega, by omega⟩, rfl⟩]
  dsimp only
  by_cases hfull : p.bit.bits > 8 * v.cur_type_size - v.bit_offset
  · rw [if_pos hfull]
    by_cases hwide : p.bit.bits > 8 * v.cur_type_size
    · -- the width is checked
      rw [if_pos hwide]
      exact ⟨_, _, _, rfl, fun h => by cases h⟩
    · rw [if_neg hwide]
      have hfit : 0 + p.bit.bits ≤ 8 * v.cur_type_size := by omega
      exact ⟨_, _, _, rfl, fun _ => record_holds _ hv16 hbits le_rfl hfit⟩
  · rw [if_neg hfull]
    exact ⟨_, _, _, rfl, fun _ => record_holds _ hv16 hbits hB₁ (by omega)⟩

omit halign hstorage in
theorem simplePush_respects_iff {b : BLBlock} (hblc : bl.blc = .simple b) :
    PushRespects bl p p.bit.bits ↔ p.bit.bits = 0 ∨
      0 < i32 b.block_size ∧ i32 b.block_size < 256 ∧ p.bit.bits ≤ 8 * i32 b.block_size := by
  simp only [BitfieldLayouter.InRun, hblc] at hrun
  have hpush : bl.push p = .ok (simplePush bl b p) := by
    simp only [BitfieldLayouter.push, hblc]
  unfold PushRespects
  rw [hpush]
  constructor
  · rintro ⟨error, bl', decl, hok, hholds⟩
    by_contra hroom
    rw [not_or] at hroom
    obtain ⟨hne, hroom⟩ := hroom
    -- in both blocks the unit of the field is recorded with the size of a block
    obtain ⟨herror, hsize, bit, hbit, hunit8⟩ : error = .noError ∧ decl.size = i32 b.block_size ∧
        ∃ bit, decl.ext = .bitfield bit ∧ bit.size = u8 b.block_size := by
      unfold simplePush simplePlace simpleNextBlock at hok
      rw [if_neg hne] at hok
      split_ifs at hok <;> cases hok <;> exact ⟨rfl, rfl, _, rfl, rfl⟩
    obtain ⟨bit', hbit', hbits', hunit⟩ := hholds herror
    obtain rfl := DeclaratorExt.bitfield.inj (hbit.symm.trans hbit')
    obtain ⟨hsame, hlo, hfits⟩ := hunit hne
    have hpos : 0 < p.bit.bits := lt_of_le_of_ne hbits (Ne.symm hne)
    have hbyte := u8_lt b.block_size
    rw [hsize, hunit8] at hsame
    rw [hunit8, ← hsame, hbits'] at hfits
    omega
  · rintro (hzero | ⟨hpos, hbyte, hwidth⟩)
    · unfold simplePush
      rw [if_pos hzero]
      exact ⟨_, _, _, rfl, fun _ => ⟨p.bit, hext, rfl, fun hne => absurd hzero hne⟩⟩
    have hsame : b.block_size ≡ i32 b.block_size [ZMOD 4294967296] := Int.bmod_emod.symm
    have hnext : i32 (8 * b.block_size) = 8 * i32 b.block_size := by
      calc i32 (8 * b.block_size) = i32 (8 * i32 b.block_size) := i32_congr (hsame.mul_left 8)
        _ = 8 * i32 b.block_size := i32_of_lt (by omega) (by omega)
    rw [hnext] at hrun
    unfold simplePush
    by_cases hzero : p.bit.bits = 0
    · rw [if_pos hzero]
      exact ⟨_, _, _, rfl, fun _ => ⟨p.bit, hext, rfl, fun hne => absurd hzero hne⟩⟩
    rw [if_neg hzero]
    by_cases hfull : p.bit.bits > b.bits_left
    · rw [if_pos hfull]
      have hblock : (simpleNextBlock b).bits_left = 8 * i32 b.block_size := hnext
      exact ⟨_, _, _, rfl, fun _ =>
        simplePlace_holds hpos hbyte hblock.le (hblock.symm ▸ hwidth)⟩
    · rw [if_neg hfull]
      exact ⟨_, _, _, rfl, fun _ => simplePlace_holds hpos hbyte hrun (not_lt.mp hfull)⟩

theorem push_respects_iff : PushRespects bl p p.bit.bits ↔ bl.blc.Room p.type_size p.bit.bits := by
  cases hblc : bl.blc with
  | generic u => exact genericPush_respects_iff hrun hstorage halign hext hbits hblc
  | microsoft u =>
    exact iff_of_true (microsoftPush_respects hrun hstorage halign hext hbits hblc) trivial
  | simple b => exact simplePush_respects_iff hrun hext hbits hblc

end Push

theorem u8_eq_iff (x : ℤ) : u8 x = x ↔ 0 ≤ x ∧ x < 256 := by
  unfold u8
  omega

theorem recordsWidth_iff_of_ext {heap : Heap} {type : TypeSpec} {width : Value}
    {decl : Declarator} {w : Option Value} (harray : decl.isArray = false) (hpos : 0 ≤ width.iv) :
    RecordsWidth heap type width (.member { decl with ext := .bitfield ⟨0, u8 width.iv, 0⟩ }) ↔
      width.undef = false ∧ width.iv < 256 ∧ (MemberDeclarator.named decl w).Plain ∧
        IntegralType heap type := by
  constructor
  · rintro ⟨hknown, hint, hpointer, bit, hbit, hbits⟩
    cases hbit
    exact ⟨hknown, ((u8_eq_iff _).mp hbits).2, ⟨hpointer, harray⟩, hint⟩
  · rintro ⟨hknown, hbyte, ⟨hpointer, -⟩, hint⟩
    exact ⟨hknown, hint, hpointer, _, rfl, (u8_eq_iff _).mpr ⟨hpos, hbyte⟩⟩

section Recorded
variable {heap : Heap} {type : TypeSpec} {m : MemberDeclarator} {width : Value}
  {out : RecordedMember} (hwidth : m.width = some width) (h : memberDeclarator m = .ok out)
include hwidth h

/-- The parser records a known width if it fits a byte and nothing else is declared. -/
theorem memberDeclarator_records_iff :
    RecordsWidth heap type width out ↔
      width.undef = false ∧ width.iv < 256 ∧ m.Plain ∧ IntegralType heap type := by
  cases m with
  | named decl w =>
    have hw : w = some width := hwidth
    subst hw
    dsimp only [memberDeclarator, Option.getD_some] at h
    by_cases hundef : width.undef = true
    · -- such a member is recorded as if no width were written
      rw [if_pos hundef] at h
      cases h
      exact iff_of_false (fun hrec => Bool.false_ne_true (hrec.1 ▸ hundef))
        (fun hfits => Bool.false_ne_true (hfits.1 ▸ hundef))
    rw [if_neg hundef] at h
    by_cases hzero : width.iv ≤ 0
    · rw [if_pos hzero] at h
      exact nomatch h
    rw [if_neg hzero] at h
    cases hext : decl.ext with
    | array dims =>
      rw [hext] at h
      cases h
      refine iff_of_false id (fun hfits => ?_)
      have harray : decl.isArray = false := hfits.2.2.1.2
      rw [Declarator.isArray, hext] at harray
      exact Bool.false_ne_true harray.symm
    | plain =>
      rw [hext] at h
      cases h
      exact recordsWidth_iff_of_ext (by rw [Declarator.isArray, hext]) (not_le.mp hzero).le
    | bitfield bit =>
      rw [hext] at h
      cases h
      exact recordsWidth_iff_of_ext (by rw [Declarator.isArray, hext]) (not_le.mp hzero).le
  | unnamed w =>
    have hw : w = width := Option.some.inj hwidth
    subst hw
    dsimp only [memberDeclarator] at h
    by_cases hneg : w.iv < 0
    · rw [if_pos hneg] at h
      exact nomatch h
    rw [if_neg hneg] at h
    cases h
    constructor
    · rintro ⟨hknown, hint, -, bit, hbit, hbits⟩
      cases hbit
      exact ⟨hknown, ((u8_eq_iff _).mp hbits).2, trivial, hint⟩
    · rintro ⟨hknown, hbyte, -, hint⟩
      exact ⟨hknown, hint, rfl, _, rfl, (u8_eq_iff _).mpr ⟨not_lt.mp hneg, hbyte⟩⟩

end Recorded

/-- The sizes that the options allow for integers, and enums as the parser leaves them. -/
structure StandardSizes (arch : NativeArch) (pLP : LayoutParam) (heap : Heap) : Prop where
  char : StorageSize (loadSize pLP.char_size arch.char_size)
  short : StorageSize (loadSize pLP.short_size arch.short_size)
  int : StorageSize (loadSize pLP.int_size arch.int_size)
  long : StorageSize (loadSize pLP.long_size arch.long_size)
  long_long : StorageSize (loadSize pLP.long_long_size arch.long_long_size)
  enum : pLP.enum_size = -1 ∨ pLP.enum_size = 0 ∨ StorageSize pLP.enum_size
  complete : ∀ e, (heap.enumAt e).enumerators.isSome →
    ∃ spec es, heap.enumAt e = enumspecUpdate spec es

theorem enumSize_storage (fits8 fits16 : Bool) : StorageSize (enumSize fits8 fits16) := by
  unfold enumSize StorageSize
  split_ifs <;> decide

theorem enumspecUpdate_storage (spec : EnumSpecifier) (es : List Enumerator) :
    StorageSize (enumspecUpdate spec es).unsignedSize ∧
      StorageSize (enumspecUpdate spec es).signedSize := by
  unfold enumspecUpdate
  dsimp only
  split_ifs
  · exact ⟨enumSize_storage _ _, enumSize_storage _ _⟩
  · exact ⟨enumSize_storage _ _, enumSize_storage _ _⟩

section Storage
variable {arch : NativeArch} {pLP : LayoutParam} {heap : Heap} (hsizes : StandardSizes arch pLP heap)
include hsizes

theorem enumTypeSize_storage {e : ℕ} (h : (heap.enumAt e).enumerators.isSome) :
    StorageSize (enumTypeSize pLP (heap.enumAt e)) := by
  obtain ⟨spec, es, hspec⟩ := hsizes.complete e h
  obtain ⟨hunsigned, hsigned⟩ := enumspecUpdate_storage spec es
  unfold enumTypeSize
  rw [hspec]
  split_ifs with hpos hzero
  · rcases hsizes.enum with hsize | hsize | hsize
    · omega
    · omega
    · exact hsize
  · exact hunsigned
  · exact hsigned

theorem basicSize_storage {tflags : TFlags} (h : IntegralFlags tflags) :
    StorageSize (basicSize arch pLP tflags) := by
  obtain ⟨hvoid, hfloat, hdouble⟩ := h
  have hlong : ¬ tflags &&& (T_LONG ||| T_DOUBLE) = T_LONG ||| T_DOUBLE := by
    intro hboth
    have hand : tflags &&& T_DOUBLE = T_DOUBLE := by
      calc tflags &&& T_DOUBLE = tflags &&& (T_LONG ||| T_DOUBLE) &&& T_DOUBLE := by
            rw [BitVec.and_assoc]
            rfl
        _ = (T_LONG ||| T_DOUBLE) &&& T_DOUBLE := by rw [hboth]
        _ = T_DOUBLE := rfl
    rw [TFlags.test, hand] at hdouble
    exact absurd hdouble (by decide)
  unfold basicSize
  rw [hvoid, hfloat, hdouble, if_neg Bool.false_ne_true, if_neg hlong, if_neg Bool.false_ne_true,
    if_neg Bool.false_ne_true]
  split_ifs
  · exact hsizes.long_long
  · exact hsizes.char
  · exact hsizes.short
  · exact hsizes.long
  · exact hsizes.int

/-- The type information about an integral type is that of an integer. -/
theorem getTypeInfo_integral {fuel : ℕ} {st st' : LayoutState} {type : TypeSpec}
    {info : TypeInfo} (hheap : st.heap = heap) (h : IntegralType heap type)
    (hinfo : getTypeInfo arch pLP fuel st type none = .ok (st', info)) :
    StorageSize info.size ∧ info.align = info.size ∧ info.item_size = info.size := by
  induction h generalizing fuel info with
  | basic hflags =>
    cases fuel with
    | zero => exact nomatch hinfo
    | succ fuel =>
      cases hinfo
      exact ⟨basicSize_storage hsizes hflags, rfl, rfl⟩
  | enum hcomplete =>
    cases fuel with
    | zero => exact nomatch hinfo
    | succ fuel =>
      cases hinfo
      subst hheap
      exact ⟨enumTypeSize_storage hsizes hcomplete, rfl, rfl⟩
  | @typedef t hpointer hdims htype ih =>
    cases fuel with
    | zero => exact nomatch hinfo
    | succ fuel =>
      subst hheap
      have hasked : (getTypeInfo arch pLP fuel st (st.heap.typedefAt t).type
          (some (st.heap.typedefAt t).decl) >>= fun r => r.2.declare [] >>= fun info =>
            .ok (r.1, info)) = .ok (st', info) := hinfo
      obtain ⟨⟨st₁, inner⟩, hinner, hlast⟩ := bind_ok hasked
      rw [TypeInfo.declare_nil] at hlast
      cases hlast
      rw [getTypeInfo_declare fuel st _ hpointer, hdims] at hinner
      obtain ⟨⟨st₂, base⟩, hbase, hinner⟩ := bind_ok hinner
      rw [TypeInfo.declare_nil] at hinner
      cases hinner
      -- no dimensions are applied, so the size stays
      obtain ⟨hsize, halign, -⟩ := ih hbase
      exact ⟨hsize, halign, rfl⟩

end Storage

section Respected
variable {arch : NativeArch} {pLP : LayoutParam} {fuel : ℕ} {st st' : LayoutState}
  {type : TypeSpec} {m : MemberDeclarator} {width : Value} {out : RecordedMember}
  {bl : BitfieldLayouter} {info : TypeInfo}

theorem memberDeclarator_iv_nonneg (hwidth : m.width = some width)
    (h : memberDeclarator m = .ok out) (hknown : width.undef = false) : 0 ≤ width.iv := by
  by_contra hneg
  rw [not_le] at hneg
  have hfalse : ¬ width.undef = true := fun hundef => Bool.false_ne_true (hknown ▸ hundef)
  cases m with
  | named decl w =>
    have hw : w = some width := hwidth
    subst hw
    dsimp only [memberDeclarator, Option.getD_some] at h
    rw [if_neg hfalse, if_pos hneg.le] at h
    exact nomatch h
  | unnamed w =>
    have hw : w = width := Option.some.inj hwidth
    subst hw
    dsimp only [memberDeclarator] at h
    rw [if_pos hneg] at h
    exact nomatch h

/-- The push of a recorded width respects it if the class has room for it. -/
theorem recorded_push_iff (hsizes : StandardSizes arch pLP st.heap) (hrun : bl.InRun)
    {decl : Declarator} {bit : BitfieldInfo} (hint : IntegralType st.heap type)
    (hpointer : decl.pointer_flag = false) (hext : decl.ext = .bitfield bit)
    (hbits : 0 ≤ bit.bits)
    (hinfo : getTypeInfo arch pLP fuel st type (some decl) = .ok (st', info)) :
    PushRespects bl ⟨decl, bit, info.item_size, info.align⟩ bit.bits ↔
      bl.blc.Room info.item_size bit.bits := by
  rw [getTypeInfo_declare fuel st _ hpointer] at hinfo
  obtain ⟨⟨st₁, base⟩, hbase, hinfo⟩ := bind_ok hinfo
  obtain ⟨declared, hdeclare, hinfo⟩ := bind_ok hinfo
  obtain ⟨-, rfl⟩ := TypeInfo.declare_ok_iff.mp hdeclare
  cases hinfo
  obtain ⟨hsize, halign, -⟩ := getTypeInfo_integral hsizes rfl hint hbase
  exact push_respects_iff (p := ⟨decl, bit, base.size, base.align⟩) hrun hsize halign hext hbits

/-- A width that the parser accepts is recorded and respected if and only if it fits. -/
theorem width_respected_iff (hsizes : StandardSizes arch pLP st.heap)
    (hwidth : m.width = some width) (h : memberDeclarator m = .ok out) (hopen : OpenRun bl)
    (hinfo : getTypeInfo arch pLP fuel st type (some out.decl) = .ok (st', info)) :
    WidthRespected st.heap type width bl info out ↔ WidthFits st.heap type m width bl info := by
  have hrecords : RecordsWidth st.heap type width out ↔ width.undef = false ∧ width.iv < 256 ∧
      m.Plain ∧ IntegralType st.heap type := memberDeclarator_records_iff hwidth h
  constructor
  · rintro ⟨hrec, hpush⟩
    obtain ⟨hknown, hbyte, hplain, hint⟩ := hrecords.mp hrec
    refine ⟨hknown, hbyte, hplain, hint, ?_⟩
    cases out with
    | overwritten decl bits => exact hrec.elim
    | member decl =>
      obtain ⟨-, -, hpointer, bit, hext, hbits⟩ := hrec
      rw [← hbits]
      apply (recorded_push_iff hsizes hopen.inRun hint hpointer hext _ hinfo).mp
      · rw [hbits]
        exact hpush decl bit rfl hext
      · rw [hbits]
        exact memberDeclarator_iv_nonneg hwidth h hknown
  · intro hfits
    have hrec := hrecords.mpr ⟨hfits.known, hfits.byte, hfits.plain, hfits.integral⟩
    refine ⟨hrec, ?_⟩
    rintro decl bit rfl hext
    obtain ⟨-, -, hpointer, bit', hext', hbits⟩ := hrec
    obtain rfl : bit = bit' := DeclaratorExt.bitfield.inj (hext.symm.trans hext')
    rw [← hbits]
    apply (recorded_push_iff hsizes hopen.inRun hfits.integral hpointer hext _ hinfo).mpr
    · rw [hbits]
      exact hfits.room
    · rw [hbits]
      exact memberDeclarator_iv_nonneg hwidth h hfits.known

end Respected

/-- A heap without complete types. -/
def widthHeap : Heap where
  structAt _ := structNew "" .struct 0 ⟨"width.h", 1⟩ none
  enumAt _ := ⟨0, false, false, 4, 4, ⟨"width.h", 1⟩, none, .empty, ""⟩
  typedefAt _ := ⟨.basic T_INT, declNew ""⟩

/-- A Generic layouter at the start of a struct. -/
def widthLayouter : BitfieldLayouter := ⟨.generic unitInit, .littleEndian, 4, 1, 0⟩

theorem widthHeap_sizes : StandardSizes lp64 alignment4 widthHeap where
  char := by decide
  short := by decide
  int := by decide
  long := by decide
  long_long := by decide
  enum := Or.inr (Or.inr (by decide))
  complete _ h := absurd h Bool.false_ne_true

theorem widthLayouter_open : OpenRun widthLayouter := by
  have hreset : widthLayouter.reset = .ok widthLayouter := rfl
  exact OpenRun.start 1 (by decide) le_rfl hreset

/-- `int x : 3` -/
theorem width_respected_iff_three :
    WidthRespected widthHeap (.basic T_INT) ⟨3, false, false⟩ widthLayouter (TypeInfo.scalar 4)
        (.member (bitfieldDecl "x" 3)) ↔
      WidthFits widthHeap (.basic T_INT) (.named (declNew "x") (some ⟨3, false, false⟩))
        ⟨3, false, false⟩ widthLayouter (TypeInfo.scalar 4) := by
  have hinfo : getTypeInfo lp64 alignment4 1 ⟨widthHeap, widthLayouter⟩ (.basic T_INT)
      (some (RecordedMember.member (bitfieldDecl "x" 3)).decl) =
        .ok (⟨widthHeap, widthLayouter⟩, TypeInfo.scalar 4) := rfl
  exact width_respected_iff widthHeap_sizes rfl rfl widthLayouter_open hinfo

/-- The Generic class never finds a place for `int x : 33`, `int y : 257` is recorded with a
single bit, and a width that is not known is dropped from `int z : WIDTH`. -/
theorem width_not_respected :
    (memberDeclarator (.named (declNew "x") (some ⟨33, false, false⟩)) =
        .ok (.member (bitfieldDecl "x" 33)) ∧
      (∀ fuel, genericAdvance 33 ⟨0, 4, 4⟩ fuel 0 0 = .error .divergence) ∧
      ¬ WidthRespected widthHeap (.basic T_INT) ⟨33, false, false⟩ widthLayouter
        (TypeInfo.scalar 4) (.member (bitfieldDecl "x" 33))) ∧
    (memberDeclarator (.named (declNew "y") (some ⟨257, false, false⟩)) =
        .ok (.member (bitfieldDecl "y" 1)) ∧
      ¬ WidthRespected widthHeap (.basic T_INT) ⟨257, false, false⟩ widthLayouter
        (TypeInfo.scalar 4) (.member (bitfieldDecl "y" 1))) ∧
    (memberDeclarator (.named (declNew "z") (some undefVal)) = .ok (.member (declNew "z")) ∧
      ¬ WidthRespected widthHeap (.basic T_INT) undefVal widthLayouter (TypeInfo.scalar 4)
        (.member (declNew "z"))) := by
  refine ⟨⟨rfl, fun fuel => genericAdvance_diverges (by decide) fuel le_rfl, ?_⟩, ⟨rfl, ?_⟩,
    ⟨rfl, ?_⟩⟩
  · rintro ⟨-, hpush⟩
    obtain ⟨error, bl', decl, hok, -⟩ := hpush _ _ rfl rfl
    exact nomatch hok
  · rintro ⟨⟨-, -, -, bit, hbit, hbits⟩, -⟩
    cases hbit
    exact absurd hbits (by decide)
  · rintro ⟨hrec, -⟩
    exact absurd hrec.1 (by decide)

end ConvertBinaryC
