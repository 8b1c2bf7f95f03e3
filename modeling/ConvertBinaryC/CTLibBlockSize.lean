import ConvertBinaryC.CTLibBitfieldDisjoint
import ConvertBinaryC.CTLibFetchStore

/-! The block size of the Simple class. It divides offsets, it is recorded in a byte, and it is
the size of the integers in which bit-fields are stored. -/
namespace ConvertBinaryC
open FoldRules

/-- What is stored in a bit-field is fetched again, modulo its width. -/
def BitfieldInfo.RoundTrips (info : BitfieldInfo) : Prop :=
  ∀ (bo : CByteOrder) (mem : Memory) (ptr : ℕ) (v : ℤ) (sign sign' : Bool) (pIV : IntValue),
    pIV.string = none → ∃ mem' f,
      storeInteger info.size.toNat info.bits.toNat info.pos.toNat bo mem ptr
        ⟨BitVec.ofInt 64 v, sign', none⟩ = .ok mem' ∧
      fetchInteger info.size.toNat sign info.bits.toNat info.pos.toNat bo mem' ptr pIV = .ok f ∧
      f.toInt = wrapInteger sign info.bits.toNat v

/-- Where the block of a field starts in its run: a zero width and a field that does not fit
leave the current block. -/
def BLBlock.startFor (b : BLBlock) (bits : ℤ) : ℤ :=
  if bits = 0 ∨ bits > b.bits_left then b.pos + b.block_size else b.pos

/-- A bit-field that has been placed in the current block `b`: the offset and the size of the
block and the position in it are recorded as they are, and the bit-field can be used. -/
structure SafelyPlaced (bl : BitfieldLayouter) (b : BLBlock) (width : ℤ) (pDecl : Declarator)
    (info : BitfieldInfo) : Prop where
  ext : pDecl.ext = .bitfield info
  offset : pDecl.offset = bl.offset + b.pos
  decl_size : pDecl.size = b.block_size
  size : info.size = b.block_size
  bits : info.bits = width
  pos : info.pos = simplePos bl.byte_order { b with bits_left := b.bits_left + width } width
  handled : IntegerSize info.size.toNat
  roundTrips : info.RoundTrips

/-- A push divides by no zero, it finds the right block, and a bit-field with a width is placed
safely. -/
def SafePush (kind : CompoundKind) (f : Frame) (info : TypeInfo) (pDecl : Declarator)
    (bit : BitfieldInfo) : Prop :=
  ∃ bl b bl' b' pDecl', startBitfield kind f = .ok bl ∧ bl.blc = .simple b ∧
    bl.push ⟨pDecl, bit, info.item_size, info.align⟩ = .ok (.noError, bl', pDecl') ∧
    bl'.blc = .simple b' ∧ b'.pos = b.startFor bit.bits ∧
    (bit.bits ≠ 0 → ∃ placed, SafelyPlaced bl' b' bit.bits pDecl' placed)

def SafeMember (kind : CompoundKind) (f : Frame) (step : MemberStep) : Prop :=
  ∀ pDecl bit, step.member.pDecl = some pDecl → pDecl.ext = .bitfield bit →
    SafePush kind f step.info pDecl bit

/-- The block in which a push finds the layouter: the current one of an open run or the first
one of a new run. -/
def openBlock (f : Frame) (b : BLBlock) : BLBlock :=
  if f.in_bitfield then b else { b with pos := 0, bits_left := i32 (8 * b.block_size) }

/-- Where the run starts in the compound. -/
def openOffset (kind : CompoundKind) (f : Frame) : ℤ :=
  if f.in_bitfield then f.bl.offset
  else match kind with
    | .struct => f.size
    | .union => 0

/-- The values of the bit-field `offset` of a declarator. -/
def OffsetFits (x : ℤ) : Prop := -268435456 ≤ x ∧ x < 268435456

instance : DecidablePred OffsetFits := fun _ => inferInstanceAs (Decidable (_ ∧ _))

/-- No bit-field without a block, no width without an integer for it, and no block that starts
where the offset of a declarator does not reach. -/
def BlockFits (kind : CompoundKind) (f : Frame) (m : Member) : Prop :=
  ∀ pDecl bit, m.pDecl = some pDecl → pDecl.ext = .bitfield bit → ∃ b, f.bl.blc = .simple b ∧
    b.block_size ≠ 0 ∧ IsLong (8 * b.block_size) ∧ IsInt ((openBlock f b).startFor bit.bits) ∧
    (bit.bits ≠ 0 → IntegerSize b.block_size.toNat ∧ bit.bits ≤ 8 * b.block_size ∧
      OffsetFits (openOffset kind f + (openBlock f b).startFor bit.bits))

section Windows
variable {info : BitfieldInfo}

theorem BitfieldInfo.roundTrips (hs : IntegerSize info.size.toNat) (hbits : 0 < info.bits)
    (hpos : 0 ≤ info.pos) (hfit : info.pos + info.bits ≤ 8 * info.size) : info.RoundTrips := by
  intro bo mem ptr v sign sign' pIV hstr
  have hw : info.bits.toNat + windowShift info.bits.toNat info.pos.toNat ≤ 8 * info.size.toNat := by
    unfold windowShift
    split_ifs <;> omega
  obtain ⟨mem', hstore, -⟩ := storeInteger_window _ _ _ hs hw bo mem ptr
    ⟨BitVec.ofInt 64 v, sign', none⟩
  obtain ⟨f, hfetch, -, hval⟩ := fetchInteger_of_storeInteger _ _ _ hs hw bo mem mem' ptr sign sign' v
    pIV hstr hstore
  unfold windowWidth at hval
  rw [if_neg (by omega)] at hval
  exact ⟨mem', f, hstore, hfetch, hval⟩

theorem shiftInteger_le {value shifted : BitVec 64} {shift : ℕ}
    (h : shiftInteger value shift .right = .ok shifted) : shifted.toNat ≤ value.toNat := by
  unfold shiftInteger at h
  split_ifs at h
  cases h
  rw [BitVec.toNat_ushiftRight]
  exact Nat.shiftRight_le ..

theorem maskInteger_le {value masked : BitVec 64} {bits shift : ℕ}
    (h : maskInteger value bits shift false = .ok masked) : masked.toNat ≤ value.toNat := by
  obtain ⟨mask, -, h⟩ := bind_ok h
  rw [if_neg (by simp)] at h
  cases h
  rw [BitVec.toNat_and]
  exact Nat.and_le_left

/-- An unsigned fetch gives no more than the unit holds. -/
theorem fetchInteger_lt {size bits shift : ℕ} (hs : IntegerSize size) {bo : CByteOrder}
    {mem : Memory} {ptr : ℕ} {pIV f : IntValue}
    (h : fetchInteger size false bits shift bo mem ptr pIV = .ok f) :
    f.toInt < 2 ^ (8 * size) := by
  have hword : (fetchSwitch size false bo mem ptr pIV.value).toNat < 2 ^ (8 * size) := by
    have hwiden (w : ℕ) (x : BitVec w) : (widen false x).toNat < 2 ^ w := by
      have hle : (widen false x).toNat ≤ x.toNat := by
        unfold widen
        rw [if_neg (by decide), BitVec.toNat_setWidth]
        exact Nat.mod_le ..
      exact hle.trans_lt x.isLt
    rcases hs with rfl | rfl | rfl | rfl <;> cases bo <;> exact hwiden _ _
  obtain ⟨value, hvalue, h⟩ := bind_ok h
  obtain ⟨string, -, h⟩ := bind_ok h
  cases h
  have hle : value.toNat ≤ (fetchSwitch size false bo mem ptr pIV.value).toNat := by
    split_ifs at hvalue
    · obtain ⟨shifted, hshift, hmask⟩ := bind_ok hvalue
      exact (maskInteger_le hmask).trans (shiftInteger_le hshift)
    · exact maskInteger_le hvalue
    · cases hvalue
      exact le_rfl
  show (value.toNat : ℤ) < 2 ^ (8 * size)
  exact_mod_cast hle.trans_lt hword

/-- A unit that is too small for the width loses the bit above it. -/
theorem BitfieldInfo.RoundTrips.bits_le (h : info.RoundTrips) (hs : IntegerSize info.size.toNat) :
    info.bits ≤ 8 * info.size := by
  by_contra hwide
  have hpos := hs.pos
  have hlt : 8 * info.size.toNat < info.bits.toNat := by omega
  obtain ⟨mem', f, -, hfetch, hval⟩ := h .littleEndian (fun _ => 0) 0 (2 ^ (8 * info.size.toNat))
    false false ⟨0, false, none⟩ rfl
  have hsmall := fetchInteger_lt hs hfetch
  have hpow : (2 : ℤ) ^ (8 * info.size.toNat) < 2 ^ info.bits.toNat :=
    pow_lt_pow_right₀ (by decide) hlt
  have hwrap : wrapInteger false info.bits.toNat (2 ^ (8 * info.size.toNat)) =
      2 ^ (8 * info.size.toNat) :=
    Int.emod_eq_of_lt (by positivity) hpow
  rw [hval, hwrap] at hsmall
  exact lt_irrefl _ hsmall

end Windows

section Pushes
variable {self : BitfieldLayouter} {b : BLBlock} {p : BLPushParam} {kind : CompoundKind}
  {f : Frame} {v : ℤ}

/-- The state of the class in a compound: an open run has a block, with no more bits left than it
has. -/
def BlockState (v : ℤ) (in_bitfield : Bool) (blc : BLClass) : Prop :=
  ∃ b, blc = .simple b ∧ b.block_size = v ∧ (in_bitfield = true →
    v ≠ 0 ∧ IsLong (8 * v) ∧ b.bits_left ≤ i32 (8 * v) ∧ IsInt b.pos)

theorem BlockState.of_blank {blc blc' : BLClass} {open' : Bool} (h : BlockState v open' blc)
    (hblank : blc'.blank = blc.blank) : BlockState v false blc' := by
  obtain ⟨b, rfl, hsize, -⟩ := h
  cases blc' with
  | generic u => exact nomatch hblank
  | microsoft u => exact nomatch hblank
  | simple b' =>
    have hblocks : BLClass.simple ⟨b'.block_size, 0, 0⟩ = .simple ⟨b.block_size, 0, 0⟩ := hblank
    obtain ⟨heq, -⟩ := BLBlock.mk.inj (BLClass.simple.inj hblocks)
    exact ⟨b', rfl, heq.trans hsize, nofun⟩

/-- An open run goes on, and another one starts unless the block size is zero or has too many
bits. -/
theorem startBitfield_simple (kind : CompoundKind) (h : BlockState v f.in_bitfield f.bl.blc) :
    (¬(v ≠ 0 ∧ IsLong (8 * v)) ∧ ∃ e, startBitfield kind f = .error e) ∨
      (v ≠ 0 ∧ IsLong (8 * v) ∧ ∃ b bl, f.bl.blc = .simple b ∧ b.block_size = v ∧
        startBitfield kind f = .ok bl ∧ bl.blc = .simple (openBlock f b) ∧
        bl.offset = openOffset kind f ∧ BlockState v true bl.blc ∧ f.bl.Like bl) := by
  obtain ⟨b, hblc, rfl, hopen⟩ := h
  unfold startBitfield openBlock openOffset
  cases hin : f.in_bitfield with
  | true =>
    obtain ⟨hv, hlong, hleft, hpos⟩ := hopen hin
    exact Or.inr ⟨hv, hlong, b, f.bl, hblc, rfl, rfl, hblc, rfl,
      ⟨b, hblc, rfl, fun _ => ⟨hv, hlong, hleft, hpos⟩⟩, .refl _⟩
  | false =>
    have hreset : f.bl.reset = simpleReset f.bl b := by
      unfold BitfieldLayouter.reset
      rw [hblc]
    by_cases hv : b.block_size = 0
    · refine Or.inl ⟨fun h => h.1 hv, .divideByZero, ?_⟩
      rw [hreset, simpleReset, if_pos hv]
      rfl
    by_cases hlong : IsLong (8 * b.block_size)
    · have hok : ∃ bl, simpleReset f.bl b = .ok bl ∧
          bl.blc = .simple { b with pos := 0, bits_left := i32 (8 * b.block_size) } := by
        unfold simpleReset
        rw [if_neg hv, long_ok_iff.mpr ⟨hlong, rfl⟩]
        exact ⟨_, rfl, rfl⟩
      obtain ⟨bl, hok, hblc'⟩ := hok
      have hlike := BitfieldLayouter.reset_like (hreset.trans hok)
      rw [hreset, hok]
      exact Or.inr ⟨hv, hlong, b, _, hblc, rfl, rfl, hblc', rfl,
        ⟨_, hblc', rfl, fun _ => ⟨hv, hlong, le_rfl, i32_isInt 0⟩⟩,
        ⟨hlike.blank, hlike.byte_order, hlike.max_align⟩⟩
    · refine Or.inl ⟨fun h => hlong h.2, .undefinedBehaviour, ?_⟩
      rw [hreset, simpleReset, if_neg hv, long, if_neg hlong]
      rfl

/-- What a push does: a bit-field with a width goes into a block that has `left` bits, all of them
if it does not fit into the current one. -/
theorem simplePush_ok (hblc : self.blc = .simple b) (h : BlockState v true self.blc)
    (hbits : 0 ≤ p.bit.bits) :
    ∃ bl b' pDecl, self.push p = .ok (.noError, bl, pDecl) ∧ bl.blc = .simple b' ∧
      BlockState v true bl.blc ∧ bl.byte_order = self.byte_order ∧ bl.offset = self.offset ∧
      b'.pos = i32 (b.startFor p.bit.bits) ∧
      (p.bit.bits ≠ 0 → ∃ left, left ≤ i32 (8 * v) ∧ (p.bit.bits ≤ left ∨ left = i32 (8 * v)) ∧
        b'.block_size = v ∧ b'.bits_left = left - p.bit.bits ∧
        pDecl.offset = s29 (self.offset + b'.pos) ∧ pDecl.size = i32 v ∧ pDecl.ext = .bitfield
          ⟨u8 v, p.bit.bits,
            u8 (simplePos self.byte_order { b' with bits_left := left } p.bit.bits)⟩) := by
  obtain ⟨b₀, hblc₀, rfl, hopen⟩ := h
  obtain rfl : b = b₀ := BLClass.simple.inj (hblc.symm.trans hblc₀)
  obtain ⟨hv, hlong, hleft, hpos⟩ := hopen rfl
  have hpush : self.push p = .ok (simplePush self b p) := by
    unfold BitfieldLayouter.push
    rw [hblc]
  rw [hpush]
  unfold simplePush BLBlock.startFor
  by_cases hzero : p.bit.bits = 0
  · rw [if_pos hzero, if_pos (Or.inl hzero)]
    exact ⟨_, simpleNextBlock b, _, rfl, rfl,
      ⟨_, rfl, rfl, fun _ => ⟨hv, hlong, le_rfl, i32_isInt _⟩⟩, rfl, rfl, rfl,
      fun hne => absurd hzero hne⟩
  · rw [if_neg hzero]
    by_cases hfull : p.bit.bits > b.bits_left
    · rw [if_pos hfull, if_pos (Or.inr hfull)]
      refine ⟨_, { simpleNextBlock b with bits_left := (simpleNextBlock b).bits_left - p.bit.bits },
        _, rfl, rfl, ⟨_, rfl, rfl, fun _ => ⟨hv, hlong, ?_, i32_isInt _⟩⟩, rfl, rfl, rfl,
        fun _ => ⟨_, le_rfl, Or.inr rfl, rfl, rfl, rfl, rfl, rfl⟩⟩
      exact sub_le_self (i32 (8 * b.block_size)) hbits
    · have hstay : ¬(p.bit.bits = 0 ∨ p.bit.bits > b.bits_left) := not_or.mpr ⟨hzero, hfull⟩
      rw [if_neg hfull, if_neg hstay]
      refine ⟨_, { b with bits_left := b.bits_left - p.bit.bits }, _, rfl, rfl,
        ⟨_, rfl, rfl, fun _ => ⟨hv, hlong, ?_, hpos⟩⟩, rfl, rfl, ?_,
        fun _ => ⟨_, hleft, Or.inl (not_lt.mp hfull), rfl, rfl, rfl, rfl, rfl⟩⟩
      · exact (sub_le_self _ hbits).trans hleft
      · exact (i32_of_lt hpos.1 hpos.2).symm

/-- The field is safe exactly if the block size is that of an integer with room for it, and the
block starts at an offset that can be recorded. -/
theorem safelyPlaced_iff {bl : BitfieldLayouter} {b : BLBlock} {bits left : ℤ} {pDecl : Declarator}
    (hbits : 0 < bits) (hroom : bits ≤ left ∨ left = i32 (8 * v)) (hle : left ≤ i32 (8 * v))
    (hsize : b.block_size = v) (hleft : b.bits_left = left - bits)
    (hoffset : pDecl.offset = s29 (bl.offset + b.pos)) (hdecl : pDecl.size = i32 v)
    (hext : pDecl.ext = .bitfield
      ⟨u8 v, bits, u8 (simplePos bl.byte_order { b with bits_left := left } bits)⟩) :
    (∃ placed, SafelyPlaced bl b bits pDecl placed) ↔
      IntegerSize v.toNat ∧ bits ≤ 8 * v ∧ OffsetFits (bl.offset + b.pos) := by
  constructor
  · rintro ⟨placed, hplaced⟩
    have hinfo := DeclaratorExt.bitfield.inj (hplaced.ext.symm.trans hext)
    have hv : placed.size = v := hplaced.size.trans hsize
    have hwide := hplaced.roundTrips.bits_le hplaced.handled
    rw [hplaced.bits, hv] at hwide
    refine ⟨hv ▸ hplaced.handled, hwide, ?_⟩
    have hkept := hoffset.symm.trans hplaced.offset
    have hlo := @Int.le_bmod (bl.offset + b.pos) 536870912 (by decide)
    have hlt := s29_lt (bl.offset + b.pos)
    unfold s29 at hkept hlt
    exact ⟨by omega, by omega⟩
  · rintro ⟨hint, hwide, hstart⟩
    have hv : v = 1 ∨ v = 2 ∨ v = 4 ∨ v = 8 := by
      unfold IntegerSize at hint
      omega
    have hi32 : i32 (8 * v) = 8 * v := i32_of_lt (by omega) (by omega)
    rw [hi32] at hroom hle
    have hu8 : u8 v = v := u8_of_lt (by omega) (by omega)
    have hv32 : i32 v = v := i32_of_lt (by omega) (by omega)
    have hpos : 0 ≤ simplePos bl.byte_order { b with bits_left := left } bits ∧
        simplePos bl.byte_order { b with bits_left := left } bits + bits ≤ 8 * v := by
      cases bl.byte_order <;> simp only [simplePos, hsize] <;> omega
    have hpos8 := u8_of_lt hpos.1 (by omega)
    refine ⟨_, hext, hoffset.trans (s29_of_lt hstart.1 hstart.2),
      (hdecl.trans hv32).trans hsize.symm, hu8.trans hsize.symm, rfl, ?_, ?_, ?_⟩
    · show u8 _ = _
      rw [hpos8, hleft, sub_add_cancel]
    · show IntegerSize (u8 v).toNat
      rwa [hu8]
    · apply BitfieldInfo.roundTrips
      · show IntegerSize (u8 v).toNat
        rwa [hu8]
      · exact hbits
      · show 0 ≤ u8 _
        rw [hpos8]
        exact hpos.1
      · show u8 _ + bits ≤ 8 * u8 v
        rw [hpos8, hu8]
        exact hpos.2

/-- The push of a bit-field at a frame of the run. -/
theorem safePush_iff {info : TypeInfo} {pDecl : Declarator} {bit : BitfieldInfo}
    (h : BlockState v f.in_bitfield f.bl.blc) (hbits : 0 ≤ bit.bits) :
    SafePush kind f info pDecl bit ↔ ∃ b, f.bl.blc = .simple b ∧
      b.block_size ≠ 0 ∧ IsLong (8 * b.block_size) ∧ IsInt ((openBlock f b).startFor bit.bits) ∧
      (bit.bits ≠ 0 → IntegerSize b.block_size.toNat ∧ bit.bits ≤ 8 * b.block_size ∧
        OffsetFits (openOffset kind f + (openBlock f b).startFor bit.bits)) := by
  rcases startBitfield_simple kind h with
    ⟨hv, e, hstart⟩ | ⟨hv, hlong, b, bl, hblc, rfl, hstart, hopen, hoffset, hstate, -⟩
  · apply iff_of_false
    · rintro ⟨bl, -, -, -, -, hok, -⟩
      exact nomatch hstart.symm.trans hok
    · rintro ⟨b, hblc, hne, hlong, -⟩
      obtain ⟨b', hblc', rfl, -⟩ := h
      obtain rfl : b = b' := BLClass.simple.inj (hblc.symm.trans hblc')
      exact hv ⟨hne, hlong⟩
  · obtain ⟨bl', b', pDecl', hpush, hblc', -, hbo, hoff, hpos, hplaced⟩ :=
      @simplePush_ok bl (openBlock f b) ⟨pDecl, bit, info.item_size, info.align⟩ b.block_size hopen
        hstate hbits
    have hfield (hne : bit.bits ≠ 0) : (∃ placed, SafelyPlaced bl' b' bit.bits pDecl' placed) ↔
        IntegerSize b.block_size.toNat ∧ bit.bits ≤ 8 * b.block_size ∧
          OffsetFits (openOffset kind f + b'.pos) := by
      obtain ⟨left, hle, hroom, hsize, hleft, hdeclOffset, hdecl, hext⟩ := hplaced hne
      rw [← hoff] at hdeclOffset
      rw [← hbo] at hext
      rw [← hoffset, ← hoff]
      exact safelyPlaced_iff (lt_of_le_of_ne hbits hne.symm) hroom hle hsize hleft hdeclOffset
        hdecl hext
    -- the block is the right one unless its position is cut to an int
    have hexact : b'.pos = (openBlock f b).startFor bit.bits ↔
        IsInt ((openBlock f b).startFor bit.bits) := by
      rw [hpos]
      exact ⟨fun heq => heq ▸ i32_isInt _, fun hint => i32_of_lt hint.1 hint.2⟩
    constructor
    · rintro ⟨bl₁, b₁, bl₂, b₂, pDecl₁, hstart₁, hblc₁, hpush₁, hblc₂, hright, hsafe⟩
      obtain rfl := Except.ok.inj (hstart.symm.trans hstart₁)
      obtain ⟨rfl, rfl⟩ : bl' = bl₂ ∧ pDecl' = pDecl₁ := by
        simpa using hpush.symm.trans hpush₁
      obtain rfl : b' = b₂ := BLClass.simple.inj (hblc'.symm.trans hblc₂)
      obtain rfl : openBlock f b = b₁ := BLClass.simple.inj (hopen.symm.trans hblc₁)
      refine ⟨b, hblc, hv, hlong, hexact.mp hright, fun hne => ?_⟩
      rw [← hright]
      exact (hfield hne).mp (hsafe hne)
    · rintro ⟨b₀, hblc₀, -, -, hint, hall⟩
      obtain rfl : b = b₀ := BLClass.simple.inj (hblc.symm.trans hblc₀)
      refine ⟨bl, openBlock f b, bl', b', pDecl', hstart, hopen, hpush, hblc', hexact.mpr hint,
        fun hne => (hfield hne).mpr ?_⟩
      rw [hexact.mpr hint]
      exact hall hne

theorem BlockState.finalize {o : Bool} (h : BlockState v o self.blc) :
    BlockState v o self.finalize.blc := by
  obtain ⟨b, hblc, hsize, hopen⟩ := h
  unfold BitfieldLayouter.finalize
  rw [hblc]
  refine ⟨_, rfl, hsize, fun ho => ?_⟩
  obtain ⟨hv, hlong, hleft, hpos⟩ := hopen ho
  refine ⟨hv, hlong, hleft, ?_⟩
  dsimp only
  split_ifs
  · exact i32_isInt _
  · exact hpos

end Pushes

section Members
variable {kind : CompoundKind} {alignment v : ℤ} {f f' : Frame} {step : MemberStep}
  {placed : Placed}

/-- The width of a bit-field is stored without a sign. -/
def Member.WidthUnsigned (m : Member) : Prop :=
  ∀ pDecl bit, m.pDecl = some pDecl → pDecl.ext = .bitfield bit → 0 ≤ bit.bits

theorem safeMember_iff (h : BlockState v f.in_bitfield f.bl.blc)
    (hbits : step.member.WidthUnsigned) :
    SafeMember kind f step ↔ BlockFits kind f step.member := by
  refine forall₂_congr fun pDecl bit => forall₂_congr fun hdecl hext => ?_
  exact safePush_iff h (hbits pDecl bit hdecl hext)

theorem placeMember_layouter {info : TypeInfo} {pos : ℤ}
    (h : placeMember kind alignment info f = .ok (pos, f')) :
    f'.bl = f.bl ∧ f'.in_bitfield = f.in_bitfield := by
  unfold placeMember at h
  cases kind with
  | union =>
    cases h
    exact ⟨rfl, rfl⟩
  | struct =>
    dsimp only at h
    split_ifs at h <;> cases h <;> exact ⟨rfl, rfl⟩

/-- Every member keeps the block. -/
theorem BlockState.member (h : BlockState v f.in_bitfield f.bl.blc)
    (hbits : step.member.WidthUnsigned)
    (hok : memberStep kind alignment f step = .ok (f', placed)) :
    BlockState v f'.in_bitfield f'.bl.blc := by
  rcases memberStep_ok hok with ⟨pDecl, bit, pDecl', hdecl, hext, hpush, -⟩ | ⟨-, pos, hplace, -⟩
  · obtain ⟨bl, hstart, hpush⟩ := bind_ok hpush
    have hstart' : startBitfield kind f = .ok bl := hstart
    rcases startBitfield_simple kind h with
      ⟨-, e, herror⟩ | ⟨-, -, b, bl₀, -, -, hbl₀, hblc, -, hstate, -⟩
    · exact nomatch herror.symm.trans hstart'
    · obtain rfl := Except.ok.inj (hbl₀.symm.trans hstart')
      obtain ⟨bl', b', pDecl₁, hpush', -, hstate', -⟩ :=
        @simplePush_ok bl₀ _ ⟨pDecl, bit, step.info.item_size, step.info.align⟩ v hblc hstate
          (hbits pDecl bit hdecl hext)
      rw [hpush', call_bind_apply] at hpush
      cases kind with
      | struct =>
        cases hpush
        exact hstate'
      | union =>
        cases hpush
        obtain ⟨b', hblc', hsize', hopen'⟩ := hstate'.finalize
        exact ⟨b', hblc', hsize', fun _ => hopen' rfl⟩
  · obtain ⟨hbl, hin⟩ := placeMember_layouter hplace
    rw [hbl, hin]
    show BlockState v (finishOpenBitfield f).in_bitfield (finishOpenBitfield f).bl.blc
    unfold finishOpenBitfield
    split_ifs with hopen
    · obtain ⟨b', hblc', hsize', -⟩ := h.finalize
      exact ⟨b', hblc', hsize', nofun⟩
    · exact h

/-- By induction on the members: a safe one is followed by the next. -/
theorem members_safe_iff {steps : List MemberStep} (h : BlockState v f.in_bitfield f.bl.blc)
    (hbits : ∀ step ∈ steps, step.member.WidthUnsigned) :
    AlongM (memberStep kind alignment) (SafeMember kind) (fun _ => True) f steps ↔
      AlongM (memberStep kind alignment) (fun f step => BlockFits kind f step.member)
        (fun _ => True) f steps := by
  induction steps generalizing f with
  | nil => exact Iff.rfl
  | cons step steps ih =>
    have hstep := hbits step List.mem_cons_self
    have hrest (f' : Frame) (placed : Placed)
        (hok : memberStep kind alignment f step = .ok (f', placed)) :=
      ih (h.member hstep hok) (fun s hs => hbits s (List.mem_cons_of_mem step hs))
    constructor
    · rintro ⟨hsafe, hnext⟩
      exact ⟨(safeMember_iff h hstep).mp hsafe, fun f' placed hok =>
        (hrest f' placed hok).mp (hnext f' placed hok)⟩
    · rintro ⟨hfits, hall⟩
      exact ⟨(safeMember_iff h hstep).mpr hfits, fun f' placed hok =>
        (hrest f' placed hok).mpr (hall f' placed hok)⟩

end Members

/-- The layout of a compound with the Simple class is safe if the block fits each bit-field in the
state in which its push finds the layouter, and only then. -/
theorem simple_block_size_safe_iff {arch : NativeArch} {pLP : LayoutParam} {bl : BitfieldLayouter}
    {b : BLBlock} {pStruct : Struct} {steps : List MemberStep} (hblc : bl.blc = .simple b)
    (hsteps : steps.map MemberStep.member = pStruct.members)
    (hbits : ∀ m ∈ pStruct.members, m.WidthUnsigned) :
    AlongM (memberStep pStruct.kind (structAlignment arch pLP pStruct)) (SafeMember pStruct.kind)
        (fun _ => True) (initialFrame arch pLP bl pStruct) steps ↔
      AlongM (memberStep pStruct.kind (structAlignment arch pLP pStruct))
        (fun f step => BlockFits pStruct.kind f step.member) (fun _ => True)
        (initialFrame arch pLP bl pStruct) steps := by
  have hstate : BlockState b.block_size (initialFrame arch pLP bl pStruct).in_bitfield
      (initialFrame arch pLP bl pStruct).bl.blc :=
    ⟨b, hblc, rfl, nofun⟩
  rw [← hsteps, List.forall_mem_map] at hbits
  exact members_safe_iff hstate hbits

/-- `struct { int a : 3; int b : 5; }` -/
def threeFive : Struct :=
  structOf "" [declaration (.basic T_INT) [bitfieldDecl "a" 3],
    declaration (.basic T_INT) [bitfieldDecl "b" 5]]

/-- The members with the type information of an int. -/
def threeFiveSteps : List MemberStep :=
  threeFive.members.map fun m => ⟨m, TypeInfo.scalar 4⟩

/-- A layouter of the Simple class with a block size. -/
def simpleBlocks (block_size : ℤ) : BitfieldLayouter := blCreate (.simple ⟨block_size, 0, 0⟩)

theorem simple_block_size_safe_byte :
    AlongM (memberStep .struct 4) (SafeMember .struct) (fun _ => True)
      (initialFrame lp64 alignment4 (simpleBlocks 1) threeFive) threeFiveSteps := by
  have hbits : ∀ m ∈ threeFive.members, m.WidthUnsigned := by
    intro m hm pDecl bit hdecl hext
    rcases List.mem_cons.mp hm with rfl | hm
    · cases hdecl
      cases hext
      decide
    · obtain rfl := List.mem_singleton.mp hm
      cases hdecl
      cases hext
      decide
  have hsafe := @simple_block_size_safe_iff lp64 alignment4 (simpleBlocks 1) ⟨1, 0, 0⟩ threeFive
    threeFiveSteps rfl rfl hbits
  apply hsafe.mpr
  refine ⟨?_, ?_⟩
  · intro pDecl bit hdecl hext
    cases hdecl
    cases hext
    exact ⟨_, rfl, by decide, by decide, by decide, fun _ => ⟨Or.inl rfl, by decide, by decide⟩⟩
  · intro f' placed hok
    cases hok
    refine ⟨?_, fun _ _ _ => trivial⟩
    intro pDecl bit hdecl hext
    cases hdecl
    cases hext
    exact ⟨_, rfl, by decide, by decide, by decide, fun _ => ⟨Or.inl rfl, by decide, by decide⟩⟩

/-- `struct { char c[268435456]; int a : 3; }` -/
def farField : Struct :=
  structOf "" [declaration (.basic T_CHAR) [{ declNew "c" with ext := .array [⟨268435456, false, false⟩] }],
    declaration (.basic T_INT) [bitfieldDecl "a" 3]]

def farFieldSteps : List MemberStep :=
  farField.members.zipWith MemberStep.mk
    [⟨268435456, 1, 1, false, false, false⟩, TypeInfo.scalar 4]

/-- A block size of zero divides by it, one of 260 is recorded as 4, and the unit at 2^28 is
recorded at -2^28. -/
theorem simple_block_size_unsafe :
    ¬AlongM (memberStep .struct 4) (SafeMember .struct) (fun _ => True)
        (initialFrame lp64 alignment4 (simpleBlocks 0) threeFive) threeFiveSteps ∧
      ¬AlongM (memberStep .struct 4) (SafeMember .struct) (fun _ => True)
        (initialFrame lp64 alignment4 (simpleBlocks 260) threeFive) threeFiveSteps ∧
      ¬AlongM (memberStep .struct 4) (SafeMember .struct) (fun _ => True)
        (initialFrame lp64 alignment4 (simpleBlocks 4) farField) farFieldSteps := by
  refine ⟨?_, ?_, ?_⟩
  · rintro ⟨hfirst, -⟩
    obtain ⟨bl, -, -, -, -, hstart, -⟩ := hfirst (bitfieldDecl "a" 3) ⟨0, 3, 0⟩ rfl rfl
    exact nomatch hstart
  · rintro ⟨hfirst, -⟩
    obtain ⟨bl, b, bl', b', pDecl, hstart, -, hpush, hblc, -, hsafe⟩ :=
      hfirst (bitfieldDecl "a" 3) ⟨0, 3, 0⟩ rfl rfl
    cases hstart
    cases hpush
    cases hblc
    obtain ⟨placed, hplaced⟩ := hsafe (by decide)
    have hext : placed = ⟨4, 3, 0⟩ := DeclaratorExt.bitfield.inj hplaced.ext.symm
    have hsize := hplaced.size
    rw [hext] at hsize
    exact absurd hsize (by decide)
  · rintro ⟨-, hrest⟩
    obtain ⟨hfield, -⟩ := hrest _ _ rfl
    obtain ⟨bl, b, bl', b', pDecl, hstart, -, hpush, hblc, -, hsafe⟩ :=
      hfield (bitfieldDecl "a" 3) ⟨0, 3, 0⟩ rfl rfl
    cases hstart
    cases hpush
    cases hblc
    obtain ⟨placed, hplaced⟩ := hsafe (by decide)
    exact absurd hplaced.offset (by decide)

end ConvertBinaryC
