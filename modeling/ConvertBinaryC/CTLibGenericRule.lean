import ConvertBinaryC.BitCounterRules
import ConvertBinaryC.CTLibLayoutRun

/-! The Generic class keeps an offset, a bit offset and the type of the last field. With
types aligned to their sizes this is one counter of bits. -/
namespace ConvertBinaryC
open FoldRules BitCounterRules

/-- The unit of the last field, if there is one, starts at a multiple of its size, which the
alignment has been raised to. -/
structure UnitAligned (u : BLUnit) (offset align : ℤ) : Prop where
  nonneg : 0 ≤ offset
  bit_offset : 0 ≤ u.bit_offset
  counted : u.cur_type_size ≤ align
  unit : u.cur_type_size = 0 ∨
    0 < u.cur_type_size ∧ u.cur_type_align = u.cur_type_size ∧ u.cur_type_size ∣ offset

section Push

variable {self : BitfieldLayouter} {u : BLUnit} {p : BLPushParam} {size : ℤ}

/-- A field of an integral type, whose alignment is its size and is not reduced. -/
structure BLPushParam.Integral (p : BLPushParam) (max_align size : ℤ) : Prop where
  type_size : p.type_size = size
  type_align : p.type_align = size
  pos : 0 < size
  le : size ≤ 8
  le_max : size ≤ max_align
  width : 0 ≤ p.bit.bits
  width_le : p.bit.bits ≤ 8 * size

theorem genericTypeChange_aligned (haligned : UnitAligned u self.offset self.align)
    (hp : p.Integral self.max_align size) :
    ∃ changed v, genericTypeChange self u p = .ok (changed, v) ∧ v.cur_type_size = size ∧
      v.cur_type_align = size ∧ size ∣ changed.offset ∧ 0 ≤ changed.offset ∧ 0 ≤ v.bit_offset ∧
      8 * changed.offset + v.bit_offset = 8 * self.offset + u.bit_offset ∧
      changed.align = max self.align size := by
  have hsize : i32 p.type_size = size := by
    rw [hp.type_size]
    exact i32_of_lt (by linarith [hp.pos]) (by linarith [hp.le])
  have htypeAlign : self.typeAlign p = size := by
    have halign : i32 p.type_align = size := by
      rw [hp.type_align]
      exact i32_of_lt (by linarith [hp.pos]) (by linarith [hp.le])
    have hmax := hp.le_max
    rw [BitfieldLayouter.typeAlign, halign]
    split_ifs <;> omega
  have hpos := hp.pos
  unfold genericTypeChange
  rw [hsize, htypeAlign]
  by_cases hsame : u.cur_type_size = size
  · rw [if_pos hsame]
    rcases haligned.unit with hzero | ⟨-, halign, hdvd⟩
    · omega
    · exact ⟨self, u, rfl, hsame, halign.trans hsame, hsame ▸ hdvd, haligned.nonneg,
        haligned.bit_offset, rfl, (max_eq_left (hsame ▸ haligned.counted)).symm⟩
  · rw [if_neg hsame, if_neg hpos.ne']
    have hdelta : self.offset.tmod size = self.offset % size :=
      Int.tmod_eq_emod_of_nonneg haligned.nonneg
    have hnonneg := Int.emod_nonneg self.offset hpos.ne'
    have hsplit := Int.mul_ediv_add_emod self.offset size
    have hquot := mul_nonneg hpos.le (Int.ediv_nonneg haligned.nonneg hpos.le)
    have hbit := haligned.bit_offset
    refine ⟨_, _, rfl, rfl, rfl, ?_, ?_, ?_, ?_, rfl⟩
    · exact ⟨self.offset / size, by dsimp only; omega⟩
    · dsimp only
      omega
    · dsimp only
      omega
    · dsimp only
      omega

/-- The loop moves the unit on until the field lies in it, and keeps the next free bit
unless the field does not fit before the unit's end. -/
theorem genericAdvance_rule {bits : ℤ} (hsize : u.cur_type_size = size)
    (halign : u.cur_type_align = size) (hpos : 0 < size)
    (hwide : bits ≤ 8 * size) {fuel : ℕ} {k bit_offset : ℤ} (hk : 0 ≤ size * k)
    (hB : 0 ≤ bit_offset) (hfuel : bit_offset.toNat + 2 ≤ fuel) :
    ∃ j r, genericAdvance bits u fuel (size * k) bit_offset = .ok (size * j, r) ∧
      0 ≤ size * j ∧ 0 ≤ r ∧ r + bits ≤ 8 * size ∧
      (bits = 0 → 8 * (size * j) + r = 8 * (size * k) + bit_offset) ∧
      (0 < bits → 8 * (size * j) + r =
        (Item.bitfield bits size).start (8 * (size * k) + bit_offset)) := by
  induction fuel generalizing k bit_offset with
  | zero => omega
  | succ fuel ih =>
    have hunit (i : ℤ) : 8 * (size * i) = 8 * size * i := by ring
    have hnext : size * k + size = size * (k + 1) := by ring
    unfold genericAdvance
    rw [hsize, halign, hnext]
    by_cases hfit : bits > 8 * size - bit_offset
    · rw [if_pos hfit]
      by_cases hmore : bit_offset > 8 * size
      · rw [if_pos hmore]
        obtain ⟨j, r, hok, hj, hr, hroom, hzero, hstart⟩ :=
          @ih (k + 1) (bit_offset - 8 * size) (by rw [← hnext]; omega) (by omega) (by omega)
        have hsame : 8 * (size * (k + 1)) + (bit_offset - 8 * size) =
            8 * (size * k) + bit_offset := by ring
        rw [hsame] at hzero hstart
        exact ⟨j, r, hok, hj, hr, hroom, hzero, hstart⟩
      · -- the next unit is empty, so the field fits there
        rw [if_neg hmore]
        obtain ⟨n, rfl⟩ : ∃ n, fuel = n + 1 := ⟨fuel - 1, by omega⟩
        refine ⟨k + 1, 0, ?_, by rw [← hnext]; omega, le_rfl, by omega, by omega, ?_⟩
        · unfold genericAdvance
          rw [hsize, if_neg (by omega)]
        · intro hwidth
          rw [hunit, hunit, start_next hwidth (by omega) hwide (by omega), add_zero]
    · rw [if_neg hfit]
      refine ⟨k, bit_offset, rfl, hk, hB, by omega, fun _ => rfl, ?_⟩
      intro hwidth
      rw [hunit, start_fits hB hwidth (by omega)]

/-- A push is one step of the rule. -/
theorem genericPush_rule (haligned : UnitAligned u self.offset self.align)
    (hp : p.Integral self.max_align size) :
    ∃ self' u' pDecl, genericPush self u p = .ok (.noError, self', pDecl) ∧
      self'.blc = .generic u' ∧ UnitAligned u' self'.offset self'.align ∧
      8 * self'.offset + u'.bit_offset =
        (Item.bitfield p.bit.bits size).stop (8 * self.offset + u.bit_offset) ∧
      self'.align = max self.align size ∧
      (p.bit.bits = 0 → pDecl = p.pDecl) ∧
      (p.bit.bits ≠ 0 → ∃ offset used_bytes bit_offset, pDecl = p.record offset used_bytes
          (unitPos self.byte_order used_bytes bit_offset p.bit.bits) ∧
        8 * offset + bit_offset =
          (Item.bitfield p.bit.bits size).start (8 * self.offset + u.bit_offset) ∧
        0 ≤ offset ∧ size ∣ offset ∧ 0 ≤ bit_offset ∧ bit_offset < 8 * size) := by
  obtain ⟨changed, v, hchange, hvsize, hvalign, ⟨k, hk⟩, hO, hB, hcursor, halign⟩ :=
    genericTypeChange_aligned haligned hp
  have hpos := hp.pos
  have hle := hp.le
  have hwidth := hp.width
  rw [hk] at hO
  obtain ⟨j, r, hadvance, hj, hr, hroom, hzero, hstart⟩ := genericAdvance_rule hvsize hvalign
    hpos hp.width_le hO hB (le_refl (v.bit_offset.toNat + 2))
  rw [← hk] at hadvance
  rw [← hk, hcursor] at hzero hstart
  have hpush : genericPush self u p = genericPlace changed v p (size * j) r := by
    unfold genericPush
    rw [hchange, call_bind_apply]
    dsimp only
    rw [int_ok_iff.mpr ⟨⟨by omega, by omega⟩, rfl⟩, call_bind_apply, hadvance, call_bind_apply]
  obtain ⟨hbo, -⟩ := genericTypeChange_fields hchange
  have hunit (i : ℤ) : 8 * (size * i) = 8 * size * i := by ring
  obtain ⟨_, vsize, valign⟩ := v
  dsimp only at hvsize hvalign
  subst hvsize hvalign
  have hcounted : valign ≤ changed.align := halign ▸ le_max_right _ _
  rw [hpush]
  unfold genericPlace
  dsimp only
  by_cases hbits : p.bit.bits = 0
  · rw [if_pos hbits, ← hzero hbits, hbits, hunit]
    by_cases hmore : 0 < r
    · -- a zero width leaves a unit in which something is stored
      have hmod : (valign * j).tmod valign = 0 := by
        rw [Int.tmod_eq_emod_of_nonneg hj, Int.mul_emod_right]
      have hnext : valign * j + valign = valign * (j + 1) := by ring
      rw [if_pos hmore, if_neg (by omega), hmod, sub_zero, hnext]
      refine ⟨_, _, _, rfl, rfl, ⟨?_, le_rfl, hcounted, Or.inr ⟨hpos, rfl, Dvd.intro _ rfl⟩⟩, ?_, halign,
        fun _ => rfl, fun hne => absurd rfl hne⟩
      · dsimp only
        omega
      · rw [Item.stop, start_zero hmore (by omega), add_zero, add_zero, hunit]
    · obtain rfl : r = 0 := by omega
      rw [if_neg hmore]
      refine ⟨_, _, _, rfl, rfl, ⟨hj, le_rfl, hcounted, Or.inr ⟨hpos, rfl, Dvd.intro _ rfl⟩⟩, ?_, halign,
        fun _ => rfl, fun hne => absurd rfl hne⟩
      simp only [Item.stop, add_zero, start_zero_aligned, hunit]
  · rw [if_neg hbits]
    have hwidth' : 0 < p.bit.bits := lt_of_le_of_ne hwidth (Ne.symm hbits)
    obtain ⟨used_bytes, hused⟩ : ∃ used_bytes, usedBytes (r + p.bit.bits) = .ok used_bytes := by
      unfold usedBytes
      split_ifs
      · exact ⟨_, rfl⟩
      · exact ⟨_, rfl⟩
      · exact ⟨_, rfl⟩
      · exact ⟨_, rfl⟩
      · omega
    rw [hused, call_bind_apply]
    refine ⟨_, _, _, rfl, rfl, ⟨hj, ?_, hcounted, Or.inr ⟨hpos, rfl, Dvd.intro _ rfl⟩⟩, ?_, halign,
      fun hzero => absurd hzero hbits, fun _ => ⟨valign * j, used_bytes, r, by rw [hbo],
        hstart hwidth', hj, Dvd.intro _ rfl, hr, by omega⟩⟩
    · dsimp only
      omega
    · rw [Item.stop, ← hstart hwidth']
      dsimp only
      ring

end Push

/-- What the rule places for a member. -/
def MemberStep.item (alignment : ℤ) (step : MemberStep) : Item :=
  match step.member.pDecl.map Declarator.ext with
  | some (.bitfield bit) => .bitfield bit.bits step.info.item_size
  | _ => .ordinary step.info.size (min step.info.align alignment)

/-- The members that the rule is about: bit-fields of types that are aligned to their
sizes and no wider than these, and ordinary members. -/
def MemberStep.Regular (alignment : ℤ) (step : MemberStep) : Prop :=
  match step.member.pDecl.map Declarator.ext with
  | some (.bitfield bit) => step.info.align = step.info.item_size ∧ 0 < step.info.item_size ∧
      step.info.item_size ≤ 8 ∧ step.info.item_size ≤ alignment ∧ 0 ≤ bit.bits ∧
      bit.bits ≤ 8 * step.info.item_size
  | _ => 0 ≤ step.info.size ∧ 0 < step.info.align

theorem MemberStep.Regular.proper {alignment : ℤ} {step : MemberStep}
    (h : step.Regular alignment) (halignment : 0 < alignment) :
    (step.item alignment).Proper := by
  unfold MemberStep.Regular at h
  unfold MemberStep.item
  split
  · rename_i bit hext
    rw [hext] at h
    exact ⟨h.2.2.2.2.1, h.2.1⟩
  · rename_i hext
    split at h
    · rename_i bit hbit
      exact absurd hbit (hext bit)
    · exact ⟨h.1, lt_min h.2 halignment⟩

/-- The member is placed at the bit, unless it is a zero width, which is not placed. -/
def Placed.StartsAt (placed : Placed) (start : ℤ) : Prop :=
  match placed with
  | .declarator pDecl =>
    match pDecl.ext with
    | .bitfield info => info.bits ≠ 0 → 8 * pDecl.offset + info.pos = start
    | _ => 8 * pDecl.offset = start
  | .unnamed offset _ => 8 * offset = start

/-- A frame of the Generic class whose next free bit is `p` and whose members so far have the
alignment `a`. -/
structure FrameAt (alignment p a : ℤ) (f : Frame) : Prop where
  generic : ∃ u, f.bl.blc = .generic u ∧ (f.in_bitfield = true →
    UnitAligned u f.bl.offset f.bl.align ∧ 8 * f.bl.offset + u.bit_offset = p ∧ f.bl.align = a)
  closed : f.in_bitfield = false → 8 * f.size = p ∧ f.align = a
  byte_order : f.bl.byte_order = .littleEndian
  max_align : f.bl.max_align = alignment
  nonneg : 0 ≤ p
  small : p ≤ 34359738360
  align_pos : 0 < a
  align_lt : a < 65536

/-- The offset that is recorded for a member at the bit fits its field: a bit-field is recorded
in the unit of its type, and a zero width is not recorded. -/
def MemberStep.StartFits (step : MemberStep) (start : ℤ) : Prop :=
  match step.member.pDecl.map Declarator.ext with
  | some (.bitfield bit) => bit.bits ≠ 0 →
      step.info.item_size * (start / (8 * step.info.item_size)) < 268435456
  | some _ => start < 8 * 268435456
  | none => start < 8 * 2147483648

theorem FrameAt.finishOpen {alignment p a : ℤ} {f : Frame} (h : FrameAt alignment p a f) :
    FrameAt alignment (8 * byteCeil p) a (finishOpenBitfield f) ∧
      (finishOpenBitfield f).in_bitfield = false := by
  have hnonneg := h.nonneg
  have hsmall := h.small
  refine ⟨?_, finishOpenBitfield_in_bitfield f⟩
  obtain ⟨u, hblc, hopen⟩ := h.generic
  unfold finishOpenBitfield
  split_ifs with hin
  · obtain ⟨haligned, hp, halign⟩ := hopen hin
    have hO := haligned.nonneg
    have hB := haligned.bit_offset
    have hfinal : f.bl.finalize = { f.bl with offset := byteCeil p } := by
      have hdiv : (u.bit_offset + 7).tdiv 8 = (u.bit_offset + 7) / 8 :=
        Int.tdiv_eq_ediv_of_nonneg (by omega)
      have hceil : f.bl.offset + (u.bit_offset + 7) / 8 = byteCeil p := by
        unfold byteCeil
        omega
      simp only [BitfieldLayouter.finalize, hblc, genericFinalize, hdiv, hceil]
    have hceil : 0 ≤ byteCeil p ∧ byteCeil p < 4294967296 := by
      unfold byteCeil
      omega
    constructor
    · exact ⟨u, by simp only [finishBitfield, hfinal, hblc], fun hfalse => by cases hfalse⟩
    · intro _
      simp only [finishBitfield, hfinal, u32_of_lt hceil.1 hceil.2, halign,
        u16_of_lt h.align_pos.le h.align_lt, and_self]
    · simp only [finishBitfield, hfinal, h.byte_order]
    · simp only [finishBitfield, hfinal, h.max_align]
    · omega
    · omega
    · exact h.align_pos
    · exact h.align_lt
  · rw [Bool.not_eq_true] at hin
    have hsize := (h.closed hin).1
    have hceil : 8 * byteCeil p = p := by
      unfold byteCeil
      omega
    rwa [hceil]

theorem paddedSize_eq_roundUp {size align : ℤ} (hsize : 0 ≤ size)
    (hsmall : roundUp size align < 4294967296) (halign : 0 < align) :
    paddedSize size align = roundUp size align := by
  have hlt := Int.emod_lt_of_pos size halign
  unfold paddedSize
  unfold roundUp at hsmall ⊢
  by_cases hzero : size % align = 0
  · rw [if_neg (not_not.mpr hzero), if_pos hzero]
  · rw [if_neg hzero] at hsmall
    rw [if_pos hzero, if_neg hzero]
    exact u32_of_lt (by omega) hsmall

section Member

variable {alignment p a : ℤ} {f : Frame} (h : FrameAt alignment p a f)
  (halignment : 0 < alignment) (halignment' : alignment < 65536)
include h halignment halignment'

theorem FrameAt.place {info : TypeInfo} (hclosed : f.in_bitfield = false)
    (hsize : 0 ≤ info.size) (halign : 0 < info.align)
    (hstop : (Item.ordinary info.size (min info.align alignment)).stop p ≤ 34359738360) :
    ∃ pos f', placeMember .struct alignment info f = .ok (pos, f') ∧
      FrameAt alignment ((Item.ordinary info.size (min info.align alignment)).stop p)
        (max a (min info.align alignment)) f' ∧
      8 * pos = (Item.ordinary info.size (min info.align alignment)).start p ∧ 0 ≤ pos := by
  have hnonneg := h.nonneg
  obtain ⟨hp, ha⟩ := h.closed hclosed
  have hmin : (if info.align > alignment then alignment else info.align) =
      min info.align alignment := by
    split_ifs <;> omega
  have hpos : 0 < min info.align alignment := by omega
  have hlt : min info.align alignment < 65536 := by omega
  have hceil : byteCeil p = f.size := by
    unfold byteCeil
    omega
  have hle := (roundUp_isLeast f.size hpos).1.1
  simp only [Item.stop, Item.start, hceil] at hstop ⊢
  have hpadded : paddedSize f.size (min info.align alignment) =
      roundUp f.size (min info.align alignment) :=
    paddedSize_eq_roundUp (by omega) (by omega) hpos
  have hmax : (if min info.align alignment > f.align then u16 (min info.align alignment)
      else f.align) = max a (min info.align alignment) := by
    rw [ha, u16_of_lt hpos.le hlt]
    split_ifs <;> omega
  obtain ⟨u, hblc, hopen⟩ := h.generic
  simp only [placeMember, hmin, if_neg hpos.ne', hpadded, hmax]
  have hout : f.in_bitfield ≠ true := fun hin => Bool.false_ne_true (hclosed.symm.trans hin)
  have hapos := h.align_pos
  have halt := h.align_lt
  refine ⟨_, _, rfl, ⟨⟨u, hblc, fun hin => absurd hin hout⟩, ?_, h.byte_order, h.max_align, ?_,
    hstop, by omega, by omega⟩, rfl, by omega⟩
  · intro _
    dsimp only
    rw [u32_of_lt (by omega) (by omega)]
    exact ⟨by ring, rfl⟩
  · omega

omit halignment halignment' in
/-- A run of bit-fields starts at the next free bit. -/
theorem FrameAt.start : ∃ bl u, startBitfield .struct f = .ok bl ∧ bl.blc = .generic u ∧
    UnitAligned u bl.offset bl.align ∧ 8 * bl.offset + u.bit_offset = p ∧ bl.align = a ∧
    bl.byte_order = .littleEndian ∧ bl.max_align = alignment := by
  obtain ⟨u, hblc, hopen⟩ := h.generic
  have hnonneg := h.nonneg
  have hapos := h.align_pos
  unfold startBitfield
  by_cases hin : f.in_bitfield = true
  · obtain ⟨haligned, hp, halign⟩ := hopen hin
    rw [if_pos hin]
    exact ⟨f.bl, u, rfl, hblc, haligned, hp, halign, h.byte_order, h.max_align⟩
  · rw [if_neg hin]
    obtain ⟨hp, ha⟩ := h.closed (Bool.eq_false_iff.mpr hin)
    have hreset : f.bl.reset = .ok (genericReset f.bl) := by
      rw [BitfieldLayouter.reset, hblc]
    rw [hreset, call_bind_apply]
    refine ⟨_, unitInit, rfl, rfl, ⟨?_, le_rfl, ?_, Or.inl rfl⟩, ?_, ha, h.byte_order,
      h.max_align⟩
    · dsimp only
      omega
    · simp only [unitInit]
      omega
    · simp only [unitInit]
      omega

omit halignment halignment' in
theorem FrameAt.push {info : TypeInfo} {pDecl : Declarator} {bit : BitfieldInfo}
    (hp : BLPushParam.Integral ⟨pDecl, bit, info.item_size, info.align⟩ alignment info.item_size)
    (hstop : (Item.bitfield bit.bits info.item_size).stop p ≤ 34359738360)
    (hext : pDecl.ext = .bitfield bit) :
    ∃ f' pDecl', pushBitfield .struct info f pDecl bit = .ok (f', pDecl') ∧
      FrameAt alignment ((Item.bitfield bit.bits info.item_size).stop p) (max a info.item_size)
        f' ∧
      ((Placed.declarator pDecl').StartsAt ((Item.bitfield bit.bits info.item_size).start p) ↔
        (bit.bits ≠ 0 → info.item_size *
          ((Item.bitfield bit.bits info.item_size).start p / (8 * info.item_size)) <
            268435456)) := by
  obtain ⟨bl, u, hok, hblc, haligned, hcursor, halign, hbo, hmax⟩ := h.start
  obtain ⟨bl', u', pDecl', hpush, hblc', haligned', hcursor', hgrow, hzero, hrecord⟩ :=
    genericPush_rule haligned (hmax.symm ▸ hp)
  obtain ⟨-, hbo', hmax'⟩ := genericPush_like hblc hpush
  rw [hcursor] at hcursor' hrecord
  dsimp only at hcursor' hzero hrecord
  have hO := haligned'.nonneg
  have hB := haligned'.bit_offset
  have hpos : 0 < info.item_size := hp.pos
  have hsize : info.item_size ≤ 8 := hp.le
  have hapos := h.align_pos
  have halt := h.align_lt
  refine ⟨{ f with bl := bl', in_bitfield := true }, pDecl', ?_, ?_, ?_⟩
  · rw [pushBitfield, hok, call_bind_apply, BitfieldLayouter.push, hblc]
    dsimp only
    rw [hpush, call_bind_apply]
  · exact ⟨⟨u', hblc', fun _ => ⟨haligned', hcursor', by rw [hgrow, halign]⟩⟩,
      fun hclosed => absurd hclosed Bool.noConfusion, hbo'.trans hbo, hmax'.trans hmax, by omega,
      hstop, by omega, by omega⟩
  · by_cases hbits : bit.bits = 0
    · rw [hzero hbits]
      simp only [Placed.StartsAt, hext]
      exact ⟨fun _ hne => absurd hbits hne, fun _ hne => absurd hbits hne⟩
    · obtain ⟨offset, used_bytes, bit_offset, hdecl, hat, hoffset, ⟨k, rfl⟩, hbit, hbit'⟩ :=
        hrecord hbits
      -- the unit in which the field starts
      have hunit : (Item.bitfield bit.bits info.item_size).start p / (8 * info.item_size) = k := by
        rw [← hat, ← mul_assoc]
        exact ediv_of_between hbit hbit'
      rw [hdecl, hbo, hunit]
      simp only [Placed.StartsAt, BLPushParam.record, unitPos]
      rw [u8_of_lt hbit (by omega)]
      constructor
      · intro hstarts hne
        have hlt := s29_lt (info.item_size * k)
        have hsame := hstarts hne
        omega
      · intro hfits hne
        rw [s29_of_lt (by omega) (hfits hne)]
        exact hat

omit halignment halignment' in
theorem FrameAt.note (info : TypeInfo) (b : Bool) : FrameAt alignment p a (noteFlags f info b) :=
  ⟨h.generic, h.closed, h.byte_order, h.max_align, h.nonneg, h.small, h.align_pos, h.align_lt⟩

/-- Every regular member is placed; what is recorded for it is where the rule says, if that
fits. -/
theorem FrameAt.member {step : MemberStep} (hregular : step.Regular alignment)
    (hstop : (step.item alignment).stop p ≤ 34359738360) :
    ∃ f' placed, memberStep .struct alignment f step = .ok (f', placed) ∧
      FrameAt alignment ((step.item alignment).stop p) (max a (min step.info.align alignment))
        f' ∧
      (placed.StartsAt ((step.item alignment).start p) ↔
        step.StartFits ((step.item alignment).start p)) := by
  obtain ⟨⟨type, decl⟩, info⟩ := step
  have hfloor : byteCeil (8 * byteCeil p) = byteCeil p := by
    unfold byteCeil
    omega
  have hordinary (b : Bool) (hinfo : 0 ≤ info.size ∧ 0 < info.align)
      (hstop : (Item.ordinary info.size (min info.align alignment)).stop p ≤ 34359738360) :
      ∃ pos f', placeMember .struct alignment info
          (noteFlags (finishOpenBitfield f) info b) = .ok (pos, f') ∧
        FrameAt alignment ((Item.ordinary info.size (min info.align alignment)).stop p)
          (max a (min info.align alignment)) f' ∧
        8 * pos = (Item.ordinary info.size (min info.align alignment)).start p ∧ 0 ≤ pos := by
    obtain ⟨hclosed, hin⟩ := h.finishOpen
    have hplace := (hclosed.note info b).place halignment halignment' hin hinfo.1 hinfo.2
    simp only [Item.stop, Item.start, hfloor] at hplace hstop ⊢
    exact hplace hstop
  cases decl with
  | none =>
    obtain ⟨pos, f', hplace, hat, hpos, hpos0⟩ := hordinary false hregular hstop
    refine ⟨f', .unnamed (declarationOffset .struct pos f'.size)
      (i32 (f'.size - declarationOffset .struct pos f'.size)), ?_, hat, ?_⟩
    · simp only [memberStep, hplace, call_bind_apply]
    · show 8 * declarationOffset .struct pos f'.size =
        (Item.ordinary info.size (min info.align alignment)).start p ↔
        (Item.ordinary info.size (min info.align alignment)).start p < 8 * 2147483648
      rw [← hpos]
      have hlt := declarationOffset_lt CompoundKind.struct pos f'.size
      constructor
      · intro hsame
        omega
      · intro hfits
        rw [declarationOffset_struct hpos0 (by omega)]
  | some pDecl =>
    have hstep (f' : Frame) (d : Declarator) (o : ℤ)
        (hlayout : layoutDeclarator .struct alignment info f 0 pDecl = .ok ((f', o), d)) :
        memberStep .struct alignment f ⟨⟨type, some pDecl⟩, info⟩ =
          .ok (f', .declarator d) := by
      simp only [memberStep, hlayout, call_bind_apply]
    have hplain (hbit : pDecl.isBitfield = false)
        (hregular : 0 ≤ info.size ∧ 0 < info.align)
        (hstop : (Item.ordinary info.size (min info.align alignment)).stop p ≤ 34359738360) :
        ∃ f' o d, layoutDeclarator .struct alignment info f 0 pDecl = .ok ((f', o), d) ∧
          FrameAt alignment ((Item.ordinary info.size (min info.align alignment)).stop p)
            (max a (min info.align alignment)) f' ∧
          d.ext = pDecl.ext ∧
          (8 * d.offset = (Item.ordinary info.size (min info.align alignment)).start p ↔
            (Item.ordinary info.size (min info.align alignment)).start p < 8 * 268435456) := by
      obtain ⟨pos, f', hplace, hat, hpos, hpos0⟩ := hordinary false hregular hstop
      rw [← finishOpenBitfield_noteFlags] at hplace
      refine ⟨f', if (0 : ℤ) < 0 then i32 pos else 0, { pDecl with
        offset := s29 pos, size := i32 info.size, item_size := i32 info.item_size }, ?_, hat, rfl,
        ?_⟩
      · rw [layoutDeclarator_ordinary hbit, hplace, call_bind_apply]
      · rw [← hpos]
        dsimp only
        have hlt := s29_lt pos
        constructor
        · intro hsame
          omega
        · intro hfits
          rw [s29_of_lt (by omega) (by omega)]
    cases hext : pDecl.ext with
    | bitfield bit =>
      simp only [MemberStep.Regular, MemberStep.item, MemberStep.StartFits, Option.map_some,
        hext] at hregular hstop ⊢
      obtain ⟨halign, hpos, hle, hmax, hwidth, hwide⟩ := hregular
      have hp : BLPushParam.Integral ⟨pDecl, bit, info.item_size, info.align⟩ alignment
          info.item_size := ⟨rfl, halign, hpos, hle, hmax, hwidth, hwide⟩
      obtain ⟨f', pDecl', hpush, hat, hstarts⟩ := (h.note info true).push hp hstop hext
      have hlayout : layoutDeclarator .struct alignment info f 0 pDecl = .ok ((f', 0), pDecl') := by
        have hbit : pDecl.isBitfield = true := Declarator.isBitfield_iff.mpr ⟨bit, hext⟩
        simp only [layoutDeclarator, hext, hbit, hpush, call_bind_apply]
      have hmin : min info.align alignment = info.item_size := by omega
      rw [hmin]
      exact ⟨f', _, hstep f' pDecl' 0 hlayout, hat, hstarts⟩
    | plain =>
      simp only [MemberStep.Regular, MemberStep.item, MemberStep.StartFits, Option.map_some,
        hext] at hregular hstop ⊢
      obtain ⟨f', o, d, hlayout, hat, hd, hoffset⟩ :=
        hplain (by simp [Declarator.isBitfield, hext]) hregular hstop
      refine ⟨f', _, hstep f' d o hlayout, hat, ?_⟩
      simp only [Placed.StartsAt, hd, hext, hoffset]
    | array dims =>
      simp only [MemberStep.Regular, MemberStep.item, MemberStep.StartFits, Option.map_some,
        hext] at hregular hstop ⊢
      obtain ⟨f', o, d, hlayout, hat, hd, hoffset⟩ :=
        hplain (by simp [Declarator.isBitfield, hext]) hregular hstop
      refine ⟨f', _, hstep f' d o hlayout, hat, ?_⟩
      simp only [Placed.StartsAt, hd, hext, hoffset]

end Member

/-- The alignment behind members of which those so far have the alignment `a`. -/
def alignAll (alignment a : ℤ) (steps : List MemberStep) : ℤ :=
  (steps.map fun step => min step.info.align alignment).foldl max a

/-- A run over regular members places them where the rule says, as far as that fits. -/
theorem FrameAt.run {alignment p a : ℤ} {f : Frame} (h : FrameAt alignment p a f)
    (halignment : 0 < alignment) (halignment' : alignment < 65536) {steps : List MemberStep}
    (hregular : ∀ step ∈ steps, step.Regular alignment)
    (hstop : stopAll p (steps.map (MemberStep.item alignment)) ≤ 34359738360) :
    ∃ f' placed, mapAccumM (memberStep .struct alignment) f steps = .ok (f', placed) ∧
      FrameAt alignment (stopAll p (steps.map (MemberStep.item alignment)))
        (alignAll alignment a steps) f' ∧
      (List.Forall₂ Placed.StartsAt placed (starts p (steps.map (MemberStep.item alignment))) ↔
        List.Forall₂ MemberStep.StartFits steps
          (starts p (steps.map (MemberStep.item alignment)))) := by
  induction steps generalizing p a f with
  | nil => exact ⟨f, [], rfl, h, fun _ => .nil, fun _ => .nil⟩
  | cons step steps ih =>
    rw [List.map_cons] at hstop ⊢
    have hrest (item : Item) (hitem : item ∈ steps.map (MemberStep.item alignment)) :
        item.Proper := by
      obtain ⟨s, hs, rfl⟩ := List.mem_map.mp hitem
      exact (hregular s (List.mem_cons_of_mem _ hs)).proper halignment
    -- the first member stops before the last one does
    have hle : (step.item alignment).stop p ≤
        stopAll p (step.item alignment :: steps.map (MemberStep.item alignment)) :=
      le_stopAll hrest _
    obtain ⟨f₁, placed₁, hstep, hat, hplaced⟩ := h.member halignment halignment'
      (hregular step List.mem_cons_self) (hle.trans hstop)
    obtain ⟨f', placed, hrun, hat', hall⟩ := ih hat
      (fun s hs => hregular s (List.mem_cons_of_mem _ hs)) hstop
    refine ⟨f', placed₁ :: placed, mapAccumM_cons_ok hstep hrun, hat', ?_⟩
    rw [starts, List.forall₂_cons, List.forall₂_cons, hplaced, hall]

end ConvertBinaryC
