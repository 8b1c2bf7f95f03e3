import ConvertBinaryC.FoldRules
import ConvertBinaryC.CTLibStorageUnit

/-! `fetch_integer` and `store_integer` as operations on a window of the bits of a
storage unit. With `bits = 0` the window is the whole unit and the shift is not
looked at. -/
namespace ConvertBinaryC

def windowWidth (size bits : ℕ) : ℕ := if bits = 0 then 8 * size else bits

def windowShift (bits shift : ℕ) : ℕ := if bits = 0 then 0 else shift

/-- The integer that a fetched value stands for. -/
def IntValue.toInt (v : IntValue) : ℤ := if v.sign then v.value.toInt else v.value.toNat

/-- An integer reduced to `n` bits, as a signed or as an unsigned one. -/
def wrapInteger (sign : Bool) (n : ℕ) (v : ℤ) : ℤ :=
  if sign then Int.bmod v (2 ^ n) else v % 2 ^ n

/-- The bits of a memory, by the byte and the place in it. -/
def bitAt (mem : Memory) (p : ℕ × ℕ) : Bool := (mem p.1).getLsbD p.2

/-- A place in a byte of the unit is that of one of its bits. -/
theorem exists_unitByte (bo : CByteOrder) {size ptr a k : ℕ} (ha : ptr ≤ a) (ha' : a < ptr + size)
    (hk : k < 8) : ∃ j < 8 * size, ptr + unitByte bo size j = a ∧ j % 8 = k := by
  cases bo with
  | littleEndian =>
    refine ⟨8 * (a - ptr) + k, by omega, ?_, by omega⟩
    rw [unitByte]
    omega
  | bigEndian =>
    refine ⟨8 * (size - 1 - (a - ptr)) + k, by omega, ?_, by omega⟩
    rw [unitByte]
    omega

theorem windowMask_bits {bits shift : ℕ} {mask : BitVec 64} (h : windowMask bits shift = .ok mask) :
    ∀ j < 64, mask.getLsbD j = decide (shift ≤ j ∧ j < shift + bits) := by
  intro j hj
  unfold windowMask at h
  split_ifs at h with hbad
  cases h
  simp only [BitVec.getLsbD_shiftLeft, BitVec.getLsbD_ushiftRight, BitVec.getLsbD_allOnes, hj,
    decide_true, Bool.true_and, ← decide_not, ← Bool.decide_and]
  congr 1
  rw [eq_iff_iff]
  omega

theorem windowMask_getLsbD (bits shift : ℕ) (hb : 1 ≤ bits) (hw : bits + shift ≤ 64) :
    ∃ mask, windowMask bits shift = .ok mask ∧
      ∀ j < 64, mask.getLsbD j = decide (shift ≤ j ∧ j < shift + bits) := by
  have hmask : windowMask bits shift = .ok _ := if_neg (by omega)
  exact ⟨_, hmask, windowMask_bits hmask⟩

theorem shiftRight_of_window (value : BitVec 64) (shift : ℕ) (hs : shift < 64) :
    (if 0 < shift then shiftInteger value shift .right else .ok value) =
      .ok (value >>> shift) := by
  split_ifs with h
  · exact if_neg (by omega)
  · rw [show shift = 0 by omega, BitVec.ushiftRight_zero]

theorem shiftLeft_of_window (value : BitVec 64) (shift : ℕ) (hs : shift < 64) :
    (if 0 < shift then shiftInteger value shift .left else .ok value) =
      .ok (value <<< shift) := by
  split_ifs with h
  · exact if_neg (by omega)
  · rw [show shift = 0 by omega, BitVec.shiftLeft_zero]

/-- Masking to the low bits keeps them and, for a signed value, repeats the top one. -/
theorem maskInteger_getLsbD (value : BitVec 64) (bits : ℕ) (sign : Bool) (hb : 1 ≤ bits)
    (hw : bits ≤ 64) :
    ∃ r, maskInteger value bits 0 sign = .ok r ∧
      ∀ j < 64, r.getLsbD j =
        if j < bits then value.getLsbD j else sign && value.getLsbD (bits - 1) := by
  obtain ⟨mask, hmask, hbit⟩ := windowMask_getLsbD bits 0 hb (by omega)
  have htop : (value &&& mask).getLsbD (bits - 1) = value.getLsbD (bits - 1) := by
    rw [BitVec.getLsbD_and, hbit _ (by omega), decide_eq_true (by omega), Bool.and_true]
  have hand (j : ℕ) (hj : j < 64) :
      (value &&& mask).getLsbD j = (value.getLsbD j && decide (j < bits)) := by
    rw [BitVec.getLsbD_and, hbit _ hj]
    congr 2
    rw [eq_iff_iff]
    omega
  unfold maskInteger
  rw [hmask]
  simp only [call_bind_apply, Nat.add_zero]
  by_cases hsign : sign = true
  · subst hsign
    rw [if_pos ⟨rfl, hb⟩, if_neg (by omega), htop]
    by_cases hmsb : value.getLsbD (bits - 1) = true
    · refine ⟨_, if_pos hmsb, fun j hj => ?_⟩
      rw [BitVec.getLsbD_or, hand j hj, hmsb]
      simp only [BitVec.getLsbD_shiftLeft, BitVec.getLsbD_allOnes, hj, decide_true, Bool.true_and]
      by_cases h : j < bits
      · by_cases hlast : j = bits - 1
        · subst hlast
          simp [hmsb, h]
        · simp [h, show j < bits - 1 by omega]
      · simp [h, show ¬ j < bits - 1 by omega, show j - (bits - 1) < 64 by omega]
    · refine ⟨_, if_neg hmsb, fun j hj => ?_⟩
      rw [hand j hj]
      by_cases h : j < bits <;> simp [h, hmsb]
  · refine ⟨_, if_neg fun h => hsign h.1, fun j hj => ?_⟩
    rw [hand j hj]
    by_cases h : j < bits <;> simp [h, hsign]

theorem mergeInteger_getLsbD (dest src : BitVec 64) (bits shift : ℕ) (hb : 1 ≤ bits)
    (hw : bits + shift ≤ 64) :
    ∃ r, mergeInteger dest src bits shift = .ok r ∧
      ∀ j < 64, r.getLsbD j =
        if shift ≤ j ∧ j < shift + bits then src.getLsbD j else dest.getLsbD j := by
  obtain ⟨mask, hmask, hbit⟩ := windowMask_getLsbD bits shift hb hw
  unfold mergeInteger
  rw [hmask]
  refine ⟨_, rfl, fun j hj => ?_⟩
  rw [BitVec.getLsbD_or, BitVec.getLsbD_and, BitVec.getLsbD_and, BitVec.getLsbD_not, hbit j hj]
  by_cases h : shift ≤ j ∧ j < shift + bits <;> simp [h, hj]

/-- What a fetch reads: the bits of its window, extended to 64 bits. -/
theorem fetchInteger_window (size bits shift : ℕ) (hs : IntegerSize size)
    (hw : bits + windowShift bits shift ≤ 8 * size) (sign : Bool) (bo : CByteOrder)
    (mem : Memory) (ptr : ℕ) (pIV : IntValue) (hstr : pIV.string = none) :
    ∃ f : BitVec 64, fetchInteger size sign bits shift bo mem ptr pIV = .ok ⟨f, sign, none⟩ ∧
      ∀ j < 64, f.getLsbD j =
        if j < windowWidth size bits then
          unitBit bo size mem ptr (windowShift bits shift + j)
        else sign && unitBit bo size mem ptr
          (windowShift bits shift + windowWidth size bits - 1) := by
  have hle : size ≤ 8 := hs.le
  have hpos : 0 < size := hs.pos
  let unit := fetchSwitch size sign bo mem ptr pIV.value
  have hunit (j : ℕ) (hj : j < 8 * size) : unit.getLsbD j = unitBit bo size mem ptr j := by
    rw [fetchSwitch_getLsbD size hs sign bo mem ptr pIV.value j (by omega), if_pos hj]
  by_cases hb : bits = 0
  · subst hb
    have hrun : fetchInteger size sign 0 shift bo mem ptr pIV = .ok ⟨unit, sign, none⟩ := by
      unfold fetchInteger
      rw [hstr]
      rfl
    refine ⟨unit, hrun, fun j hj => ?_⟩
    simp only [windowWidth, windowShift, if_true, Nat.zero_add]
    exact fetchSwitch_getLsbD size hs sign bo mem ptr pIV.value j hj
  · simp only [windowWidth, windowShift, if_neg hb] at hw ⊢
    obtain ⟨f, hf, hbit⟩ := maskInteger_getLsbD (unit >>> shift) bits sign (by omega) (by omega)
    refine ⟨f, ?_, fun j hj => ?_⟩
    · unfold fetchInteger
      dsimp only
      rw [if_pos (by omega), shiftRight_of_window _ _ (by omega), call_bind_apply]
      change (maskInteger (unit >>> shift) bits 0 sign >>= _) = _
      rw [hf, hstr]
      rfl
    · rw [hbit j hj]
      simp only [BitVec.getLsbD_ushiftRight]
      split_ifs with h
      · exact hunit _ (by omega)
      · rw [hunit _ (by omega), show shift + (bits - 1) = shift + bits - 1 by omega]

def storedWord (pIV : IntValue) : BitVec 64 :=
  match pIV.string with
  | some s => (string2integer s).2
  | none => pIV.value

/-- What a store writes: the low bits of its value into its window, and nothing
else of the unit or of the memory around it. -/
theorem storeInteger_window (size bits shift : ℕ) (hs : IntegerSize size)
    (hw : bits + windowShift bits shift ≤ 8 * size) (bo : CByteOrder) (mem : Memory) (ptr : ℕ)
    (pIV : IntValue) :
    ∃ mem', storeInteger size bits shift bo mem ptr pIV = .ok mem' ∧
      (∀ j < 8 * size, unitBit bo size mem' ptr j =
        if windowShift bits shift ≤ j ∧ j < windowShift bits shift + windowWidth size bits then
          (storedWord pIV).getLsbD (j - windowShift bits shift)
        else unitBit bo size mem ptr j) ∧
      ∀ a, a < ptr ∨ ptr + size ≤ a → mem' a = mem a := by
  have hle : size ≤ 8 := hs.le
  by_cases hb : bits = 0
  · subst hb
    refine ⟨storeSwitch size bo mem ptr (storedWord pIV), rfl, fun j hj => ?_,
      fun a ha => storeSwitch_frame size bo mem ptr _ a ha⟩
    simp only [windowWidth, windowShift, if_true, Nat.zero_add, Nat.sub_zero, Nat.zero_le,
      true_and, if_pos hj]
    exact storeSwitch_unitBit size hs bo mem ptr _ j hj
  · obtain ⟨orig, horig, hunit⟩ :=
      fetchInteger_window size 0 0 hs (Nat.zero_le _) false bo mem ptr ⟨0, false, none⟩ rfl
    simp only [windowWidth, windowShift, if_neg hb, if_true, Nat.zero_add] at hw hunit ⊢
    obtain ⟨r, hr, hbit⟩ :=
      mergeInteger_getLsbD orig (storedWord pIV <<< shift) bits shift (by omega) (by omega)
    refine ⟨storeSwitch size bo mem ptr r, ?_, fun j hj => ?_,
      fun a ha => storeSwitch_frame size bo mem ptr _ a ha⟩
    · unfold storeInteger
      dsimp only
      rw [if_pos (by omega), horig, call_bind_apply, shiftLeft_of_window _ _ (by omega),
        call_bind_apply]
      change (mergeInteger orig (storedWord pIV <<< shift) bits shift >>= _) = _
      rw [hr, call_bind_apply]
    · rw [storeSwitch_unitBit size hs bo mem ptr r j hj, hbit j (by omega)]
      split_ifs with h
      · rw [BitVec.getLsbD_shiftLeft, decide_eq_true (by omega), decide_eq_false (by omega)]
        simp
      · rw [hunit j (by omega), if_pos hj]

theorem storeInteger_frame {size bits shift : ℕ} {bo : CByteOrder} {mem mem' : Memory} {dest : ℕ}
    {pIV : IntValue} (h : storeInteger size bits shift bo mem dest pIV = .ok mem') (a : ℕ)
    (ha : a < dest ∨ dest + size ≤ a) : mem' a = mem a := by
  unfold storeInteger at h
  obtain ⟨value, _, hstored⟩ := FoldRules.bind_ok h
  cases hstored
  exact storeSwitch_frame size bo mem dest value a ha

/-- A word whose bits are the low `n` bits of an integer, extended, is that
integer reduced to `n` bits. -/
theorem toInt_of_low_bits (sign : Bool) (n : ℕ) (hn : 1 ≤ n) (hn64 : n ≤ 64) (v : ℤ)
    (f : BitVec 64) (s : Option (List Char))
    (hf : ∀ j < 64, f.getLsbD j =
      if j < n then (BitVec.ofInt 64 v).getLsbD j
      else sign && (BitVec.ofInt 64 v).getLsbD (n - 1)) :
    (⟨f, sign, s⟩ : IntValue).toInt = wrapInteger sign n v := by
  have hcut : (BitVec.ofInt 64 v).setWidth n = BitVec.ofInt n v := by
    apply BitVec.eq_of_toInt_eq
    rw [BitVec.toInt_setWidth, BitVec.toInt_ofInt, BitVec.toNat_ofInt,
      Int.toNat_of_nonneg (Int.emod_nonneg _ (by decide)), ← Int.emod_bmod,
      Int.emod_emod_of_dvd _ (Int.natCast_dvd_natCast.mpr (Nat.pow_dvd_pow 2 hn64)),
      Int.emod_bmod]
  have hlow (j : ℕ) (hj : j < n) :
      (BitVec.ofInt 64 v).getLsbD j = (BitVec.ofInt n v).getLsbD j := by
    rw [← hcut, BitVec.getLsbD_setWidth, decide_eq_true hj, Bool.true_and]
  have hext : f = widen sign (BitVec.ofInt n v) := by
    apply BitVec.eq_of_getLsbD_eq
    intro j hj
    rw [hf j hj, widen_getLsbD sign _ j hj, hlow (n - 1) (by omega)]
    split_ifs with h
    · exact hlow j h
    · rfl
  subst hext
  cases sign with
  | false =>
    have hlt : (2 : ℕ) ^ n ≤ 2 ^ 64 := Nat.pow_le_pow_right (by decide) hn64
    have hval : (BitVec.ofInt n v).toNat < 2 ^ n := (BitVec.ofInt n v).isLt
    simp only [IntValue.toInt, wrapInteger, widen, Bool.false_eq_true, if_false,
      BitVec.toNat_setWidth]
    rw [Nat.mod_eq_of_lt (hval.trans_le hlt), BitVec.toNat_ofInt]
    push_cast
    exact Int.toNat_of_nonneg (Int.emod_nonneg _ (by positivity))
  | true =>
    simp only [IntValue.toInt, wrapInteger, widen, if_true, BitVec.toInt_signExtend_of_le hn64,
      BitVec.toInt_ofInt]

/-- Storing back what was fetched changes nothing. -/
theorem storeInteger_of_fetchInteger (size bits shift : ℕ) (hs : IntegerSize size)
    (hw : bits + windowShift bits shift ≤ 8 * size) (sign : Bool) (bo : CByteOrder)
    (mem : Memory) (ptr : ℕ) (pIV f : IntValue) (hstr : pIV.string = none)
    (hf : fetchInteger size sign bits shift bo mem ptr pIV = .ok f) :
    storeInteger size bits shift bo mem ptr f = .ok mem := by
  have hle : size ≤ 8 := hs.le
  obtain ⟨w, hw', hbit⟩ := fetchInteger_window size bits shift hs hw sign bo mem ptr pIV hstr
  rw [hw', Except.ok.injEq] at hf
  subst hf
  obtain ⟨mem', hmem', hunit, hframe⟩ :=
    storeInteger_window size bits shift hs hw bo mem ptr ⟨w, sign, none⟩
  have hsame : mem' = mem := by
    refine memory_ext_of_unitBit bo size mem' mem ptr (fun j hj => ?_) hframe
    rw [hunit j hj]
    split_ifs with h
    · change w.getLsbD _ = _
      rw [hbit _ (by omega), if_pos (by omega), Nat.add_sub_cancel' h.1]
    · rfl
  rw [← hsame]
  exact hsame ▸ hmem'

/-- A fetch after a store of an integer reads it back, reduced to the window's width. -/
theorem fetchInteger_of_storeInteger (size bits shift : ℕ) (hs : IntegerSize size)
    (hw : bits + windowShift bits shift ≤ 8 * size) (bo : CByteOrder) (mem mem' : Memory)
    (ptr : ℕ) (sign sign' : Bool) (v : ℤ) (pIV : IntValue) (hstr : pIV.string = none)
    (hst : storeInteger size bits shift bo mem ptr ⟨BitVec.ofInt 64 v, sign', none⟩ = .ok mem') :
    ∃ f, fetchInteger size sign bits shift bo mem' ptr pIV = .ok f ∧ f.sign = sign ∧
      f.toInt = wrapInteger sign (windowWidth size bits) v := by
  have hle : size ≤ 8 := hs.le
  have hpos : 0 < size := hs.pos
  obtain ⟨m, hm, hunit, _⟩ := storeInteger_window size bits shift hs hw bo mem ptr
    ⟨BitVec.ofInt 64 v, sign', none⟩
  rw [hm, Except.ok.injEq] at hst
  subst hst
  have hwidth : 1 ≤ windowWidth size bits := by unfold windowWidth; split_ifs <;> omega
  have hfit : windowShift bits shift + windowWidth size bits ≤ 8 * size := by
    unfold windowWidth windowShift at *
    split_ifs at hw ⊢ <;> omega
  obtain ⟨f, hf, hbit⟩ := fetchInteger_window size bits shift hs hw sign bo m ptr pIV hstr
  refine ⟨_, hf, rfl, toInt_of_low_bits sign _ hwidth (by omega) v f _ fun j hj => ?_⟩
  have hread (i : ℕ) (hi : i < windowWidth size bits) :
      unitBit bo size m ptr (windowShift bits shift + i) = (BitVec.ofInt 64 v).getLsbD i := by
    rw [hunit _ (by omega), if_pos (by omega), Nat.add_sub_cancel_left]
    rfl
  rw [hbit j hj]
  split_ifs with h
  · exact hread j h
  · rw [Nat.add_sub_assoc hwidth, hread _ (by omega)]

/-- A whole store writes byte `k` of the integer at its place in the byte order. -/
theorem storeSwitch_byte (size : ℕ) (hs : IntegerSize size) (bo : CByteOrder) (mem : Memory)
    (ptr : ℕ) (v : BitVec 64) (k : ℕ) (hk : k < size) :
    storeSwitch size bo mem ptr v (ptr + k) = (v >>> orderShift bo size k).setWidth 8 := by
  have hle : size ≤ 8 := hs.le
  apply BitVec.eq_of_getLsbD_eq
  intro i hi
  have hshift : orderShift bo size k + 8 ≤ 8 * size := by
    cases bo <;> simp only [orderShift] <;> omega
  have hbit := storeSwitch_unitBit size hs bo mem ptr v (orderShift bo size k + i) (by omega)
  have hbyte : unitByte bo size (orderShift bo size k + i) = k := by
    cases bo <;> simp only [orderShift, unitByte] <;> omega
  have hmod : (orderShift bo size k + i) % 8 = i := by
    cases bo <;> simp only [orderShift] <;> omega
  rw [unitBit, hbyte, hmod] at hbit
  rw [hbit, BitVec.getLsbD_setWidth, BitVec.getLsbD_ushiftRight, decide_eq_true hi, Bool.true_and]

theorem ofInt_byte (v : ℤ) (s : ℕ) (hs : s ≤ 7) :
    ((((BitVec.ofInt 64 v) >>> (8 * s)).setWidth 8).toNat : ℤ) = v / 2 ^ (8 * s) % 256 := by
  rw [BitVec.toNat_setWidth, BitVec.toNat_ushiftRight, Nat.shiftRight_eq_div_pow,
    BitVec.toNat_ofInt]
  push_cast
  rw [Int.toNat_of_nonneg (Int.emod_nonneg _ (by decide))]
  interval_cases s <;> norm_num <;> omega

/-- The store/fetch law of a storage unit: a fetch after a store of `v` yields `v`
reduced to the width of the window, the store changes no bit outside the window,
a whole store lays the bytes down in the given order, and storing the fetched
value back leaves the memory as it was. -/
theorem store_fetch_law (size bits shift : ℕ) (hs : IntegerSize size)
    (hw : bits ≠ 0 → bits + shift ≤ 8 * size) (bo : CByteOrder) (mem : Memory) (ptr : ℕ)
    (v : ℤ) (sign sign' : Bool) (pIV : IntValue) (hstr : pIV.string = none) :
    ∃ mem' f, storeInteger size bits shift bo mem ptr ⟨BitVec.ofInt 64 v, sign', none⟩ =
        .ok mem' ∧
      fetchInteger size sign bits shift bo mem' ptr pIV = .ok f ∧
      f.toInt = wrapInteger sign (if bits = 0 then 8 * size else bits) v ∧
      (bits ≠ 0 → ∀ j < 8 * size, j < shift ∨ shift + bits ≤ j →
        unitBit bo size mem' ptr j = unitBit bo size mem ptr j) ∧
      (bits = 0 → ∀ k < size,
        ((mem' (ptr + k)).toNat : ℤ) = v / 2 ^ orderShift bo size k % 256) ∧
      (∀ a, a < ptr ∨ ptr + size ≤ a → mem' a = mem a) ∧
      storeInteger size bits shift bo mem' ptr f = .ok mem' := by
  have hle : size ≤ 8 := hs.le
  have hfit : bits + windowShift bits shift ≤ 8 * size := by
    unfold windowShift
    split_ifs with hb
    · omega
    · exact hw hb
  obtain ⟨mem', hst, hunit, hframe⟩ :=
    storeInteger_window size bits shift hs hfit bo mem ptr ⟨BitVec.ofInt 64 v, sign', none⟩
  obtain ⟨f, hf, _, hval⟩ :=
    fetchInteger_of_storeInteger size bits shift hs hfit bo mem mem' ptr sign sign' v pIV hstr hst
  have hback : storeInteger size bits shift bo mem' ptr f = .ok mem' :=
    storeInteger_of_fetchInteger size bits shift hs hfit sign bo mem' ptr pIV f hstr hf
  refine ⟨mem', f, hst, hf, hval, fun hb j hj hout => ?_, fun hb k hk => ?_, hframe, hback⟩
  · rw [hunit j hj, windowShift, windowWidth, if_neg hb, if_neg hb, if_neg (by omega)]
  · subst hb
    have hmem : mem' = storeSwitch size bo mem ptr (BitVec.ofInt 64 v) :=
      (Except.ok.inj hst).symm
    have hshift : ∃ s ≤ 7, orderShift bo size k = 8 * s := by
      cases bo with
      | littleEndian => exact ⟨k, by omega, rfl⟩
      | bigEndian => exact ⟨size - 1 - k, by omega, rfl⟩
    obtain ⟨s, hs7, hs8⟩ := hshift
    rw [hmem, storeSwitch_byte size hs bo mem ptr _ k hk, hs8, ofInt_byte v s hs7]

theorem store_fetch_law_word :
    ∃ mem' f, storeInteger 4 20 5 .bigEndian (fun _ => 255) 8 ⟨BitVec.ofInt 64 (-3), true, none⟩ =
        .ok mem' ∧
      fetchInteger 4 true 20 5 .bigEndian mem' 8 ⟨0, false, none⟩ = .ok f ∧
      f.toInt = wrapInteger true (if 20 = 0 then 8 * 4 else 20) (-3) ∧
      ((20 : ℕ) ≠ 0 → ∀ j < 8 * 4, j < 5 ∨ 5 + 20 ≤ j →
        unitBit .bigEndian 4 mem' 8 j = unitBit .bigEndian 4 (fun _ => 255) 8 j) ∧
      ((20 : ℕ) = 0 → ∀ k < 4,
        ((mem' (8 + k)).toNat : ℤ) = -3 / 2 ^ orderShift .bigEndian 4 k % 256) ∧
      (∀ a, a < 8 ∨ 8 + 4 ≤ a → mem' a = 255) ∧
      storeInteger 4 20 5 .bigEndian mem' 8 f = .ok mem' :=
  store_fetch_law 4 20 5 (by decide) (by decide) .bigEndian (fun _ => 255) 8 (-3) true true
    ⟨0, false, none⟩ rfl

end ConvertBinaryC
