import ConvertBinaryC.CTLibByteOrder

/-! A storage unit bit by bit: which byte of memory holds bit `j` of a unit of
`size` bytes, and what the fetch and store switches do to each bit. -/
namespace ConvertBinaryC

/-- The byte of the unit that holds its bit `j`. -/
def unitByte (bo : CByteOrder) (size j : ℕ) : ℕ :=
  match bo with
  | .littleEndian => j / 8
  | .bigEndian => size - 1 - j / 8

def unitBit (bo : CByteOrder) (size : ℕ) (mem : Memory) (ptr j : ℕ) : Bool :=
  (mem (ptr + unitByte bo size j)).getLsbD (j % 8)

/-- The sizes that the switches of `fetch_integer` and `store_integer` handle. -/
def IntegerSize (size : ℕ) : Prop := size = 1 ∨ size = 2 ∨ size = 4 ∨ size = 8

instance (size : ℕ) : Decidable (IntegerSize size) := by unfold IntegerSize; infer_instance

theorem IntegerSize.pos {size : ℕ} (h : IntegerSize size) : 0 < size := by
  unfold IntegerSize at h; omega

theorem IntegerSize.le {size : ℕ} (h : IntegerSize size) : size ≤ 8 := by
  unfold IntegerSize at h; omega

/-- The shift of byte `k` in a unit of `n` bytes. -/
def orderShift (bo : CByteOrder) (n k : ℕ) : ℕ :=
  match bo with
  | .littleEndian => 8 * k
  | .bigEndian => 8 * (n - 1 - k)

def orderTerms (bo : CByteOrder) (n : ℕ) : List (ℕ × ℕ) :=
  (List.range n).map fun k => (k, orderShift bo n k)

theorem gather_getLsbD (w : ℕ) (terms : List (ℕ × ℕ)) (mem : Memory) (ptr j : ℕ) :
    (gather w terms mem ptr).getLsbD j = true ↔
      j < w ∧ ∃ t ∈ terms, t.2 ≤ j ∧ (mem (ptr + t.1)).getLsbD (j - t.2) = true := by
  induction terms with
  | nil => simp [gather]
  | cons t ts ih =>
    have hstep : gather w (t :: ts) mem ptr =
        (mem (ptr + t.1)).setWidth w <<< t.2 ||| gather w ts mem ptr := rfl
    rw [hstep, BitVec.getLsbD_or, Bool.or_eq_true, ih]
    simp only [BitVec.getLsbD_shiftLeft, BitVec.getLsbD_setWidth, List.mem_cons]
    constructor
    · rintro (h | ⟨hj, u, hu, h⟩)
      · simp only [Bool.and_eq_true, decide_eq_true_eq, Bool.not_eq_true',
          decide_eq_false_iff_not] at h
        exact ⟨h.1.1, t, Or.inl rfl, by omega, h.2.2⟩
      · exact ⟨hj, u, Or.inr hu, h⟩
    · rintro ⟨hj, u, rfl | hu, hle, hb⟩
      · left
        simp only [hb, Bool.and_true, Bool.and_eq_true, decide_eq_true_eq, Bool.not_eq_true',
          decide_eq_false_iff_not]
        omega
      · exact Or.inr ⟨hj, u, hu, hle, hb⟩

/-- A unit gathered in one byte order has the unit's bits. -/
theorem gather_order_getLsbD (bo : CByteOrder) (n : ℕ) (mem : Memory) (ptr j : ℕ)
    (hj : j < 8 * n) :
    (gather (8 * n) (orderTerms bo n) mem ptr).getLsbD j = unitBit bo n mem ptr j := by
  have hbyte : unitByte bo n j < n := by cases bo <;> simp only [unitByte] <;> omega
  have hshift : orderShift bo n (unitByte bo n j) = 8 * (j / 8) := by
    cases bo <;> simp only [orderShift, unitByte] <;> omega
  rw [Bool.eq_iff_iff, gather_getLsbD]
  constructor
  · rintro ⟨_, t, ht, hle, hb⟩
    obtain ⟨k, hk, rfl⟩ := List.mem_map.mp ht
    rw [List.mem_range] at hk
    have hlt : j - orderShift bo n k < 8 := BitVec.lt_of_getLsbD hb
    have hkj : k = unitByte bo n j := by
      cases bo <;> simp only [orderShift, unitByte] at hle hlt ⊢ <;> omega
    subst hkj
    rw [hshift] at hb
    have hmod : j - 8 * (j / 8) = j % 8 := by omega
    simpa only [unitBit, hmod] using hb
  · intro hb
    refine ⟨hj, (unitByte bo n j, orderShift bo n (unitByte bo n j)),
      List.mem_map.mpr ⟨_, List.mem_range.mpr hbyte, rfl⟩, by simp only [hshift]; omega, ?_⟩
    have hmod : j - 8 * (j / 8) = j % 8 := by omega
    simpa only [unitBit, hshift, hmod] using hb

theorem scatter_apply {w : ℕ} (ks : List ℕ) (f : ℕ → ℕ) (v : BitVec w) (mem : Memory)
    (ptr a : ℕ) :
    scatter (ks.map fun k => (k, f k)) v mem ptr a =
      if a - ptr ∈ ks ∧ ptr ≤ a then (v >>> f (a - ptr)).setWidth 8 else mem a := by
  induction ks generalizing mem with
  | nil => simp [scatter]
  | cons k ks ih =>
    have hstep : scatter ((k :: ks).map fun k => (k, f k)) v mem ptr =
        scatter (ks.map fun k => (k, f k)) v
          (Function.update mem (ptr + k) ((v >>> f k).setWidth 8)) ptr := rfl
    rw [hstep, ih]
    by_cases hin : a - ptr ∈ ks ∧ ptr ≤ a
    · rw [if_pos hin, if_pos ⟨List.mem_cons_of_mem _ hin.1, hin.2⟩]
    · rw [if_neg hin]
      by_cases hk : a = ptr + k
      · subst hk
        simp
      · rw [Function.update_of_ne hk, if_neg]
        rintro ⟨hm, hle⟩
        rcases List.mem_cons.mp hm with h | h
        · omega
        · exact hin ⟨h, hle⟩

/-- A word scattered in one byte order has become the unit's bits. -/
theorem scatter_order_unitBit (bo : CByteOrder) (n : ℕ) (v : BitVec (8 * n)) (mem : Memory)
    (ptr j : ℕ) (hj : j < 8 * n) :
    unitBit bo n (scatter (orderTerms bo n) v mem ptr) ptr j = v.getLsbD j := by
  have hbyte : unitByte bo n j < n := by cases bo <;> simp only [unitByte] <;> omega
  have hshift : orderShift bo n (unitByte bo n j) = 8 * (j / 8) := by
    cases bo <;> simp only [orderShift, unitByte] <;> omega
  unfold unitBit orderTerms
  rw [scatter_apply, Nat.add_sub_cancel_left,
    if_pos ⟨List.mem_range.mpr hbyte, Nat.le_add_right _ _⟩, hshift]
  simp only [BitVec.getLsbD_setWidth, BitVec.getLsbD_ushiftRight]
  rw [show 8 * (j / 8) + j % 8 = j by omega]
  simp [Nat.mod_lt]

theorem scatter_order_frame (bo : CByteOrder) (n : ℕ) (v : BitVec (8 * n)) (mem : Memory)
    (ptr a : ℕ) (ha : a < ptr ∨ ptr + n ≤ a) :
    scatter (orderTerms bo n) v mem ptr a = mem a := by
  unfold orderTerms
  rw [scatter_apply, if_neg]
  rintro ⟨hm, hle⟩
  have := List.mem_range.mp hm
  omega

/-- Every unit bit lies in one of the unit's bytes, so a unit is its bits. -/
theorem memory_ext_of_unitBit (bo : CByteOrder) (n : ℕ) (m m' : Memory) (ptr : ℕ)
    (hb : ∀ j < 8 * n, unitBit bo n m ptr j = unitBit bo n m' ptr j)
    (hf : ∀ a, a < ptr ∨ ptr + n ≤ a → m a = m' a) : m = m' := by
  funext a
  by_cases ha : a < ptr ∨ ptr + n ≤ a
  · exact hf a ha
  · apply BitVec.eq_of_getLsbD_eq
    intro i hi
    cases bo with
    | littleEndian =>
      have h := hb (8 * (a - ptr) + i) (by omega)
      simpa only [unitBit, unitByte, show (8 * (a - ptr) + i) / 8 = a - ptr by omega,
        show (8 * (a - ptr) + i) % 8 = i by omega, show ptr + (a - ptr) = a by omega] using h
    | bigEndian =>
      have h := hb (8 * (n - 1 - (a - ptr)) + i) (by omega)
      simpa only [unitBit, unitByte,
        show (8 * (n - 1 - (a - ptr)) + i) / 8 = n - 1 - (a - ptr) by omega,
        show (8 * (n - 1 - (a - ptr)) + i) % 8 = i by omega,
        show ptr + (n - 1 - (n - 1 - (a - ptr))) = a by omega] using h

theorem widen_getLsbD {w : ℕ} (sign : Bool) (v : BitVec w) (j : ℕ) (hj : j < 64) :
    (widen sign v).getLsbD j = if j < w then v.getLsbD j else sign && v.getLsbD (w - 1) := by
  cases sign with
  | false =>
    have hz : (widen false v).getLsbD j = v.getLsbD j := by
      simp only [widen, Bool.false_eq_true, if_false, BitVec.getLsbD_setWidth, hj, decide_true,
        Bool.true_and]
    rw [hz]
    split_ifs with h
    · rfl
    · rw [BitVec.getLsbD_of_ge v j (by omega), Bool.false_and]
  | true =>
    simp only [widen, if_true, BitVec.getLsbD_signExtend, hj, decide_true, Bool.true_and,
      BitVec.msb_eq_getLsbD_last]

/-- The fetched word: the unit's bits, extended by its top bit when signed. -/
theorem fetchSwitch_getLsbD (size : ℕ) (hs : IntegerSize size) (sign : Bool) (bo : CByteOrder)
    (mem : Memory) (ptr : ℕ) (iv : BitVec 64) (j : ℕ) (hj : j < 64) :
    (fetchSwitch size sign bo mem ptr iv).getLsbD j =
      if j < 8 * size then unitBit bo size mem ptr j
      else sign && unitBit bo size mem ptr (8 * size - 1) := by
  have hg (n : ℕ) (hn : 0 < n) :
      (widen sign (gather (8 * n) (orderTerms bo n) mem ptr)).getLsbD j =
        if j < 8 * n then unitBit bo n mem ptr j
        else sign && unitBit bo n mem ptr (8 * n - 1) := by
    rw [widen_getLsbD _ _ _ hj]
    split_ifs with h
    · exact gather_order_getLsbD bo n mem ptr j h
    · rw [gather_order_getLsbD bo n mem ptr (8 * n - 1) (by omega)]
  rcases hs with rfl | rfl | rfl | rfl <;> rw [← hg _ (by decide)] <;> cases bo <;> rfl

/-- Storing a word makes its low bits the unit's bits. -/
theorem storeSwitch_unitBit (size : ℕ) (hs : IntegerSize size) (bo : CByteOrder) (mem : Memory)
    (ptr : ℕ) (v : BitVec 64) (j : ℕ) (hj : j < 8 * size) :
    unitBit bo size (storeSwitch size bo mem ptr v) ptr j = v.getLsbD j := by
  have hg (n : ℕ) (hn : j < 8 * n) :
      unitBit bo n (scatter (orderTerms bo n) (v.setWidth (8 * n)) mem ptr) ptr j =
        v.getLsbD j := by
    rw [scatter_order_unitBit _ _ _ _ _ _ hn]
    simp [hn]
  rcases hs with rfl | rfl | rfl | rfl <;> rw [← hg _ hj] <;> cases bo <;>
    rfl

/-- Another size stores nothing. -/
theorem storeSwitch_of_size {size : ℕ} (hs : ¬ IntegerSize size) (bo : CByteOrder) (mem : Memory)
    (ptr : ℕ) (v : BitVec 64) : storeSwitch size bo mem ptr v = mem := by
  unfold IntegerSize at hs
  unfold storeSwitch
  split <;> simp_all

theorem storeSwitch_frame (size : ℕ) (bo : CByteOrder) (mem : Memory) (ptr : ℕ) (v : BitVec 64)
    (a : ℕ) (ha : a < ptr ∨ ptr + size ≤ a) : storeSwitch size bo mem ptr v a = mem a := by
  by_cases hs : IntegerSize size
  · have hg (n : ℕ) (hn : a < ptr ∨ ptr + n ≤ a) :
        scatter (orderTerms bo n) (v.setWidth (8 * n)) mem ptr a = mem a :=
      scatter_order_frame _ _ _ _ _ _ hn
    rcases hs with rfl | rfl | rfl | rfl <;> rw [← hg _ ha] <;> cases bo <;> rfl
  · rw [storeSwitch_of_size hs]

end ConvertBinaryC
