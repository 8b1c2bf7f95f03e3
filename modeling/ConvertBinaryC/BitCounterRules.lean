import Mathlib.Tactic

/-! Placing bit-fields and ordinary members with one counter of bits: a bit-field does
not cross a boundary of its type, and an ordinary member starts at a multiple of its
alignment. -/
namespace BitCounterRules

/-- The first multiple of `a` not below `n`. -/
def roundUp (n a : ℤ) : ℤ := if n % a = 0 then n else n + (a - n % a)

theorem roundUp_isLeast (n : ℤ) {a : ℤ} (ha : 0 < a) :
    IsLeast {m | n ≤ m ∧ a ∣ m} (roundUp n a) := by
  have hlt := Int.emod_lt_of_pos n ha
  have hnonneg := Int.emod_nonneg n ha.ne'
  unfold roundUp
  split_ifs with hzero
  · exact ⟨⟨le_rfl, Int.dvd_of_emod_eq_zero hzero⟩, fun m hm => hm.1⟩
  · refine ⟨⟨by omega, ?_⟩, ?_⟩
    · have hsplit : n + (a - n % a) = a * (n / a + 1) := by
        have hdiv := Int.mul_ediv_add_emod n a
        rw [mul_add, mul_one]
        omega
      exact hsplit ▸ Dvd.intro _ rfl
    · rintro m ⟨hle, k, rfl⟩
      have hdiv := Int.mul_ediv_add_emod n a
      have hquot : n / a + 1 ≤ k := by
        by_contra hk
        have hmul : a * k ≤ a * (n / a) := mul_le_mul_of_nonneg_left (by omega) ha.le
        omega
      have hmul : a * (n / a + 1) ≤ a * k := mul_le_mul_of_nonneg_left hquot ha.le
      rw [mul_add, mul_one] at hmul
      omega

/-- A multiple of `a` with the next one. -/
theorem roundUp_between {a k r : ℤ} (hr : 0 < r) (hle : r ≤ a) :
    roundUp (a * k + r) a = a * (k + 1) := by
  have hleast := roundUp_isLeast (a * k + r) (by omega : 0 < a)
  apply hleast.unique
  refine ⟨⟨by rw [mul_add, mul_one]; omega, Dvd.intro _ rfl⟩, ?_⟩
  rintro m ⟨hm, j, rfl⟩
  have hkj : k < j := by
    by_contra hj
    have hmul : a * j ≤ a * k := mul_le_mul_of_nonneg_left (by omega) (by omega)
    omega
  exact mul_le_mul_of_nonneg_left (by omega) (by omega)

theorem roundUp_of_dvd {a k : ℤ} : roundUp (a * k) a = a * k := by
  rw [roundUp, if_pos (Int.mul_emod_right a k)]

theorem ediv_of_between {a k r : ℤ} (hr : 0 ≤ r) (hlt : r < a) : (a * k + r) / a = k := by
  rw [add_comm, Int.add_mul_ediv_left r k (by omega), Int.ediv_eq_zero_of_lt hr hlt, zero_add]

/-- The first byte at or after a bit. -/
def byteCeil (p : ℤ) : ℤ := (p + 7) / 8

/-- What is placed; sizes and alignments are in bytes. -/
inductive Item where
  | bitfield (width size : ℤ)
  | ordinary (size align : ℤ)

/-- The bits from `p` on of the given width lie in one unit of the given size. -/
def InOneUnit (p width size : ℤ) : Prop := p / (8 * size) = (p + width - 1) / (8 * size)

instance (p width size : ℤ) : Decidable (InOneUnit p width size) :=
  inferInstanceAs (Decidable (_ = _))

/-- The bit at which an item starts, if `p` is the first bit after what is before it. -/
def Item.start (p : ℤ) : Item → ℤ
  | .bitfield width size =>
    if 0 < width ∧ InOneUnit p width size then p else roundUp p (8 * size)
  | .ordinary _ align => 8 * roundUp (byteCeil p) align

/-- The first bit after an item. -/
def Item.stop (p : ℤ) (item : Item) : ℤ :=
  match item with
  | .bitfield width _ => item.start p + width
  | .ordinary size _ => item.start p + 8 * size

/-- The starts of items in order. -/
def starts : ℤ → List Item → List ℤ
  | _, [] => []
  | p, item :: items => item.start p :: starts (item.stop p) items

/-- The first bit after all items. -/
def stopAll (p : ℤ) (items : List Item) : ℤ := items.foldl Item.stop p

/-- Items that take up space forwards. -/
def Item.Proper : Item → Prop
  | .bitfield width size => 0 ≤ width ∧ 0 < size
  | .ordinary size align => 0 ≤ size ∧ 0 < align

theorem Item.Proper.le_stop {item : Item} (h : item.Proper) (p : ℤ) : p ≤ item.stop p := by
  cases item with
  | bitfield width size =>
    have hround := (roundUp_isLeast p (by linarith [h.2] : 0 < 8 * size)).1.1
    have hwidth := h.1
    unfold stop start
    dsimp only
    split_ifs <;> linarith
  | ordinary size align =>
    have hround := (roundUp_isLeast (byteCeil p) h.2).1.1
    have hceil : p ≤ 8 * byteCeil p := by
      unfold byteCeil
      omega
    have hsize := h.1
    unfold stop start
    linarith

/-- Later items do not end before earlier ones. -/
theorem le_stopAll {items : List Item} (h : ∀ item ∈ items, item.Proper) (p : ℤ) :
    p ≤ stopAll p items := by
  induction items generalizing p with
  | nil => exact le_rfl
  | cons item items ih =>
    calc p ≤ item.stop p := (h item List.mem_cons_self).le_stop p
      _ ≤ stopAll (item.stop p) items := ih (fun i hi => h i (List.mem_cons_of_mem _ hi)) _

/-- What is placed ends behind its size. -/
theorem size_le_stopAll {items : List Item} (h : ∀ item ∈ items, item.Proper) {p : ℤ} (hp : 0 ≤ p)
    {size align : ℤ} (hmem : Item.ordinary size align ∈ items) : 8 * size ≤ stopAll p items := by
  induction items generalizing p with
  | nil => exact absurd hmem List.not_mem_nil
  | cons item items ih =>
    have hitem := h item List.mem_cons_self
    have hrest (i : Item) (hi : i ∈ items) : i.Proper := h i (List.mem_cons_of_mem _ hi)
    rcases List.mem_cons.mp hmem with rfl | hmem
    · have hround := (roundUp_isLeast (byteCeil p) hitem.2).1.1
      have hceil : 0 ≤ byteCeil p := by
        unfold byteCeil
        omega
      calc 8 * size ≤ (Item.ordinary size align).stop p := by
            unfold Item.stop Item.start
            dsimp only
            linarith
        _ ≤ stopAll ((Item.ordinary size align).stop p) items := le_stopAll hrest _
    · exact ih hrest (hp.trans (hitem.le_stop p)) hmem

variable {size k r width : ℤ}

/-- A field that fits the rest of its unit starts at once. -/
theorem start_fits (hr : 0 ≤ r) (hwidth : 0 < width) (hfit : r + width ≤ 8 * size) :
    (Item.bitfield width size).start (8 * size * k + r) = 8 * size * k + r := by
  apply if_pos
  refine ⟨hwidth, ?_⟩
  have hlast : 8 * size * k + r + width - 1 = 8 * size * k + (r + width - 1) := by ring
  rw [InOneUnit, hlast, ediv_of_between hr (by omega), ediv_of_between (by omega) (by omega)]

/-- A field that does not fit starts with the next unit. -/
theorem start_next (hwidth : 0 < width) (hle : r ≤ 8 * size)
    (hsize : width ≤ 8 * size) (hfit : 8 * size < r + width) :
    (Item.bitfield width size).start (8 * size * k + r) = 8 * size * (k + 1) := by
  rcases lt_or_eq_of_le hle with hlt | heq
  · have hnot : ¬(0 < width ∧ InOneUnit (8 * size * k + r) width size) := by
      rintro ⟨-, hunit⟩
      have hlast : 8 * size * k + r + width - 1 =
          8 * size * (k + 1) + (r + width - 1 - 8 * size) := by ring
      rw [InOneUnit, hlast, ediv_of_between (by omega) hlt,
        ediv_of_between (by omega) (by omega)] at hunit
      omega
    rw [Item.start, if_neg hnot]
    exact roundUp_between (by omega) hle
  · have hstart := @start_fits size (k + 1) 0 width le_rfl hwidth (by omega)
    have hsame : 8 * size * k + r = 8 * size * (k + 1) + 0 := by
      rw [heq]
      ring
    rw [hsame, hstart, add_zero]

/-- A zero width moves to the next boundary, if it is not at one. -/
theorem start_zero (hr : 0 < r) (hle : r ≤ 8 * size) :
    (Item.bitfield 0 size).start (8 * size * k + r) = 8 * size * (k + 1) := by
  rw [Item.start, if_neg fun h => lt_irrefl 0 h.1]
  exact roundUp_between hr hle

theorem start_zero_aligned : (Item.bitfield 0 size).start (8 * size * k) = 8 * size * k := by
  rw [Item.start, if_neg fun h => lt_irrefl 0 h.1]
  exact roundUp_of_dvd

end BitCounterRules
