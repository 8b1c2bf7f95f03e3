import ConvertBinaryC.BitCounterRules

/-! The usual layout of a record: parts behind each other, each at a multiple of its
alignment, or all parts at the start. -/
namespace AbiRules
open BitCounterRules

structure Part where
  size : ℤ
  align : ℤ

def Part.start (overlay : Bool) (stop : ℤ) (part : Part) : ℤ :=
  if overlay then 0 else roundUp stop part.align

/-- The parts' starts, if the part before them ends at `stop`. -/
def starts (overlay : Bool) : ℤ → List Part → List ℤ
  | _, [] => []
  | stop, part :: parts =>
    part.start overlay stop :: starts overlay (part.start overlay stop + part.size) parts

def ends (overlay : Bool) : ℤ → List Part → List ℤ
  | _, [] => []
  | stop, part :: parts =>
    (part.start overlay stop + part.size) ::
      ends overlay (part.start overlay stop + part.size) parts

def alignment (least : ℤ) (parts : List Part) : ℤ := (parts.map Part.align).foldl max least

/-- The first size that is a multiple of the alignment and not below the end of a part. -/
def IsSize (align : ℤ) (ends : List ℤ) (size : ℤ) : Prop :=
  IsLeast {n | 0 ≤ n ∧ align ∣ n ∧ ∀ e ∈ ends, e ≤ n} size

theorem foldl_max_le_iff {m n : ℤ} (l : List ℤ) :
    l.foldl max m ≤ n ↔ m ≤ n ∧ ∀ e ∈ l, e ≤ n := by
  induction l generalizing m with
  | nil => simp
  | cons e l ih =>
    rw [List.foldl_cons, ih, max_le_iff, List.forall_mem_cons, and_assoc]

theorem le_foldl_max (m : ℤ) (l : List ℤ) : m ≤ l.foldl max m :=
  ((foldl_max_le_iff l).mp le_rfl).1

theorem isSize_roundUp {align : ℤ} (halign : 0 < align) (l : List ℤ) :
    IsSize align l (roundUp (l.foldl max 0) align) := by
  have hleast := roundUp_isLeast (l.foldl max 0) halign
  have hset : {n | 0 ≤ n ∧ align ∣ n ∧ ∀ e ∈ l, e ≤ n} = {n | l.foldl max 0 ≤ n ∧ align ∣ n} := by
    ext n
    have hmax := @foldl_max_le_iff 0 n l
    constructor
    · exact fun h => ⟨hmax.mpr ⟨h.1, h.2.2⟩, h.2.1⟩
    · exact fun h => ⟨(hmax.mp h.1).1, h.2, (hmax.mp h.1).2⟩
  unfold IsSize
  rw [hset]
  exact hleast

/-- There is only one size. -/
theorem isSize_iff {align : ℤ} (halign : 0 < align) (l : List ℤ) (size : ℤ) :
    IsSize align l size ↔ size = roundUp (l.foldl max 0) align := by
  constructor
  · exact fun h => h.unique (isSize_roundUp halign l)
  · exact fun h => h ▸ isSize_roundUp halign l

/-- Parts behind each other: the next one starts behind the largest end so far. -/
theorem max_end {part : Part} (stop : ℤ) (hsize : 0 ≤ part.size) (halign : 0 < part.align) :
    max stop (part.start false stop + part.size) = part.start false stop + part.size := by
  have hle : stop ≤ part.start false stop := (roundUp_isLeast stop halign).1.1
  exact max_eq_right (by omega)

theorem starts_next (overlay : Bool) {part : Part} (stop : ℤ) (hsize : 0 ≤ part.size)
    (halign : 0 < part.align) (parts : List Part) :
    starts overlay (part.start overlay stop + part.size) parts =
      starts overlay (max stop (part.start overlay stop + part.size)) parts := by
  cases overlay with
  | false => rw [max_end stop hsize halign]
  | true => cases parts <;> rfl

theorem ends_next (overlay : Bool) {part : Part} (stop : ℤ) (hsize : 0 ≤ part.size)
    (halign : 0 < part.align) (parts : List Part) :
    ends overlay (part.start overlay stop + part.size) parts =
      ends overlay (max stop (part.start overlay stop + part.size)) parts := by
  cases overlay with
  | false => rw [max_end stop hsize halign]
  | true => cases parts <;> rfl

/-- Every part has room before some end. -/
theorem size_le_end (overlay : Bool) {parts : List Part}
    (h : ∀ part ∈ parts, 0 ≤ part.size ∧ 0 < part.align) {stop : ℤ} (hstop : 0 ≤ stop) {part : Part}
    (hmem : part ∈ parts) : ∃ e ∈ ends overlay stop parts, part.size ≤ e := by
  induction parts generalizing stop with
  | nil => exact absurd hmem List.not_mem_nil
  | cons first parts ih =>
    rw [List.forall_mem_cons] at h
    have hstart : 0 ≤ first.start overlay stop := by
      unfold Part.start
      split_ifs
      · exact le_rfl
      · exact hstop.trans (roundUp_isLeast stop h.1.2).1.1
    rcases List.mem_cons.mp hmem with rfl | hmem
    · exact ⟨_, List.mem_cons_self, by omega⟩
    · obtain ⟨e, he, hle⟩ := ih h.2 (add_nonneg hstart h.1.1) hmem
      exact ⟨e, List.mem_cons_of_mem _ he, hle⟩

end AbiRules
