import Mathlib.Data.List.TakeWhile

/-! Rules for scanners that read the longest run of elements with a property. -/
namespace ScanRules

variable {α : Type} {p : α → Bool} {run s : List α}

/-- The rest does not go on with the run. -/
def Stops (p : α → Bool) (s : List α) : Prop := ∀ a ∈ s.head?, p a = false

theorem stops_nil : Stops p [] := fun _ h => nomatch h

theorem stops_cons_iff {a : α} : Stops p (a :: s) ↔ p a = false := by
  constructor
  · exact fun h => h a rfl
  · intro h b hb
    rwa [← Option.some.inj hb]

theorem Stops.takeWhile_eq_nil (hs : Stops p s) : s.takeWhile p = [] := by
  cases s with
  | nil => rfl
  | cons a s =>
    have ha : p a = false := stops_cons_iff.mp hs
    rw [List.takeWhile_cons, ha]
    rfl

theorem Stops.dropWhile_eq_self (hs : Stops p s) : s.dropWhile p = s := by
  cases s with
  | nil => rfl
  | cons a s =>
    have ha : p a = false := stops_cons_iff.mp hs
    rw [List.dropWhile_cons, ha]
    rfl

/-- A scanner takes exactly the run. -/
theorem takeWhile_run (hrun : ∀ a ∈ run, p a = true) (hs : Stops p s) :
    (run ++ s).takeWhile p = run := by
  rw [List.takeWhile_append_of_pos hrun, hs.takeWhile_eq_nil, List.append_nil]

theorem dropWhile_run (hrun : ∀ a ∈ run, p a = true) (hs : Stops p s) :
    (run ++ s).dropWhile p = s := by
  rw [List.dropWhile_append_of_pos hrun, hs.dropWhile_eq_self]

theorem mem_takeWhile {a : α} (ha : a ∈ s.takeWhile p) : p a = true := List.mem_takeWhile_imp ha

theorem stops_dropWhile (s : List α) : Stops p (s.dropWhile p) := by
  intro a ha
  by_contra hp
  have hne : s.dropWhile p ≠ [] := by
    intro hnil
    rw [hnil] at ha
    exact nomatch ha
  have hhead := List.head_dropWhile_not p hne
  have heq : (s.dropWhile p).head hne = a := by
    rw [List.head?_eq_some_head hne] at ha
    exact Option.some.inj ha
  rw [heq] at hhead
  exact hp hhead

/-- Every list is a run and a rest that does not go on with it. -/
theorem exists_run (p : α → Bool) (s : List α) :
    ∃ run rest, s = run ++ rest ∧ (∀ a ∈ run, p a = true) ∧ Stops p rest :=
  ⟨s.takeWhile p, s.dropWhile p, (List.takeWhile_append_dropWhile).symm, fun _ ha => mem_takeWhile ha,
    stops_dropWhile s⟩

/-- The same from the end. -/
theorem exists_run_back (p : α → Bool) (s : List α) :
    ∃ rest run, s = rest ++ run ∧ (∀ a ∈ run, p a = true) ∧ ∀ a ∈ rest.getLast?, p a = false := by
  obtain ⟨run, rest, hs, hrun, hstops⟩ := exists_run p s.reverse
  refine ⟨rest.reverse, run.reverse, ?_, ?_, ?_⟩
  · rw [← List.reverse_append, ← hs, List.reverse_reverse]
  · exact fun a ha => hrun a (List.mem_reverse.mp ha)
  · intro a ha
    rw [List.getLast?_reverse] at ha
    exact hstops a ha

end ScanRules
