import Mathlib.Tactic

/-! Runs of a deterministic step function that may be stuck: invariants, side
conditions on the steps of a run, and defects that no later step repairs. -/
namespace RunRules

variable {σ ι : Type}

def run (step : σ → ι → Option σ) : σ → List ι → Option σ
  | s, [] => some s
  | s, i :: is => (step s i).bind fun s' => run step s' is

/-- Every step of the run is taken where the condition holds of it. -/
def Along (step : σ → ι → Option σ) (good : σ → ι → Prop) : σ → List ι → Prop
  | _, [] => True
  | s, i :: is => good s i ∧ ∀ s', step s i = some s' → Along step good s' is

variable {step : σ → ι → Option σ} {good : σ → ι → Prop}

theorem run_cons {s r : σ} {i : ι} {is : List ι} (h : run step s (i :: is) = some r) :
    ∃ s', step s i = some s' ∧ run step s' is = some r :=
  Option.bind_eq_some_iff.mp h

/-- What every step keeps holds at the end of a run. -/
theorem run_invariant {P : σ → Prop} (hstep : ∀ s i s', P s → step s i = some s' → P s')
    {s r : σ} {is : List ι} (hs : P s) (h : run step s is = some r) : P r := by
  induction is generalizing s with
  | nil => exact Option.some.inj h ▸ hs
  | cons i is ih =>
    obtain ⟨s', hs', hr⟩ := run_cons h
    exact ih (hstep s i s' hs hs') hr

/-- What every good step keeps holds at the end of a run of good steps. -/
theorem run_invariant_along {P : σ → Prop}
    (hstep : ∀ s i s', P s → good s i → step s i = some s' → P s') {s r : σ} {is : List ι}
    (hs : P s) (hgood : Along step good s is) (h : run step s is = some r) : P r := by
  induction is generalizing s with
  | nil => exact Option.some.inj h ▸ hs
  | cons i is ih =>
    obtain ⟨s', hs', hr⟩ := run_cons h
    exact ih (hstep s i s' hs hgood.1 hs') (hgood.2 s' hs') hr

/-- A run with a bad step ends in a defect, if good steps keep `P`, a bad step from
`P` makes the defect, and no step removes it. -/
theorem run_defect {P D : σ → Prop}
    (hkeep : ∀ s i s', P s → good s i → step s i = some s' → P s')
    (hbreak : ∀ s i s', P s → ¬good s i → step s i = some s' → D s')
    (hstay : ∀ s i s', D s → step s i = some s' → D s') {s r : σ} {is : List ι}
    (hs : P s) (hbad : ¬Along step good s is) (h : run step s is = some r) : D r := by
  induction is generalizing s with
  | nil => exact absurd trivial hbad
  | cons i is ih =>
    obtain ⟨s', hs', hr⟩ := run_cons h
    by_cases hgood : good s i
    · apply ih (hkeep s i s' hs hgood hs') _ hr
      intro halong
      refine hbad ⟨hgood, fun t ht => ?_⟩
      rwa [← Option.some.inj (hs'.symm.trans ht)]
    · exact run_invariant hstay (hbreak s i s' hs hgood hs') hr

end RunRules
