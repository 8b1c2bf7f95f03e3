import ConvertBinaryC.StateRules

/-! Forward simulation between two computations over different states that return the same
values: every run of the first one that returns is followed by the second one, and a relation
holds of the two states that they leave. -/
namespace SimulateRules
open StateRules

variable {ε σ τ α β : Type}

/-- When `m` returns from `s`, `p` returns the same from `x`, and the two states are related. -/
def Simulates (R : σ → τ → Prop) (m : EStateM ε σ α) (p : EStateM ε τ α) (s : σ) (x : τ) : Prop :=
  ∀ a t, m s = .ok a t → ∃ y, p x = .ok a y ∧ R t y

variable {Q R : σ → τ → Prop} {m : EStateM ε σ α} {p : EStateM ε τ α} {s : σ} {x : τ}

theorem Simulates.bind {f : α → EStateM ε σ β} {g : α → EStateM ε τ β} (hm : Simulates Q m p s x)
    (hf : ∀ a t y, Q t y → Simulates R (f a) (g a) t y) :
    Simulates R (m >>= f) (p >>= g) s x := by
  intro b u hu
  obtain ⟨a, t, hrun, hrest⟩ := bind_ok hu
  obtain ⟨y, hy, hty⟩ := hm a t hrun
  obtain ⟨z, hz, huz⟩ := hf a t y hty b u hrest
  exact ⟨z, (bind_of_ok hy).trans hz, huz⟩

theorem Simulates.mono (h : Simulates Q m p s x) (hQ : ∀ t y, Q t y → R t y) :
    Simulates R m p s x := by
  intro a t ht
  obtain ⟨y, hy, hty⟩ := h a t ht
  exact ⟨y, hy, hQ t y hty⟩

end SimulateRules
