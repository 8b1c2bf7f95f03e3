import ConvertBinaryC.StateRules

/-! Copying parts of one memory into another one, part by part, and rules for computations over a
state that do something to a set of addresses. -/
namespace PasteRules

section Paste
variable {M α β : Type} (bit : M → α → β)

/-- The addresses in `S` were overwritten with what `src` has there, and no others. -/
structure Pastes (S : Set α) (src old new : M) : Prop where
  written : Set.EqOn (bit new) (bit src) S
  kept : Set.EqOn (bit new) (bit old) Sᶜ

variable {bit} {S T : Set α} {src old mid new : M}

theorem Pastes.refl (m : M) : Pastes bit ∅ src m m where
  written _ ha := ha.elim
  kept _ _ := rfl

theorem Pastes.trans (h : Pastes bit S src old mid) (h' : Pastes bit T src mid new) :
    Pastes bit (S ∪ T) src old new where
  written := by
    intro a ha
    by_cases ht : a ∈ T
    · exact h'.written ht
    · -- the second part leaves alone what only the first one wrote
      rw [h'.kept ht]
      exact h.written (ha.resolve_right ht)
  kept := by
    intro a ha
    have hs : a ∉ S := fun hs => ha (Or.inl hs)
    have ht : a ∉ T := fun ht => ha (Or.inr ht)
    rw [h'.kept ht, h.kept hs]

end Paste

/-- An effect that says which addresses it is about. -/
structure Graded (σ α : Type) where
  returns : Set α → σ → σ → Prop
  refl : ∀ s, returns ∅ s s
  trans : ∀ {S T s t u}, returns S s t → returns T t u → returns (S ∪ T) s u

namespace Graded
variable {ε σ α δ γ : Type} (E : Graded σ α)

def Reach (s t : σ) : Prop := ∃ S, E.returns S s t

/-- The run of `m` from `s` returns, with the effect on `S`. -/
def Does (m : EStateM ε σ PUnit) (S : Set α) (s : σ) : Prop :=
  ∃ t, m s = .ok ⟨⟩ t ∧ E.returns S s t

variable {E} {m : EStateM ε σ PUnit} {f : PUnit → EStateM ε σ PUnit} {S T : Set α} {s t : σ}

theorem Reach.refl (s : σ) : E.Reach s s := ⟨∅, E.refl s⟩

theorem Reach.trans {u : σ} (h : E.Reach s t) (h' : E.Reach t u) : E.Reach s u := by
  obtain ⟨S, hS⟩ := h
  obtain ⟨T, hT⟩ := h'
  exact ⟨S ∪ T, E.trans hS hT⟩

theorem does_pure (s : σ) : E.Does (pure ⟨⟩ : EStateM ε σ PUnit) ∅ s := ⟨s, rfl, E.refl s⟩

theorem Does.of_eq (h : E.Does m S s) (hST : S = T) : E.Does m T s := hST ▸ h

theorem Does.bind (hm : E.Does m S s) (hf : ∀ t, E.Reach s t → E.Does (f ⟨⟩) T t) :
    E.Does (m >>= f) (S ∪ T) s := by
  obtain ⟨t, hmt, hst⟩ := hm
  obtain ⟨u, hfu, htu⟩ := hf t ⟨S, hst⟩
  exact ⟨u, (StateRules.bind_of_ok hmt).trans hfu, E.trans hst htu⟩

/-- A step that is about no address. -/
theorem Does.step {β : Type} {m : EStateM ε σ β} {f : β → EStateM ε σ PUnit} {b : β}
    (hm : m s = .ok b t) (hst : E.returns ∅ s t) (hf : E.Does (f b) S t) :
    E.Does (m >>= f) S s := by
  obtain ⟨u, hfu, htu⟩ := hf
  have hsu := E.trans hst htu
  rw [Set.empty_union] at hsu
  exact ⟨u, (StateRules.bind_of_ok hm).trans hfu, hsu⟩

/-- A loop over a list, where `total` is what was done so far, and `Q` says what has to hold of
it. -/
theorem does_forM {l : List δ} {step : γ → δ → Option γ} {f : δ → EStateM ε σ PUnit}
    {total : γ → Set α} {Q : γ → Prop} {c c' : γ} {s : σ}
    (hQ : ∀ x ∈ l, ∀ c c', step c x = some c' → Q c' → Q c)
    (hf : ∀ x ∈ l, ∀ c c', step c x = some c' → Q c' → ∀ t, E.Reach s t →
      ∃ T, total c ∪ T = total c' ∧ E.Does (f x) T t)
    (hc : l.foldlM step c = some c') (hc' : Q c') :
    Q c ∧ ∃ T, total c ∪ T = total c' ∧ E.Does (l.forM f) T s := by
  induction l generalizing c s with
  | nil =>
    cases hc
    exact ⟨hc', ∅, Set.union_empty _, does_pure s⟩
  | cons x l ih =>
    rw [List.foldlM_cons] at hc
    obtain ⟨d, hd, hc⟩ := Option.bind_eq_some_iff.mp hc
    have htail {t : σ} (ht : E.Reach s t) := ih (c := d) (s := t)
      (fun y hy => hQ y (List.mem_cons_of_mem x hy))
      (fun y hy e e' he he' u hu => hf y (List.mem_cons_of_mem x hy) e e' he he' u (ht.trans hu)) hc
    have hd' := (htail (Reach.refl s)).1
    obtain ⟨S, hS, t, hrun, hst⟩ := hf x List.mem_cons_self c d hd hd' s (Reach.refl s)
    obtain ⟨T, hT, u, hrest, htu⟩ := (htail ⟨S, hst⟩).2
    refine ⟨hQ x List.mem_cons_self c d hd hd', S ∪ T, ?_, u, ?_, E.trans hst htu⟩
    · rw [← Set.union_assoc, hS, hT]
    · exact (StateRules.bind_of_ok hrun).trans hrest

/-- A loop over a list with the index of each element. -/
theorem does_forM_zipIdx {β : Type} {l : List β} {value : β → δ} {f : δ × ℕ → EStateM ε σ PUnit}
    {part : β → Set α} {k : ℕ} {s : σ}
    (hf : ∀ i b, l[i]? = some b → ∀ t, E.Reach s t → E.Does (f (value b, k + i)) (part b) t) :
    E.Does (((l.map value).zipIdx k).forM f) {a | ∃ b ∈ l, a ∈ part b} s := by
  induction l generalizing k s with
  | nil => exact (does_pure s).of_eq (by simp)
  | cons b l ih =>
    rw [List.map_cons, List.zipIdx_cons]
    have hfirst := hf 0 b rfl s (Reach.refl s)
    have hrest := hfirst.bind (f := fun _ => ((l.map value).zipIdx (k + 1)).forM f) fun t ht =>
      ih fun i b' hb' u hu => by
        rw [show k + 1 + i = k + (i + 1) by omega]
        exact hf (i + 1) b' hb' u (ht.trans hu)
    apply hrest.of_eq
    ext a
    simp

end Graded

end PasteRules
