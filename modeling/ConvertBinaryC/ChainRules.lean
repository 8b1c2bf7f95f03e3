import Mathlib.Tactic

/-! Chains kept strictly sorted by a rank. A walk that stops at the first node not below
a rank has passed all the nodes below it, and a node inserted there keeps the order. -/
namespace ChainRules

variable {α κ : Type} [LinearOrder κ] {rank : α → κ} {chain : List α}

def Sorted (rank : α → κ) (chain : List α) : Prop :=
  chain.Pairwise fun a b => rank a < rank b

theorem Sorted.filter (h : Sorted rank chain) (p : α → Bool) : Sorted rank (chain.filter p) :=
  List.Pairwise.sublist List.filter_sublist h

theorem Sorted.nodup (h : Sorted rank chain) : chain.Nodup := by
  apply List.Pairwise.imp _ h
  intro a b hab heq
  rw [heq] at hab
  exact lt_irrefl _ hab

theorem Sorted.eq_of_rank (h : Sorted rank chain) {a b : α} (ha : a ∈ chain) (hb : b ∈ chain)
    (hrank : rank a = rank b) : a = b := by
  have hinjective : chain.Pairwise fun x y => rank x = rank y → x = y :=
    List.Pairwise.imp (fun hxy heq => absurd heq hxy.ne) h
  have hsymm : Std.Symm fun x y : α => rank x = rank y → x = y :=
    ⟨fun _ _ hxy heq => (hxy heq.symm).symm⟩
  exact hinjective.forall_of_forall (fun _ _ _ => rfl) ha hb hrank

variable {k : κ} {p : α → Bool}

/-- Where the walk stops: before it are the nodes below the rank, after it the others. -/
theorem Sorted.walk (h : Sorted rank chain) (hp : ∀ y ∈ chain, p y = true ↔ rank y < k) :
    (∀ y ∈ chain.takeWhile p, rank y < k) ∧ ∀ y ∈ chain.dropWhile p, k ≤ rank y := by
  induction chain with
  | nil => exact ⟨fun y hy => absurd hy List.not_mem_nil, fun y hy => absurd hy List.not_mem_nil⟩
  | cons x xs ih =>
    obtain ⟨hx, hxs⟩ := List.pairwise_cons.mp h
    have htail := ih hxs fun y hy => hp y (List.mem_cons_of_mem x hy)
    by_cases hstop : p x = true
    · have hlt : rank x < k := (hp x List.mem_cons_self).mp hstop
      rw [List.takeWhile_cons_of_pos hstop, List.dropWhile_cons_of_pos hstop]
      refine ⟨?_, htail.2⟩
      intro y hy
      rcases List.mem_cons.mp hy with rfl | hy
      · exact hlt
      · exact htail.1 y hy
    · have hle : k ≤ rank x := not_lt.mp fun hlt => hstop ((hp x List.mem_cons_self).mpr hlt)
      rw [List.takeWhile_cons_of_neg hstop, List.dropWhile_cons_of_neg hstop]
      refine ⟨fun y hy => absurd hy List.not_mem_nil, ?_⟩
      intro y hy
      rcases List.mem_cons.mp hy with rfl | hy
      · exact hle
      · exact hle.trans (hx y hy).le

/-- No node has the rank if the walk stops at a node with another one, or at the end. -/
theorem Sorted.absent (h : Sorted rank chain) (hp : ∀ y ∈ chain, p y = true ↔ rank y < k)
    (hstop : ∀ y rest, chain.dropWhile p = y :: rest → rank y ≠ k) :
    ∀ y ∈ chain, rank y ≠ k := by
  intro y hy heq
  obtain ⟨hbefore, hafter⟩ := h.walk hp
  have hsplit : y ∈ chain.takeWhile p ++ chain.dropWhile p := by
    rwa [List.takeWhile_append_dropWhile]
  rcases List.mem_append.mp hsplit with hy | hy
  · exact absurd heq (hbefore y hy).ne
  · cases hrest : chain.dropWhile p with
    | nil =>
      rw [hrest] at hy
      exact absurd hy List.not_mem_nil
    | cons z rest =>
      have hsorted : Sorted rank (z :: rest) :=
        hrest ▸ List.Pairwise.sublist (List.dropWhile_sublist p) h
      have hz : k ≤ rank z := hafter z (hrest ▸ List.mem_cons_self)
      rw [hrest] at hy
      rcases List.mem_cons.mp hy with rfl | hy
      · exact hstop y rest hrest heq
      · have hlt := (List.pairwise_cons.mp hsorted).1 y hy
        exact absurd heq (lt_of_le_of_lt hz hlt).ne'

theorem mem_insert {x y : α} :
    y ∈ chain.takeWhile p ++ x :: chain.dropWhile p ↔ y = x ∨ y ∈ chain := by
  have hchain : y ∈ chain ↔ y ∈ chain.takeWhile p ∨ y ∈ chain.dropWhile p := by
    rw [← List.mem_append, List.takeWhile_append_dropWhile]
  rw [hchain, List.mem_append, List.mem_cons]
  tauto

/-- A node with a new rank is inserted where the walk stops. -/
theorem Sorted.insert {x : α} (h : Sorted rank chain)
    (hp : ∀ y ∈ chain, p y = true ↔ rank y < rank x) (hnew : ∀ y ∈ chain, rank y ≠ rank x) :
    Sorted rank (chain.takeWhile p ++ x :: chain.dropWhile p) := by
  obtain ⟨hbefore, hafter⟩ := h.walk hp
  have hsplit : Sorted rank (chain.takeWhile p ++ chain.dropWhile p) := by
    rwa [List.takeWhile_append_dropWhile]
  obtain ⟨hleft, hright, hcross⟩ := List.pairwise_append.mp hsplit
  apply List.pairwise_append.mpr
  refine ⟨hleft, List.pairwise_cons.mpr ⟨?_, hright⟩, ?_⟩
  · intro y hy
    have hmem : y ∈ chain := (List.dropWhile_sublist p).subset hy
    exact lt_of_le_of_ne (hafter y hy) (hnew y hmem).symm
  · intro a ha b hb
    rcases List.mem_cons.mp hb with rfl | hb
    · exact hbefore a ha
    · exact hcross a ha b hb

/-- Removing the one node that a test holds of. -/
theorem mem_eraseP {x y : α} (hnodup : chain.Nodup) (hp : ∀ z ∈ chain, p z = true ↔ z = x) :
    y ∈ chain.eraseP p ↔ y ∈ chain ∧ y ≠ x := by
  induction chain with
  | nil => simp
  | cons z zs ih =>
    obtain ⟨hz, hzs⟩ := List.nodup_cons.mp hnodup
    by_cases hzx : z = x
    · subst hzx
      rw [List.eraseP_cons_of_pos ((hp z List.mem_cons_self).mpr rfl), List.mem_cons]
      constructor
      · intro hy
        exact ⟨Or.inr hy, fun heq => hz (heq ▸ hy)⟩
      · rintro ⟨rfl | hy, hne⟩
        · exact absurd rfl hne
        · exact hy
    · have hneg : ¬p z = true := fun h => hzx ((hp z List.mem_cons_self).mp h)
      rw [List.eraseP_cons_of_neg hneg, List.mem_cons, List.mem_cons,
        ih hzs fun w hw => hp w (List.mem_cons_of_mem z hw)]
      constructor
      · rintro (rfl | ⟨hy, hne⟩)
        · exact ⟨Or.inl rfl, hzx⟩
        · exact ⟨Or.inr hy, hne⟩
      · rintro ⟨rfl | hy, hne⟩
        · exact Or.inl rfl
        · exact Or.inr ⟨hy, hne⟩

end ChainRules
