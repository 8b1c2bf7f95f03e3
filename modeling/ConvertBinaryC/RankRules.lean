import Mathlib.Data.List.MinMax

/-! The first of the best elements of a list, `List.argmax`, for a list that is searched part by
part, and for one that is sorted into a list for each rank. -/
namespace ConvertBinaryC.RankRules

variable {α β : Type*} [LinearOrder β] (f : α → β)

/-- The better of two, and the first one if they are of the same rank. -/
def better : Option α → Option α → Option α
  | none, b => b
  | some a, none => some a
  | some a, some b => if f a < f b then some b else some a

variable {f}

theorem better_none_left (b : Option α) : better f none b = b := rfl

theorem better_none_right (a : Option α) : better f a none = a := by
  cases a with
  | none => rfl
  | some a => rfl

theorem argmax_concat_better (xs : List α) (a : α) :
    (xs ++ [a]).argmax f = better f (xs.argmax f) (some a) := by
  rw [List.argmax_concat]
  cases xs.argmax f with
  | none => rfl
  | some c => rfl

theorem better_assoc (a b c : Option α) :
    better f (better f a b) c = better f a (better f b c) := by
  cases a with
  | none => rfl
  | some a =>
    cases b with
    | none => rfl
    | some b =>
      cases c with
      | none => rw [better_none_right, better_none_right]
      | some c =>
        by_cases hab : f a < f b
        · by_cases hbc : f b < f c
          · simp only [better, if_pos hab, if_pos hbc, if_pos (hab.trans hbc)]
          · simp only [better, if_pos hab, if_neg hbc]
        · by_cases hbc : f b < f c
          · simp only [better, if_neg hab, if_pos hbc]
          · -- neither is better than the one before it
            have hac : ¬ f a < f c := not_lt.mpr ((not_lt.mp hbc).trans (not_lt.mp hab))
            simp only [better, if_neg hab, if_neg hbc, if_neg hac]

/-- The best of two parts is the better of their best. -/
theorem argmax_append (xs ys : List α) :
    (xs ++ ys).argmax f = better f (xs.argmax f) (ys.argmax f) := by
  induction ys using List.reverseRecOn with
  | nil => rw [List.append_nil, List.argmax_nil, better_none_right]
  | append_singleton ys a ih =>
    calc (xs ++ (ys ++ [a])).argmax f = ((xs ++ ys) ++ [a]).argmax f := by rw [List.append_assoc]
      _ = better f (better f (xs.argmax f) (ys.argmax f)) (some a) := by
        rw [argmax_concat_better, ih]
      _ = better f (xs.argmax f) ((ys ++ [a]).argmax f) := by
        rw [better_assoc, argmax_concat_better]

/-- What is of the highest rank stays the best. -/
theorem better_of_top {a : α} {b : Option α} (htop : ∀ c ∈ b, f c ≤ f a) :
    better f (some a) b = some a := by
  cases b with
  | none => rfl
  | some c => exact if_neg (not_lt.mpr (htop c rfl))

/-- The first element of the highest rank is the best. -/
theorem argmax_of_first {xs ys : List α} {a : α} (hxs : ∀ c ∈ xs, f c < f a)
    (hys : ∀ c ∈ ys, f c ≤ f a) : (xs ++ a :: ys).argmax f = some a := by
  have hright : (a :: ys).argmax f = some a := by
    have happend := @argmax_append _ _ _ f [a] ys
    rw [List.singleton_append, List.argmax_singleton] at happend
    rw [happend]
    exact better_of_top fun c hc => hys c (List.argmax_mem hc)
  rw [argmax_append, hright]
  cases hleft : xs.argmax f with
  | none => rfl
  | some c => exact if_pos (hxs c (List.argmax_mem hleft))

variable [DecidableEq β]

/-- The elements sorted by rank, the ranks as they are listed. -/
def byRank (f : α → β) (ranks : List β) (l : List α) : List α :=
  ranks.flatMap fun rank => l.filter fun a => f a = rank

/-- Sorted from the highest rank on, a list starts with its best element. -/
theorem argmax_eq_head_byRank {ranks : List β} {l : List α} (hranks : ranks.Pairwise (· > ·))
    (hl : ∀ a ∈ l, f a ∈ ranks) : l.argmax f = (byRank f ranks l).head? := by
  induction ranks with
  | nil =>
    cases l with
    | nil => rfl
    | cons a l => exact absurd (hl a List.mem_cons_self) List.not_mem_nil
  | cons rank ranks ih =>
    obtain ⟨hlower, hranks⟩ := List.pairwise_cons.mp hranks
    have hle : ∀ a ∈ l, f a ≤ rank := by
      intro a ha
      rcases List.mem_cons.mp (hl a ha) with heq | hmem
      · exact heq.le
      · exact (hlower _ hmem).le
    show _ = ((l.filter fun a => f a = rank) ++ byRank f ranks l).head?
    rw [List.head?_append, List.head?_filter]
    cases hfind : l.find? fun a => decide (f a = rank) with
    | none =>
      have hnone := List.find?_eq_none.mp hfind
      apply ih hranks
      intro a ha
      exact (List.mem_cons.mp (hl a ha)).resolve_left fun heq => hnone a ha (decide_eq_true heq)
    | some a =>
      obtain ⟨hrank, xs, ys, rfl, hbefore⟩ := List.find?_eq_some_iff_append.mp hfind
      have ha : f a = rank := of_decide_eq_true hrank
      show _ = some a
      apply argmax_of_first
      · intro c hc
        have hne : f c ≠ rank := by simpa using hbefore c hc
        rw [ha]
        exact lt_of_le_of_ne (hle c (List.mem_append_left _ hc)) hne
      · intro c hc
        rw [ha]
        exact hle c (List.mem_append_right _ (List.mem_cons_of_mem _ hc))

end ConvertBinaryC.RankRules
