import Mathlib.Logic.Relation
import Mathlib.Order.WellFounded
import Mathlib.Order.Filter.AtTopBot.Basic

/-! Rules for recursions that descend along a relation between objects: how the relation may grow
and still let every descent end, and that some depth is then enough. -/
namespace DescentRules

open Filter Relation

variable {α : Type} {r r' : α → α → Prop}

theorem not_wellFounded_of_loop {a : α} (h : TransGen r a a) : ¬ WellFounded r :=
  fun hwf => hwf.transGen.irrefl.irrefl a h

/-- Objects get something below them. Descents still end if nothing that they get comes down to
one of them. -/
theorem wellFounded_extend (hwf : WellFounded r) {grown : α → Prop}
    (hsame : ∀ a b, ¬ grown a → r' b a → r b a)
    (hapart : ∀ a b x, grown a → r' b a → grown x → ¬ ReflTransGen r x b) : WellFounded r' := by
  -- from objects that do not come down to a grown one
  have hclean (a : α) (ha : ∀ x, grown x → ¬ ReflTransGen r x a) : Acc r' a := by
    induction a using hwf.induction with
    | h a ih =>
      have hold : ¬ grown a := fun hgrown => ha a hgrown .refl
      apply Acc.intro
      intro b hb
      have hstep : r b a := hsame a b hold hb
      exact ih b hstep fun x hx hreach => ha x hx (hreach.tail hstep)
  apply WellFounded.intro
  intro a
  induction a using hwf.induction with
  | h a ih =>
    apply Acc.intro
    intro b hb
    by_cases hgrown : grown a
    · exact hclean b fun x hx => hapart a b x hgrown hb hx
    · exact ih b (hsame a b hgrown hb)

/-- A step of the depth. -/
theorem eventually_succ {p q : ℕ → Prop} (hp : ∀ᶠ n in atTop, p n) (hstep : ∀ n, p n → q (n + 1)) :
    ∀ᶠ n in atTop, q n := by
  rw [eventually_atTop] at hp ⊢
  obtain ⟨depth, hdepth⟩ := hp
  refine ⟨depth + 1, ?_⟩
  intro n hn
  obtain ⟨m, rfl⟩ : ∃ m, n = m + 1 := ⟨n - 1, by omega⟩
  exact hstep m (hdepth m (by omega))

/-- The elements of a list have a depth that is enough for all of them. -/
theorem eventually_forall_mem {β : Type} {l : List β} {p : β → ℕ → Prop}
    (h : ∀ b ∈ l, ∀ᶠ n in atTop, p b n) : ∀ᶠ n in atTop, ∀ b ∈ l, p b n := by
  induction l with
  | nil => exact Eventually.of_forall fun _ b hb => absurd hb List.not_mem_nil
  | cons b l ih =>
    have hfirst := h b List.mem_cons_self
    have hrest := ih fun c hc => h c (List.mem_cons_of_mem b hc)
    filter_upwards [hfirst, hrest] with n hn hln
    exact List.forall_mem_cons.mpr ⟨hn, hln⟩

end DescentRules
