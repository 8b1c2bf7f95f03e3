import ConvertBinaryC.FoldRules
import ConvertBinaryC.StateRules

/-! Rules for two computations of which the second does on mapped states what the first one does on
the states themselves: it returns or fails with the same, and with the mapped state. Without a state
the result may be mapped. -/
namespace CarryRules
open StateRules

variable {ε σ α β γ : Type}

def carry (r : σ → σ) : EStateM.Result ε σ α → EStateM.Result ε σ α
  | .ok a s => .ok a (r s)
  | .error e s => .error e (r s)

def Carries (r : σ → σ) (m m' : EStateM ε σ α) : Prop := ∀ s, m' (r s) = carry r (m s)

variable {r : σ → σ} {m m' : EStateM ε σ α}

theorem carries_pure (a : α) : Carries r (pure a : EStateM ε σ α) (pure a) := fun _ => rfl

theorem carries_throw (e : ε) : Carries r (throw e : EStateM ε σ α) (throw e) := fun _ => rfl

theorem carries_modify {g g' : σ → σ} (h : ∀ s, g' (r s) = r (g s)) :
    Carries r (modify g : EStateM ε σ PUnit) (modify g') := by
  intro s
  exact congrArg (EStateM.Result.ok PUnit.unit) (h s)

theorem carries_set {s s' : σ} (h : s' = r s) : Carries r (set s : EStateM ε σ PUnit) (set s') := by
  intro _
  exact congrArg (EStateM.Result.ok PUnit.unit) h

theorem carries_get_bind {f f' : σ → EStateM ε σ α} (h : ∀ s, Carries r (f s) (f' (r s))) :
    Carries r (get >>= f) (get >>= f') := fun s => h s s

theorem Carries.bind {f f' : α → EStateM ε σ β} (hm : Carries r m m')
    (hf : ∀ a, Carries r (f a) (f' a)) : Carries r (m >>= f) (m' >>= f') := by
  intro s
  have hs := hm s
  cases hrun : m s with
  | ok a t =>
    rw [hrun] at hs
    rw [bind_of_ok hrun, bind_of_ok hs]
    exact hf a t
  | error e t =>
    rw [hrun] at hs
    rw [bind_of_error hrun, bind_of_error hs]
    rfl

theorem carries_ite {c : Prop} [Decidable c] {n n' : EStateM ε σ α} (hm : Carries r m m')
    (hn : Carries r n n') : Carries r (if c then m else n) (if c then m' else n') := by
  split_ifs
  · exact hm
  · exact hn

/-- A loop over mapped elements. -/
theorem carries_foldlM {g : β → β} {f f' : α → β → EStateM ε σ α} {l : List β}
    (h : ∀ a, ∀ b ∈ l, Carries r (f a b) (f' a (g b))) (a : α) :
    Carries r (l.foldlM f a) ((l.map g).foldlM f' a) := by
  induction l generalizing a with
  | nil => exact carries_pure a
  | cons b l ih =>
    rw [List.map_cons, List.foldlM_cons, List.foldlM_cons]
    apply (h a b List.mem_cons_self).bind
    intro a'
    exact ih (fun a b hb => h a b (List.mem_cons_of_mem _ hb)) a'

theorem carries_forM {g : β → β} {f f' : β → EStateM ε σ PUnit} {l : List β}
    (h : ∀ b ∈ l, Carries r (f b) (f' (g b))) : Carries r (l.forM f) ((l.map g).forM f') := by
  induction l with
  | nil => exact carries_pure PUnit.unit
  | cons b l ih =>
    show Carries r (f b >>= fun _ => l.forM f) (f' (g b) >>= fun _ => (l.map g).forM f')
    apply (h b List.mem_cons_self).bind
    intro _
    exact ih fun b hb => h b (List.mem_cons_of_mem _ hb)

theorem carries_mapM {f f' : γ → EStateM ε σ β} {l : List γ} (h : ∀ c ∈ l, Carries r (f c) (f' c)) :
    Carries r (l.mapM f) (l.mapM f') := by
  induction l with
  | nil => exact carries_pure []
  | cons c l ih =>
    rw [List.mapM_cons, List.mapM_cons]
    apply (h c List.mem_cons_self).bind
    intro b
    apply (ih fun c hc => h c (List.mem_cons_of_mem _ hc)).bind
    intro bs
    exact carries_pure (b :: bs)

section Maps
variable {δ : Type}

/-- Both fail with the same, or the second result is mapped from the first one, of which `P` holds. -/
structure Maps (g : α → β) (P : α → Prop) (c : Except ε α) (c' : Except ε β) : Prop where
  eq : c' = c.map g
  holds : ∀ a, c = .ok a → P a

variable {g : α → β} {P : α → Prop} {c : Except ε α} {c' : Except ε β}

theorem maps_error (e : ε) : Maps g P (.error e) (.error e) where
  eq := rfl
  holds a h := by cases h

theorem maps_ok {a : α} (h : P a) : Maps g P (.ok a : Except ε α) (.ok (g a)) where
  eq := rfl
  holds b hb := by
    cases hb
    exact h

theorem Maps.bind {h : γ → δ} {Q : γ → Prop} {f : α → Except ε γ} {f' : β → Except ε δ}
    (hc : Maps g P c c') (hf : ∀ a, P a → Maps h Q (f a) (f' (g a))) :
    Maps h Q (c >>= f) (c' >>= f') := by
  obtain ⟨rfl, hholds⟩ := hc
  cases c with
  | error e => exact maps_error e
  | ok a => exact hf a (hholds a rfl)

theorem maps_bind_self {h : γ → δ} {Q : γ → Prop} {f : α → Except ε γ} {f' : α → Except ε δ}
    (hf : ∀ a, Maps h Q (f a) (f' a)) : Maps h Q (c >>= f) (c >>= f') := by
  cases c with
  | error e => exact maps_error e
  | ok a => exact hf a

theorem maps_ite {q : Prop} [Decidable q] {d : Except ε α} {d' : Except ε β} (hc : Maps g P c c')
    (hd : Maps g P d d') : Maps g P (if q then c else d) (if q then c' else d') := by
  split_ifs
  · exact hc
  · exact hd

theorem Maps.bind_eq {f : α → Except ε γ} {f' : β → Except ε γ} (hc : Maps g P c c')
    (hf : ∀ a, P a → f' (g a) = f a) : (c' >>= f') = (c >>= f) := by
  obtain ⟨rfl, hholds⟩ := hc
  cases c with
  | error e => rfl
  | ok a => exact hf a (hholds a rfl)

/-- Without a state a loop over mapped elements may be the same loop. -/
theorem foldlM_map_eq {f : β → α → Except ε β} {f' : β → γ → Except ε β} {k : α → γ} {l : List α}
    (h : ∀ b, ∀ a ∈ l, f' b (k a) = f b a) (b : β) : (l.map k).foldlM f' b = l.foldlM f b := by
  induction l generalizing b with
  | nil => rfl
  | cons a l ih =>
    rw [List.map_cons, List.foldlM_cons, List.foldlM_cons, h b a List.mem_cons_self]
    congr 1
    funext b'
    exact ih (fun b a ha => h b a (List.mem_cons_of_mem _ ha)) b'

end Maps

section Alike
variable {δ : Type}

/-- Both fail with the same, or both return, with related results. -/
inductive Alike (R : α → β → Prop) : Except ε α → Except ε β → Prop
  | error (e : ε) : Alike R (.error e) (.error e)
  | ok {a : α} {b : β} (h : R a b) : Alike R (.ok a) (.ok b)

variable {R : α → β → Prop} {S : γ → δ → Prop} {c : Except ε α} {c' : Except ε β}

theorem Alike.bind {f : α → Except ε γ} {f' : β → Except ε δ} (hc : Alike R c c')
    (hf : ∀ a b, R a b → Alike S (f a) (f' b)) : Alike S (c >>= f) (c' >>= f') := by
  cases hc with
  | error e => exact .error e
  | ok h => exact hf _ _ h

/-- What follows has to agree up to `g` only. -/
theorem Alike.bind_map {g : γ → δ} {f : α → Except ε γ} {f' : β → Except ε δ} (hc : Alike R c c')
    (hf : ∀ a b, R a b → f' b = (f a).map g) : c' >>= f' = (c >>= f).map g := by
  cases hc with
  | error e => rfl
  | ok h => exact hf _ _ h

theorem Alike.bind_eq {f : α → Except ε γ} {f' : β → Except ε γ} (hc : Alike R c c')
    (hf : ∀ a b, R a b → f' b = f a) : c' >>= f' = c >>= f := by
  have hbind : c' >>= f' = (c >>= f).map id := by
    apply hc.bind_map
    intro a b hab
    rw [hf a b hab, Except.map_id, id_eq]
  rw [hbind, Except.map_id, id_eq]

theorem alike_bind_self {f : α → Except ε γ} {f' : α → Except ε δ} (hf : ∀ a, Alike S (f a) (f' a)) :
    Alike S (c >>= f) (c >>= f') := by
  cases c with
  | error e => exact .error e
  | ok a => exact hf a

theorem alike_ite {q : Prop} [Decidable q] {d : Except ε α} {d' : Except ε β} (hc : Alike R c c')
    (hd : Alike R d d') : Alike R (if q then c else d) (if q then c' else d') := by
  split_ifs
  · exact hc
  · exact hd

theorem alike_foldlM {f : α → γ → Except ε α} {f' : β → δ → Except ε β} {k : γ → δ} {l : List γ}
    (h : ∀ a b, ∀ x ∈ l, R a b → Alike R (f a x) (f' b (k x))) {a : α} {b : β} (hab : R a b) :
    Alike R (l.foldlM f a) ((l.map k).foldlM f' b) := by
  induction l generalizing a b with
  | nil => exact .ok hab
  | cons x l ih =>
    rw [List.map_cons, List.foldlM_cons, List.foldlM_cons]
    apply (h a b x List.mem_cons_self hab).bind
    intro a' b' hab'
    exact ih (fun a b y hy => h a b y (List.mem_cons_of_mem _ hy)) hab'

/-- The elements and what is made of them are mapped, by `k` and by `g`. -/
theorem alike_mapAccumM {γ' δ' : Type} {f : α → γ → Except ε (α × γ')} {f' : β → δ → Except ε (β × δ')}
    {k : γ → δ} {g : γ' → δ'} {Q : γ' → Prop} {l : List γ}
    (h : ∀ a b, ∀ x ∈ l, R a b →
      Alike (fun p q => R p.1 q.1 ∧ q.2 = g p.2 ∧ Q p.2) (f a x) (f' b (k x)))
    {a : α} {b : β} (hab : R a b) :
    Alike (fun p q => R p.1 q.1 ∧ q.2 = p.2.map g ∧ ∀ y ∈ p.2, Q y) (FoldRules.mapAccumM f a l)
      (FoldRules.mapAccumM f' b (l.map k)) := by
  induction l generalizing a b with
  | nil => exact .ok ⟨hab, rfl, fun y hy => absurd hy List.not_mem_nil⟩
  | cons x l ih =>
    apply (h a b x List.mem_cons_self hab).bind
    rintro ⟨a', y⟩ ⟨b', y'⟩ ⟨hR, hy, hQ⟩
    apply (ih (fun a b z hz => h a b z (List.mem_cons_of_mem _ hz)) hR).bind
    rintro ⟨a'', ys⟩ ⟨b'', ys'⟩ ⟨hR', hys, hQs⟩
    exact .ok ⟨hR', congrArg₂ List.cons hy hys, List.forall_mem_cons.mpr ⟨hQ, hQs⟩⟩

end Alike
end CarryRules
