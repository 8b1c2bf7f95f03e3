import Mathlib.Tactic

/-! Rules for monadic folds that may fail: what holds of the accumulator when
every step keeps it, when two folds stay related, and when a fold cannot fail. -/
namespace FoldRules

variable {ε α β γ δ : Type}

theorem bind_ok {x : Except ε α} {f : α → Except ε β} {b : β} (h : (x >>= f) = .ok b) :
    ∃ a, x = .ok a ∧ f a = .ok b := by
  cases x with
  | error e => exact absurd h (by simp [bind, Except.bind])
  | ok a => exact ⟨a, rfl, h⟩

theorem bind_ok_iff {x : Except ε α} {f : α → Except ε β} {b : β} :
    (x >>= f) = .ok b ↔ ∃ a, x = .ok a ∧ f a = .ok b := by
  constructor
  · exact bind_ok
  · intro h
    have hrun (a : α) (ha : x = .ok a ∧ f a = .ok b) : (x >>= f) = .ok b := ha.1 ▸ ha.2
    exact h.elim hrun

theorem foldlM_nil_ok (f : β → α → Except ε β) (b : β) : [].foldlM f b = .ok b := rfl

theorem foldlM_cons_ok {f : β → α → Except ε β} {a : α} {l : List α} {b b' r : β}
    (hstep : f b a = .ok b') (hrest : l.foldlM f b' = .ok r) : (a :: l).foldlM f b = .ok r := by
  rw [List.foldlM_cons, hstep]
  exact hrest

/-- A property that every successful step keeps holds after a successful fold. -/
theorem foldlM_invariant {f : β → α → Except ε β} (P : β → Prop) (l : List α)
    (step : ∀ a ∈ l, ∀ b b', P b → f b a = .ok b' → P b') {b r : β} (hb : P b)
    (h : l.foldlM f b = .ok r) : P r := by
  induction l generalizing b with
  | nil =>
    rw [foldlM_nil_ok, Except.ok.injEq] at h
    exact h ▸ hb
  | cons a l ih =>
    rw [List.foldlM_cons] at h
    obtain ⟨b', hb', hr⟩ := bind_ok h
    exact ih (fun x hx => step x (List.mem_cons_of_mem _ hx))
      (step a List.mem_cons_self b b' hb hb') hr

/-- Two folds over one list stay related, and neither fails, when each step from
related accumulators succeeds on both sides and relates the results. -/
theorem foldlM_simulation {f : β → α → Except ε β} {g : γ → α → Except ε γ}
    (R : β → γ → Prop) (l : List α)
    (step : ∀ a ∈ l, ∀ b c, R b c → ∃ b' c', f b a = .ok b' ∧ g c a = .ok c' ∧ R b' c')
    {b : β} {c : γ} (hR : R b c) :
    ∃ b' c', l.foldlM f b = .ok b' ∧ l.foldlM g c = .ok c' ∧ R b' c' := by
  induction l generalizing b c with
  | nil => exact ⟨b, c, rfl, rfl, hR⟩
  | cons a l ih =>
    obtain ⟨b1, c1, hf, hg, hR1⟩ := step a List.mem_cons_self b c hR
    obtain ⟨b2, c2, hf2, hg2, hR2⟩ := ih (fun x hx => step x (List.mem_cons_of_mem _ hx)) hR1
    exact ⟨b2, c2, foldlM_cons_ok hf hf2, foldlM_cons_ok hg hg2, hR2⟩

/-- A fold that also maps the list. -/
def mapAccumM (f : β → α → Except ε (β × γ)) : β → List α → Except ε (β × List γ)
  | b, [] => .ok (b, [])
  | b, a :: l => do
    let (b, c) ← f b a
    let (b, cs) ← mapAccumM f b l
    .ok (b, c :: cs)

theorem mapAccumM_cons_ok {f : β → α → Except ε (β × γ)} {a : α} {l : List α} {b b' r : β} {c : γ}
    {cs : List γ} (h : f b a = .ok (b', c)) (h' : mapAccumM f b' l = .ok (r, cs)) :
    mapAccumM f b (a :: l) = .ok (r, c :: cs) := by
  rw [mapAccumM, h]
  show (mapAccumM f b' l >>= _) = _
  rw [h']
  rfl

theorem mapAccumM_append_ok {f : β → α → Except ε (β × γ)} {l l' : List α} {b b' r : β}
    {cs ds : List γ} (h : mapAccumM f b l = .ok (b', cs)) (h' : mapAccumM f b' l' = .ok (r, ds)) :
    mapAccumM f b (l ++ l') = .ok (r, cs ++ ds) := by
  induction l generalizing b cs with
  | nil =>
    cases h
    exact h'
  | cons a l ih =>
    obtain ⟨⟨b₁, c⟩, hb, h⟩ := bind_ok h
    obtain ⟨⟨b₂, cs'⟩, hrest, h⟩ := bind_ok h
    cases h
    exact mapAccumM_cons_ok hb (ih hrest)

theorem mapAccumM_append_inv {f : β → α → Except ε (β × γ)} {l l' : List α} {b r : β}
    {cs : List γ} (h : mapAccumM f b (l ++ l') = .ok (r, cs)) :
    ∃ b' ds ds', mapAccumM f b l = .ok (b', ds) ∧ mapAccumM f b' l' = .ok (r, ds') ∧
      cs = ds ++ ds' := by
  induction l generalizing b cs with
  | nil => exact ⟨b, [], cs, rfl, h, rfl⟩
  | cons a l ih =>
    obtain ⟨⟨b₁, c⟩, hstep, h⟩ := bind_ok h
    obtain ⟨⟨b₂, cs'⟩, hrest, h⟩ := bind_ok h
    cases h
    obtain ⟨b', ds, ds', hds, hds', rfl⟩ := ih hrest
    exact ⟨b', c :: ds, ds', mapAccumM_cons_ok hstep hds, hds', rfl⟩

/-- A condition on every step of a mapping fold, and one on its end. -/
def AlongM (f : β → α → Except ε (β × γ)) (good : β → α → Prop) (last : β → Prop) :
    β → List α → Prop
  | b, [] => last b
  | b, a :: l => good b a ∧ ∀ b' c, f b a = .ok (b', c) → AlongM f good last b' l

/-- What every good step keeps, of the accumulator and of what has been produced so
far, holds at the end of a fold of good steps. -/
theorem mapAccumM_invariant_along {f : β → α → Except ε (β × γ)} {good : β → α → Prop}
    {last : β → Prop} {P : β → List γ → Prop}
    (hstep : ∀ b cs a b' c, P b cs → good b a → f b a = .ok (b', c) → P b' (cs ++ [c]))
    {l : List α} {b r : β} {cs ds : List γ} (hb : P b cs) (hgood : AlongM f good last b l)
    (h : mapAccumM f b l = .ok (r, ds)) : P r (cs ++ ds) ∧ last r := by
  induction l generalizing b cs ds with
  | nil =>
    cases h
    exact ⟨(List.append_nil cs).symm ▸ hb, hgood⟩
  | cons a l ih =>
    obtain ⟨⟨b', c⟩, hb', h⟩ := bind_ok h
    obtain ⟨⟨r', ds'⟩, hrest, h⟩ := bind_ok h
    cases h
    have hnext := ih (hstep b cs a b' c hb hgood.1 hb') (hgood.2 b' c hb') hrest
    rwa [List.append_assoc, List.singleton_append] at hnext

/-- What every step keeps of the accumulator the whole fold keeps. -/
theorem mapAccumM_invariant {f : β → α → Except ε (β × γ)} {I : β → Prop} {l : List α}
    (hstep : ∀ a ∈ l, ∀ b b' c, I b → f b a = .ok (b', c) → I b') {b r : β} {cs : List γ}
    (hI : I b) (h : mapAccumM f b l = .ok (r, cs)) : I r := by
  induction l generalizing b cs with
  | nil =>
    cases h
    exact hI
  | cons a l ih =>
    obtain ⟨⟨b', c⟩, hb', h⟩ := bind_ok h
    obtain ⟨⟨r', cs'⟩, hrest, h⟩ := bind_ok h
    cases h
    exact ih (fun a ha => hstep a (List.mem_cons_of_mem _ ha))
      (hstep a List.mem_cons_self b b' c hI hb') hrest

/-- What relates the accumulators of every step relates those of the whole fold. -/
theorem mapAccumM_rel {f : β → α → Except ε (β × γ)} {R : β → β → Prop} (hrefl : ∀ b, R b b)
    (htrans : ∀ b b' b'', R b b' → R b' b'' → R b b'')
    (hstep : ∀ b a b' c, f b a = .ok (b', c) → R b b') {l : List α} {b r : β} {cs : List γ}
    (h : mapAccumM f b l = .ok (r, cs)) : R b r := by
  induction l generalizing b cs with
  | nil =>
    cases h
    exact hrefl _
  | cons a l ih =>
    obtain ⟨⟨b', c⟩, hb', h⟩ := bind_ok h
    obtain ⟨⟨r', cs'⟩, hrest, h⟩ := bind_ok h
    cases h
    exact htrans _ _ _ (hstep b a b' c hb') (ih hrest)

/-- A fold is also one with other steps if these do the same whenever the end of the fold
allows it. `B` is known at the end and carried back to each step, `I` is carried on. -/
theorem mapAccumM_transfer {f g : β → α → Except ε (β × γ)} {I B : β → Prop} {Q : γ → Prop}
    (hback : ∀ b a b' c, g b a = .ok (b', c) → B b' → B b)
    (hstep : ∀ b a b' c, I b → g b a = .ok (b', c) → B b' → Q c →
      f b a = .ok (b', c) ∧ I b')
    {l : List α} {b r : β} {cs : List γ} (hI : I b) (h : mapAccumM g b l = .ok (r, cs))
    (hB : B r) (hQ : ∀ c ∈ cs, Q c) : mapAccumM f b l = .ok (r, cs) ∧ I r := by
  induction l generalizing b cs with
  | nil =>
    cases h
    exact ⟨rfl, hI⟩
  | cons a l ih =>
    obtain ⟨⟨b', c⟩, hb', h⟩ := bind_ok h
    obtain ⟨⟨r', cs'⟩, hrest, h⟩ := bind_ok h
    cases h
    -- the steps behind this one carry `B` back to it
    have hmid : B b' := by
      have hcarry := @mapAccumM_rel ε α β γ g (fun b b' => B b' → B b) (fun _ => id)
        (fun _ _ _ h h' hB => h (h' hB)) hback l b' _ _ hrest
      exact hcarry hB
    obtain ⟨hfirst, hI'⟩ := hstep b a b' c hI hb' hmid (hQ c List.mem_cons_self)
    obtain ⟨hall, hend⟩ := ih hI' hrest fun d hd => hQ d (List.mem_cons_of_mem _ hd)
    exact ⟨mapAccumM_cons_ok hfirst hall, hend⟩

/-- Two folds that produce the same show how a third one goes. `B` is known at their ends and
carried back through both, `I` is carried on. -/
theorem mapAccumM_track {f k : β → α → Except ε (β × γ)} {g : δ → α → Except ε (δ × γ)}
    {I B : β → δ → Prop} {Q : γ → Prop}
    (hback : ∀ b e a b' e' c c', f b a = .ok (b', c) → g e a = .ok (e', c') → B b' e' → B b e)
    (hstep : ∀ b e a b' e' c, I b e → f b a = .ok (b', c) → g e a = .ok (e', c) → B b' e' → Q c →
      k b a = .ok (b', c) ∧ I b' e')
    {l : List α} {b r : β} {e q : δ} {cs : List γ} (hI : I b e)
    (hf : mapAccumM f b l = .ok (r, cs)) (hg : mapAccumM g e l = .ok (q, cs)) (hB : B r q)
    (hQ : ∀ c ∈ cs, Q c) : mapAccumM k b l = .ok (r, cs) ∧ I r q := by
  have hcarry (l : List α) : ∀ b e cs cs', mapAccumM f b l = .ok (r, cs) →
      mapAccumM g e l = .ok (q, cs') → B b e := by
    induction l with
    | nil =>
      intro b e cs cs' hf hg
      cases hf
      cases hg
      exact hB
    | cons a l ih =>
      intro b e cs cs' hf hg
      obtain ⟨⟨b', c⟩, hb', hf⟩ := bind_ok hf
      obtain ⟨⟨r', ds⟩, hrest, hf⟩ := bind_ok hf
      cases hf
      obtain ⟨⟨e', c'⟩, he', hg⟩ := bind_ok hg
      obtain ⟨⟨q', ds'⟩, hrest', hg⟩ := bind_ok hg
      cases hg
      exact hback b e a b' e' c c' hb' he' (ih b' e' ds ds' hrest hrest')
  induction l generalizing b e cs with
  | nil =>
    cases hf
    cases hg
    exact ⟨rfl, hI⟩
  | cons a l ih =>
    obtain ⟨⟨b', c⟩, hb', hf⟩ := bind_ok hf
    obtain ⟨⟨r', ds⟩, hrest, hf⟩ := bind_ok hf
    cases hf
    obtain ⟨⟨e', c'⟩, he', hg⟩ := bind_ok hg
    obtain ⟨⟨q', ds'⟩, hrest', hg⟩ := bind_ok hg
    cases hg
    obtain ⟨hfirst, hI'⟩ := hstep b e a b' e' c hI hb' he' (hcarry l b' e' ds ds hrest hrest')
      (hQ c List.mem_cons_self)
    obtain ⟨hall, hend⟩ := ih hI' hrest hrest' fun d hd => hQ d (List.mem_cons_of_mem _ hd)
    exact ⟨mapAccumM_cons_ok hfirst hall, hend⟩

theorem foldlM_rel {f : β → α → Except ε β} {R : β → β → Prop} (hrefl : ∀ b, R b b)
    (htrans : ∀ b b' b'', R b b' → R b' b'' → R b b'') (hstep : ∀ b a b', f b a = .ok b' → R b b')
    {l : List α} {b r : β} (h : l.foldlM f b = .ok r) : R b r :=
  foldlM_invariant (fun b' => R b b') l
    (fun a _ b' b'' hb h => htrans _ _ _ hb (hstep b' a b'' h)) (hrefl b) h

/-- Two computations both fail, or both succeed with related results. -/
def Related (R : α → β → Prop) : Except ε α → Except ε β → Prop
  | .ok a, .ok b => R a b
  | .error _, .error _ => True
  | _, _ => False

theorem Related.mono {R S : α → β → Prop} {x : Except ε α} {y : Except ε β}
    (h : Related R x y) (hRS : ∀ a b, R a b → S a b) : Related S x y := by
  cases x <;> cases y
  · trivial
  · exact h
  · exact h
  · exact hRS _ _ h

theorem Related.refl {R : α → α → Prop} (hR : ∀ a, R a a) (x : Except ε α) : Related R x x := by
  cases x
  · trivial
  · exact hR _

theorem Related.bind {R : α → β → Prop} {S : γ → δ → Prop} {x : Except ε α} {y : Except ε β}
    {f : α → Except ε γ} {g : β → Except ε δ} (h : Related R x y)
    (hfg : ∀ a b, R a b → Related S (f a) (g b)) : Related S (x >>= f) (y >>= g) := by
  cases x <;> cases y
  · trivial
  · exact h.elim
  · exact h.elim
  · exact hfg _ _ h

/-- Related results are results. -/
theorem Related.with_ok {R : α → β → Prop} {x : Except ε α} {y : Except ε β}
    (h : Related R x y) : Related (fun a b => R a b ∧ x = .ok a ∧ y = .ok b) x y := by
  cases x <;> cases y
  · trivial
  · exact h
  · exact h
  · exact ⟨h, rfl, rfl⟩

theorem Related.ok_left {R : α → β → Prop} {a : α} {y : Except ε β} (h : Related R (.ok a) y) :
    ∃ b, y = .ok b ∧ R a b := by
  cases y with
  | error e => exact h.elim
  | ok b => exact ⟨b, rfl, h⟩

theorem Related.ok_iff {R : α → β → Prop} {x : Except ε α} {y : Except ε β}
    (h : Related R x y) : (∃ a, x = .ok a) ↔ ∃ b, y = .ok b := by
  cases x <;> cases y
  · simp
  · exact h.elim
  · exact h.elim
  · simp

theorem Related.of_ok_iff {R : α → β → Prop} {x : Except ε α} {y : Except ε β}
    (hiff : (∃ a, x = .ok a) ↔ ∃ b, y = .ok b) (h : ∀ a b, x = .ok a → y = .ok b → R a b) :
    Related R x y := by
  cases x <;> cases y
  · trivial
  · simp at hiff
  · simp at hiff
  · exact h _ _ rfl rfl

/-- Results on which functions that agree on related values differ are not related. -/
theorem not_related {R : α → β → Prop} {x : Except ε α} {y : Except ε β} {f : α → γ}
    {g : β → γ} (hfg : ∀ a b, R a b → f a = g b)
    (hne : x.toOption.map f ≠ y.toOption.map g) : ¬Related R x y := by
  cases x <;> cases y
  · exact fun _ => hne rfl
  · exact id
  · exact id
  · exact fun h => hne (congrArg some (hfg _ _ h))

/-- A mapping succeeds if and only if it does on every element. -/
theorem mapM_ok_iff {f : α → Except ε β} (l : List α) :
    (∃ bs, l.mapM f = .ok bs) ↔ ∀ a ∈ l, ∃ b, f a = .ok b := by
  induction l with
  | nil => exact ⟨fun _ a ha => absurd ha List.not_mem_nil, fun _ => ⟨[], rfl⟩⟩
  | cons a l ih =>
    rw [List.mapM_cons]
    constructor
    · rintro ⟨bs, h⟩ x hx
      obtain ⟨b, hb, h⟩ := bind_ok h
      obtain ⟨cs, hcs, -⟩ := bind_ok h
      rcases List.mem_cons.mp hx with rfl | hx
      · exact ⟨b, hb⟩
      · exact ih.mp ⟨cs, hcs⟩ x hx
    · intro h
      obtain ⟨b, hb⟩ := h a List.mem_cons_self
      obtain ⟨cs, hcs⟩ := ih.mpr fun x hx => h x (List.mem_cons_of_mem _ hx)
      exact ⟨b :: cs, by rw [hb, hcs]; rfl⟩

/-- Two mapping folds produce the same list from related accumulators. The relation
may depend on the rest of the list. -/
theorem Related.mapAccumM {f : β → α → Except ε (β × δ)} {g : γ → α → Except ε (γ × δ)}
    (R : List α → β → γ → Prop)
    (hstep : ∀ a l b c, R (a :: l) b c →
      Related (fun p q => p.2 = q.2 ∧ R l p.1 q.1) (f b a) (g c a))
    (l : List α) {b : β} {c : γ} (h : R l b c) :
    Related (fun p q => p.2 = q.2 ∧ R [] p.1 q.1) (mapAccumM f b l) (mapAccumM g c l) := by
  induction l generalizing b c with
  | nil => exact ⟨rfl, h⟩
  | cons a l ih =>
    apply (hstep a l b c h).bind
    rintro ⟨b', d⟩ ⟨c', d'⟩ ⟨hd, hR⟩
    apply (ih hR).bind
    rintro ⟨b'', ds⟩ ⟨c'', ds'⟩ ⟨hds, hR'⟩
    exact ⟨congrArg₂ List.cons hd hds, hR'⟩

/-- Two mapping folds over related lists, in step. What the steps produce satisfies `M` as
a whole if and only if every step of the first fold is good. -/
theorem related_along {α' β' γ' : Type} {f : β → α → Except ε (β × γ)}
    {g : β' → α' → Except ε (β' × γ')} {good : β → α → Prop} {R : β → β' → Prop}
    {A : α → α' → Prop} {C M : γ → γ' → Prop}
    (hstep : ∀ a a' b b', A a a' → R b b' → Related
      (fun p q => R p.1 q.1 ∧ C p.2 q.2 ∧ (M p.2 q.2 ↔ good b a)) (f b a) (g b' a'))
    {l : List α} {l' : List α'} (hl : List.Forall₂ A l l') {b : β} {b' : β'} (h : R b b') :
    Related (fun p q => R p.1 q.1 ∧ List.Forall₂ C p.2 q.2 ∧
        (List.Forall₂ M p.2 q.2 ↔ AlongM f good (fun _ => True) b l))
      (mapAccumM f b l) (mapAccumM g b' l') := by
  induction hl generalizing b b' with
  | nil => exact ⟨h, .nil, iff_of_true .nil trivial⟩
  | @cons a a' l l' ha _ ih =>
    apply (hstep a a' b b' ha h).with_ok.bind
    rintro ⟨b₁, c⟩ ⟨b₁', c'⟩ ⟨⟨hR, hC, hM⟩, hf, -⟩
    apply (ih hR).bind
    rintro ⟨b₂, cs⟩ ⟨b₂', cs'⟩ ⟨hR', hCs, hMs⟩
    refine ⟨hR', .cons hC hCs, ?_⟩
    have hrest : (∀ b'' c'', f b a = .ok (b'', c'') → AlongM f good (fun _ => True) b'' l) ↔
        AlongM f good (fun _ => True) b₁ l := by
      constructor
      · exact fun hall => hall b₁ c hf
      · intro hall b'' c'' hf'
        have heq : b₁ = b'' := congrArg Prod.fst (Except.ok.inj (hf.symm.trans hf'))
        exact heq ▸ hall
    calc List.Forall₂ M (c :: cs) (c' :: cs')
        ↔ M c c' ∧ List.Forall₂ M cs cs' := List.forall₂_cons
      _ ↔ good b a ∧ AlongM f good (fun _ => True) b₁ l := and_congr hM hMs
      _ ↔ AlongM f good (fun _ => True) b (a :: l) := and_congr_right fun _ => hrest.symm

end FoldRules
