import Mathlib.Tactic

/-! Rules for computations over a state that survives a failure. An effect says what
a computation may do to the state when it returns and when it fails; it is closed
under sequencing, so a computation has an effect as soon as its steps have it. -/
namespace StateRules

variable {ε σ α β : Type}

structure Effect (ε σ : Type) where
  returns : σ → σ → Prop
  fails : σ → ε → σ → Prop
  refl : ∀ s, returns s s
  trans : ∀ {s t u}, returns s t → returns t u → returns s u
  absorb : ∀ {s t e u}, returns s t → fails t e u → fails s e u

namespace Effect
variable (E : Effect ε σ)

/-- The run of `m` from `s` has the effect. -/
def At (m : EStateM ε σ α) (s : σ) : Prop :=
  match m s with
  | .ok _ t => E.returns s t
  | .error e t => E.fails s e t

/-- Every run of `m` has the effect. -/
def Holds (m : EStateM ε σ α) : Prop := ∀ s, E.At m s

variable {E}

theorem At.returns {m : EStateM ε σ α} {s t : σ} {a : α} (h : E.At m s) (hm : m s = .ok a t) :
    E.returns s t := by
  unfold At at h
  rwa [hm] at h

theorem At.fails {m : EStateM ε σ α} {s t : σ} {e : ε} (h : E.At m s) (hm : m s = .error e t) :
    E.fails s e t := by
  unfold At at h
  rwa [hm] at h

end Effect

theorem bind_of_ok {m : EStateM ε σ α} {f : α → EStateM ε σ β} {s t : σ} {a : α}
    (h : m s = .ok a t) : (m >>= f) s = f a t := by
  show EStateM.bind m f s = _
  rw [EStateM.bind, h]

theorem bind_of_error {m : EStateM ε σ α} {f : α → EStateM ε σ β} {s t : σ} {e : ε}
    (h : m s = .error e t) : (m >>= f) s = .error e t := by
  show EStateM.bind m f s = _
  rw [EStateM.bind, h]

/-- A sequence that returns went through a state between its two parts. -/
theorem bind_ok {m : EStateM ε σ α} {f : α → EStateM ε σ β} {s u : σ} {b : β}
    (h : (m >>= f) s = .ok b u) : ∃ a t, m s = .ok a t ∧ f a t = .ok b u := by
  cases hm : m s with
  | ok a t => exact ⟨a, t, rfl, (bind_of_ok hm).symm.trans h⟩
  | error e t =>
    rw [bind_of_error hm] at h
    exact nomatch h

namespace Effect
variable {E : Effect ε σ}

theorem At.bind {m : EStateM ε σ α} {f : α → EStateM ε σ β} {s : σ} (hm : E.At m s)
    (hf : ∀ a t, m s = .ok a t → E.At (f a) t) : E.At (m >>= f) s := by
  cases h : m s with
  | ok a t =>
    have hst := hm.returns h
    have hft := hf a t h
    unfold At at hft ⊢
    rw [bind_of_ok h]
    cases hu : f a t with
    | ok b u =>
      rw [hu] at hft
      exact E.trans hst hft
    | error e u =>
      rw [hu] at hft
      exact E.absorb hst hft
  | error e t =>
    have hst := hm.fails h
    unfold At
    rwa [bind_of_error h]

theorem At.get_bind {f : σ → EStateM ε σ α} {s : σ} (h : E.At (f s) s) : E.At (get >>= f) s := h

theorem At.set {s t : σ} (h : E.returns s t) : E.At (set t : EStateM ε σ PUnit) s := h

theorem At.modify {f : σ → σ} {s : σ} (h : E.returns s (f s)) :
    E.At (modify f : EStateM ε σ PUnit) s := h

theorem At.throw {s : σ} {e : ε} (h : E.fails s e s) : E.At (throw e : EStateM ε σ α) s := h

theorem Holds.bind {m : EStateM ε σ α} {f : α → EStateM ε σ β} (hm : E.Holds m)
    (hf : ∀ a, E.Holds (f a)) : E.Holds (m >>= f) :=
  fun s => (hm s).bind fun a t _ => hf a t

theorem holds_pure (a : α) : E.Holds (pure a : EStateM ε σ α) := fun s => E.refl s

theorem holds_get : E.Holds (get : EStateM ε σ σ) := fun s => E.refl s

theorem Holds.forM {l : List α} {f : α → EStateM ε σ PUnit} (hf : ∀ a ∈ l, E.Holds (f a)) :
    E.Holds (l.forM f) := by
  induction l with
  | nil => exact holds_pure _
  | cons a l ih =>
    show E.Holds (f a >>= fun _ => l.forM f)
    apply (hf a List.mem_cons_self).bind
    intro _
    exact ih fun b hb => hf b (List.mem_cons_of_mem a hb)

theorem Holds.mapM {l : List α} {f : α → EStateM ε σ β} (hf : ∀ a ∈ l, E.Holds (f a)) :
    E.Holds (l.mapM f) := by
  induction l with
  | nil => exact holds_pure _
  | cons a l ih =>
    rw [List.mapM_cons]
    apply (hf a List.mem_cons_self).bind
    intro b
    apply (ih fun c hc => hf c (List.mem_cons_of_mem a hc)).bind
    intro bs
    exact holds_pure _

theorem Holds.foldlM {l : List α} {f : β → α → EStateM ε σ β}
    (hf : ∀ a ∈ l, ∀ b, E.Holds (f b a)) (b : β) : E.Holds (l.foldlM f b) := by
  induction l generalizing b with
  | nil => exact holds_pure _
  | cons a l ih =>
    rw [List.foldlM_cons]
    apply (hf a List.mem_cons_self b).bind
    intro b'
    exact ih (fun c hc => hf c (List.mem_cons_of_mem a hc)) b'

/-! A run with the effect that is known to return. -/
section Yields
variable {γ δ : Type} (E : Effect ε σ)

/-- The run of `m` from `s` returns `a`, with the effect. -/
def Yields (m : EStateM ε σ α) (s : σ) (a : α) : Prop := ∃ t, m s = .ok a t ∧ E.returns s t

variable {E}

theorem yields_pure (a : α) (s : σ) : E.Yields (pure a) s a := ⟨s, rfl, E.refl s⟩

theorem Yields.bind {m : EStateM ε σ α} {f : α → EStateM ε σ β} {s : σ} {a : α} {b : β}
    (hm : E.Yields m s a) (hf : ∀ t, E.returns s t → E.Yields (f a) t b) :
    E.Yields (m >>= f) s b := by
  obtain ⟨t, hmt, hst⟩ := hm
  obtain ⟨u, hfu, htu⟩ := hf t hst
  exact ⟨u, (bind_of_ok hmt).trans hfu, E.trans hst htu⟩

theorem Yields.step {m : EStateM ε σ α} {f : α → EStateM ε σ β} {s t : σ} {a : α} {b : β}
    (hm : m s = .ok a t) (hst : E.returns s t) (hf : E.Yields (f a) t b) : E.Yields (m >>= f) s b := by
  obtain ⟨u, hfu, htu⟩ := hf
  exact ⟨u, (bind_of_ok hm).trans hfu, E.trans hst htu⟩

/-- A list of computations that return, for results that are computed without the state. -/
theorem Yields.mapM {l : List α} {value : α → Option γ} {result : γ → β} {f : α → EStateM ε σ β}
    {cs : List γ} {s : σ} (hcs : l.mapM value = some cs)
    (hf : ∀ a ∈ l, ∀ c ∈ cs, value a = some c → ∀ t, E.returns s t → E.Yields (f a) t (result c)) :
    E.Yields (l.mapM f) s (cs.map result) := by
  induction l generalizing cs s with
  | nil =>
    rw [List.mapM_nil] at hcs
    cases hcs
    exact yields_pure [] s
  | cons a l ih =>
    rw [List.mapM_cons] at hcs
    obtain ⟨c, hc, hcs⟩ := Option.bind_eq_some_iff.mp hcs
    obtain ⟨cs', hcs', hcs⟩ := Option.bind_eq_some_iff.mp hcs
    cases hcs
    rw [List.mapM_cons, List.map_cons]
    apply (hf a List.mem_cons_self c List.mem_cons_self hc s (E.refl s)).bind
    intro t hst
    have htail : E.Yields (l.mapM f) t (cs'.map result) := by
      apply ih hcs'
      intro a' ha' c' hc' hvalue u htu
      exact hf a' (List.mem_cons_of_mem a ha') c' (List.mem_cons_of_mem c hc') hvalue u
        (E.trans hst htu)
    apply htail.bind
    intro u _
    exact yields_pure _ u

theorem Yields.mapM_map {l : List α} {g : α → β} {f : α → EStateM ε σ β} {s : σ}
    (hf : ∀ a ∈ l, ∀ t, E.returns s t → E.Yields (f a) t (g a)) : E.Yields (l.mapM f) s (l.map g) := by
  have hcs : l.mapM some = some l := by
    have hpure := List.mapM_pure (m := Option) (l := l) (f := id)
    rwa [List.map_id] at hpure
  apply Yields.mapM hcs
  intro a ha c _ hc t ht
  cases hc
  exact hf a ha t ht

/-- The same for a fold, where `Q` says what has to hold of the results and of all that came
before them. -/
theorem Yields.foldlM {l : List δ} {step : γ → δ → Option γ} {value : γ → β}
    {f : β → δ → EStateM ε σ β} {Q : γ → Prop} {c c' : γ} {s : σ}
    (hQ : ∀ x ∈ l, ∀ c c', step c x = some c' → Q c' → Q c)
    (hf : ∀ x ∈ l, ∀ c c', step c x = some c' → Q c' →
      ∀ t, E.returns s t → E.Yields (f (value c) x) t (value c'))
    (hc : l.foldlM step c = some c') (hc' : Q c') :
    Q c ∧ E.Yields (l.foldlM f (value c)) s (value c') := by
  induction l generalizing c s with
  | nil =>
    cases hc
    exact ⟨hc', yields_pure _ s⟩
  | cons x l ih =>
    rw [List.foldlM_cons] at hc
    obtain ⟨d, hd, hc⟩ := Option.bind_eq_some_iff.mp hc
    have htail := ih (c := d) (fun y hy => hQ y (List.mem_cons_of_mem x hy)) (s := s)
      (fun y hy => hf y (List.mem_cons_of_mem x hy)) hc
    have hd' := htail.1
    refine ⟨hQ x List.mem_cons_self c d hd hd', ?_⟩
    rw [List.foldlM_cons]
    apply (hf x List.mem_cons_self c d hd hd' s (E.refl s)).bind
    intro t hst
    -- the rest runs from the state that the first step leaves
    apply And.right
    apply ih (fun y hy => hQ y (List.mem_cons_of_mem x hy)) _ hc
    intro y hy e e' he he' u htu
    exact hf y (List.mem_cons_of_mem x hy) e e' he he' u (E.trans hst htu)

end Yields

end Effect

/-- As many results as elements. -/
theorem mapM_length {l : List α} {f : α → EStateM ε σ β} {s t : σ} {bs : List β}
    (h : l.mapM f s = .ok bs t) : bs.length = l.length := by
  induction l generalizing s bs with
  | nil =>
    cases h
    rfl
  | cons a l ih =>
    rw [List.mapM_cons] at h
    obtain ⟨b, u, _, h⟩ := bind_ok h
    obtain ⟨cs, v, hcs, h⟩ := bind_ok h
    cases h
    rw [List.length_cons, List.length_cons, ih hcs]

/-- A failure of some kind leaves the state as it was. -/
def AtomicAt (k : ε → Prop) (m : EStateM ε σ α) (s : σ) : Prop :=
  ∀ e t, m s = .error e t → k e → t = s

/-- There is no failure of some kind. -/
def Quiet (k : ε → Prop) (m : EStateM ε σ α) : Prop :=
  ∀ s e t, m s = .error e t → ¬ k e

section Atomic
variable {k : ε → Prop}

theorem Quiet.atomicAt {m : EStateM ε σ α} (h : Quiet k m) (s : σ) : AtomicAt k m s :=
  fun e t hm he => absurd he (h s e t hm)

theorem quiet_pure (a : α) : Quiet k (pure a : EStateM ε σ α) := fun _ _ _ h => nomatch h

theorem quiet_get : Quiet k (get : EStateM ε σ σ) := fun _ _ _ h => nomatch h

theorem quiet_set (s : σ) : Quiet k (set s : EStateM ε σ PUnit) := fun _ _ _ h => nomatch h

theorem quiet_modify (f : σ → σ) : Quiet k (modify f : EStateM ε σ PUnit) :=
  fun _ _ _ h => nomatch h

theorem Quiet.bind {m : EStateM ε σ α} {f : α → EStateM ε σ β} (hm : Quiet k m)
    (hf : ∀ a, Quiet k (f a)) : Quiet k (m >>= f) := by
  intro s e u h
  cases hs : m s with
  | ok a t =>
    rw [bind_of_ok hs] at h
    exact hf a t e u h
  | error e' t =>
    rw [bind_of_error hs] at h
    cases h
    exact hm s _ _ hs

theorem Quiet.forM {l : List α} {f : α → EStateM ε σ PUnit} (hf : ∀ a ∈ l, Quiet k (f a)) :
    Quiet k (l.forM f) := by
  induction l with
  | nil => exact quiet_pure _
  | cons a l ih =>
    have hrest := ih fun b hb => hf b (List.mem_cons_of_mem a hb)
    exact (hf a List.mem_cons_self).bind fun _ => hrest

/-- A failure at once. -/
theorem atomicAt_throw (e : ε) (s : σ) : AtomicAt k (throw e : EStateM ε σ α) s := by
  intro e' t h _
  cases h
  rfl

/-- What cannot fail any more has no part in it. -/
theorem atomicAt_bind_iff {m : EStateM ε σ α} {f : α → EStateM ε σ β}
    (hf : ∀ a, Quiet k (f a)) {s : σ} : AtomicAt k (m >>= f) s ↔ AtomicAt k m s := by
  constructor
  · intro h e t hm
    exact h e t (bind_of_error hm)
  · intro h e u hbind he
    cases hs : m s with
    | ok a t =>
      rw [bind_of_ok hs] at hbind
      exact absurd he (hf a t e u hbind)
    | error e' t =>
      rw [bind_of_error hs] at hbind
      cases hbind
      exact h _ _ hs he

/-- A failure after a step that has written `t`. -/
theorem atomicAt_throw_after {m : EStateM ε σ α} {f : α → EStateM ε σ β} {s t : σ} {a : α} {e : ε}
    (hm : m s = .ok a t) (hf : f a t = .error e t) (he : k e) :
    AtomicAt k (m >>= f) s ↔ t = s := by
  have hrun : (m >>= f) s = .error e t := (bind_of_ok hm).trans hf
  constructor
  · exact fun h => h e t hrun he
  · intro hts e' u hu _
    cases hrun.symm.trans hu
    exact hts

end Atomic

end StateRules
