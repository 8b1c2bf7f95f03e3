import ConvertBinaryC.StateRules

/-! Rules for two computations over a state that run alike. They agree from one state,
and an assertion about the states that they return with carries the agreement on to what
runs next. -/
namespace AgreeRules
open StateRules

variable {ε σ α β : Type}

/-- From `s` both computations run alike, and return with states that satisfy `Q`. -/
structure Agrees (m m' : EStateM ε σ α) (s : σ) (Q : σ → Prop) : Prop where
  same : m s = m' s
  returns : ∀ a t, m' s = .ok a t → Q t

theorem Agrees.mono {m m' : EStateM ε σ α} {s : σ} {Q R : σ → Prop} (h : Agrees m m' s Q)
    (hQR : ∀ t, Q t → R t) : Agrees m m' s R :=
  ⟨h.same, fun a t ht => hQR t (h.returns a t ht)⟩

theorem Agrees.refl {m : EStateM ε σ α} {s : σ} {Q : σ → Prop}
    (h : ∀ a t, m s = .ok a t → Q t) : Agrees m m s Q := ⟨rfl, h⟩

theorem agrees_pure {a : α} {s : σ} {Q : σ → Prop} (h : Q s) :
    Agrees (pure a : EStateM ε σ α) (pure a) s Q := by
  apply Agrees.refl
  rintro b t ⟨⟩
  exact h

theorem agrees_throw {e : ε} {s : σ} {Q : σ → Prop} :
    Agrees (throw e : EStateM ε σ α) (throw e) s Q := by
  apply Agrees.refl
  intro b t h
  exact nomatch h

theorem Agrees.bind {m m' : EStateM ε σ α} {f f' : α → EStateM ε σ β} {s : σ} {Q R : σ → Prop}
    (hm : Agrees m m' s Q) (hf : ∀ a t, m' s = .ok a t → Q t → Agrees (f a) (f' a) t R) :
    Agrees (m >>= f) (m' >>= f') s R := by
  cases hrun : m' s with
  | ok a t =>
    have hrest := hf a t hrun (hm.returns a t hrun)
    constructor
    · rw [bind_of_ok (hm.same.trans hrun), bind_of_ok hrun]
      exact hrest.same
    · intro b u hu
      rw [bind_of_ok hrun] at hu
      exact hrest.returns b u hu
  | error e t =>
    constructor
    · rw [bind_of_error (hm.same.trans hrun), bind_of_error hrun]
    · intro b u hu
      rw [bind_of_error hrun] at hu
      exact nomatch hu

/-- Reading the state changes nothing. -/
theorem Agrees.get_bind {f f' : σ → EStateM ε σ α} {s : σ} {Q : σ → Prop}
    (h : Agrees (f s) (f' s) s Q) : Agrees (get >>= f) (get >>= f') s Q := ⟨h.same, h.returns⟩

/-- A change of the state that both make. -/
theorem Agrees.modify_bind {g : σ → σ} {f f' : PUnit → EStateM ε σ α} {s : σ} {Q : σ → Prop}
    (h : Agrees (f ⟨⟩) (f' ⟨⟩) (g s) Q) : Agrees (modify g >>= f) (modify g >>= f') s Q :=
  ⟨h.same, h.returns⟩

theorem agrees_forM {f f' : α → EStateM ε σ PUnit} {Q : σ → Prop} {l : List α}
    (h : ∀ a ∈ l, ∀ s, Q s → Agrees (f a) (f' a) s Q) {s : σ} (hs : Q s) :
    Agrees (l.forM f) (l.forM f') s Q := by
  induction l generalizing s with
  | nil => exact agrees_pure hs
  | cons a l ih =>
    show Agrees (f a >>= fun _ => l.forM f) (f' a >>= fun _ => l.forM f') s Q
    apply (h a List.mem_cons_self s hs).bind
    intro _ t _ ht
    exact ih (fun b hb => h b (List.mem_cons_of_mem a hb)) ht

/-- A loop of at most one turn. -/
theorem agrees_forM_one {f f' : α → EStateM ε σ PUnit} {Q : σ → Prop} {l : List α} {s : σ}
    (hl : l.length ≤ 1) (h : ∀ a ∈ l, Agrees (f a) (f' a) s Q) (hs : Q s) :
    Agrees (l.forM f) (l.forM f') s Q := by
  match l with
  | [] => exact agrees_pure hs
  | [a] =>
    show Agrees (f a >>= fun _ => [].forM f) (f' a >>= fun _ => [].forM f') s Q
    apply (h a List.mem_cons_self).bind
    exact fun _ t _ ht => agrees_pure ht
  | a :: b :: l => exact absurd hl (by simp)

theorem agrees_foldlM {f f' : β → α → EStateM ε σ β} {Q : σ → Prop} {l : List α}
    (h : ∀ a ∈ l, ∀ b s, Q s → Agrees (f b a) (f' b a) s Q) (b : β) {s : σ} (hs : Q s) :
    Agrees (l.foldlM f b) (l.foldlM f' b) s Q := by
  induction l generalizing b s with
  | nil => exact agrees_pure hs
  | cons a l ih =>
    rw [List.foldlM_cons, List.foldlM_cons]
    apply (h a List.mem_cons_self b s hs).bind
    intro b' t _ ht
    exact ih (fun c hc => h c (List.mem_cons_of_mem a hc)) b' ht

theorem agrees_mapM {f f' : α → EStateM ε σ β} {Q : σ → Prop} {l : List α}
    (h : ∀ a ∈ l, ∀ s, Q s → Agrees (f a) (f' a) s Q) {s : σ} (hs : Q s) :
    Agrees (l.mapM f) (l.mapM f') s Q := by
  induction l generalizing s with
  | nil => exact agrees_pure hs
  | cons a l ih =>
    rw [List.mapM_cons, List.mapM_cons]
    apply (h a List.mem_cons_self s hs).bind
    intro b t _ ht
    apply (ih (fun c hc => h c (List.mem_cons_of_mem a hc)) ht).bind
    exact fun bs u _ hu => agrees_pure hu

theorem agrees_mapM_one {f f' : α → EStateM ε σ β} {Q : σ → Prop} {l : List α} {s : σ}
    (hl : l.length ≤ 1) (h : ∀ a ∈ l, Agrees (f a) (f' a) s Q) (hs : Q s) :
    Agrees (l.mapM f) (l.mapM f') s Q := by
  match l with
  | [] => exact agrees_pure hs
  | [a] =>
    rw [List.mapM_cons, List.mapM_cons]
    apply (h a List.mem_cons_self).bind
    intro b t _ ht
    apply (show Agrees ([].mapM f) ([].mapM f') t Q from agrees_pure ht).bind
    exact fun bs u _ hu => agrees_pure hu
  | a :: b :: l => exact absurd hl (by simp)

end AgreeRules
