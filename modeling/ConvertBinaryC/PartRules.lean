import ConvertBinaryC.StateRules

/-! Rules for a computation that changes a part of its state for a while, and one that does
without this part: it gets what it needs as a parameter, and neither reads nor writes the
part. All else runs alike. -/
namespace PartRules
open StateRules

variable {ε σ κ α β : Type}

/-- A part of a state that can be replaced. -/
structure Part (σ κ : Type) where
  get : σ → κ
  put : κ → σ → σ

/-- A result with another value of the part. -/
def Part.onto (P : Part σ κ) (k : κ) (r : EStateM.Result ε σ α) : EStateM.Result ε σ α :=
  match r with
  | .ok a t => .ok a (P.put k t)
  | .error e t => .error e (P.put k t)

/-- With any value of the part, `m'` runs as `m` does from `s`, and leaves the part alone. -/
def Shadows (P : Part σ κ) (m m' : EStateM ε σ α) (s : σ) : Prop :=
  ∀ k, m' (P.put k s) = P.onto k (m s)

/-- Besides, `m` returns with the part that it was called with. -/
structure Follows (P : Part σ κ) (m m' : EStateM ε σ α) (s : σ) : Prop where
  shadows : Shadows P m m' s
  restored : ∀ a t, m s = .ok a t → P.get t = P.get s

variable {P : Part σ κ} {m m' : EStateM ε σ α} {s : σ}

theorem Shadows.ok (h : Shadows P m m' s) {a : α} {t : σ} (hm : m s = .ok a t) (k : κ) :
    m' (P.put k s) = .ok a (P.put k t) := by
  rw [h k, hm]
  rfl

theorem Shadows.error (h : Shadows P m m' s) {e : ε} {t : σ} (hm : m s = .error e t) (k : κ) :
    m' (P.put k s) = .error e (P.put k t) := by
  rw [h k, hm]
  rfl

theorem Shadows.bind {f f' : α → EStateM ε σ β} (hm : Shadows P m m' s)
    (hf : ∀ a t, m s = .ok a t → Shadows P (f a) (f' a) t) : Shadows P (m >>= f) (m' >>= f') s := by
  intro k
  cases hrun : m s with
  | ok a t =>
    rw [bind_of_ok hrun, bind_of_ok (hm.ok hrun k)]
    exact hf a t hrun k
  | error e t =>
    rw [bind_of_error hrun, bind_of_error (hm.error hrun k)]
    rfl

theorem Follows.bind {f f' : α → EStateM ε σ β} (hm : Follows P m m' s)
    (hf : ∀ a t, m s = .ok a t → P.get t = P.get s → Follows P (f a) (f' a) t) :
    Follows P (m >>= f) (m' >>= f') s where
  shadows := hm.shadows.bind fun a t hrun => (hf a t hrun (hm.restored a t hrun)).shadows
  restored b u hu := by
    obtain ⟨a, t, hrun, hrest⟩ := bind_ok hu
    have hback := hm.restored a t hrun
    exact ((hf a t hrun hback).restored b u hrest).trans hback

theorem follows_pure (a : α) : Follows P (pure a : EStateM ε σ α) (pure a) s where
  shadows _ := rfl
  restored := by
    rintro b t ⟨⟩
    rfl

theorem follows_throw (e : ε) : Follows P (throw e : EStateM ε σ α) (throw e) s where
  shadows _ := rfl
  restored _ _ h := nomatch h

/-- What `m'` reads of the state is not the part. -/
theorem Follows.get_bind {f f' : σ → EStateM ε σ α} (hblind : ∀ k, f' (P.put k s) = f' s)
    (h : Follows P (f s) (f' s) s) : Follows P (get >>= f) (get >>= f') s where
  shadows k := by
    show f' (P.put k s) (P.put k s) = _
    rw [hblind k]
    exact h.shadows k
  restored := h.restored

/-- A change of the state elsewhere. -/
theorem follows_modify {g : σ → σ} (hput : ∀ k, g (P.put k s) = P.put k (g s))
    (hget : P.get (g s) = P.get s) :
    Follows P (modify g : EStateM ε σ PUnit) (modify g) s where
  shadows k := congrArg (EStateM.Result.ok PUnit.unit) (hput k)
  restored := by
    rintro a t ⟨⟩
    exact hget

theorem follows_forM {f f' : α → EStateM ε σ PUnit} {l : List α}
    (h : ∀ a ∈ l, ∀ t, P.get t = P.get s → Follows P (f a) (f' a) t) :
    Follows P (l.forM f) (l.forM f') s := by
  induction l generalizing s with
  | nil => exact follows_pure _
  | cons a l ih =>
    show Follows P (f a >>= fun _ => l.forM f) (f' a >>= fun _ => l.forM f') s
    apply (h a List.mem_cons_self s rfl).bind
    intro _ t _ ht
    apply ih
    exact fun b hb u hu => h b (List.mem_cons_of_mem a hb) u (hu.trans ht)

theorem follows_foldlM {f f' : β → α → EStateM ε σ β} {l : List α}
    (h : ∀ a ∈ l, ∀ b t, P.get t = P.get s → Follows P (f b a) (f' b a) t) (b : β) :
    Follows P (l.foldlM f b) (l.foldlM f' b) s := by
  induction l generalizing b s with
  | nil => exact follows_pure _
  | cons a l ih =>
    rw [List.foldlM_cons, List.foldlM_cons]
    apply (h a List.mem_cons_self b s rfl).bind
    intro b' t _ ht
    apply ih
    exact fun c hc b u hu => h c (List.mem_cons_of_mem a hc) b u (hu.trans ht)

theorem follows_mapM {f f' : α → EStateM ε σ β} {l : List α}
    (h : ∀ a ∈ l, ∀ t, P.get t = P.get s → Follows P (f a) (f' a) t) :
    Follows P (l.mapM f) (l.mapM f') s := by
  induction l generalizing s with
  | nil => exact follows_pure _
  | cons a l ih =>
    rw [List.mapM_cons, List.mapM_cons]
    apply (h a List.mem_cons_self s rfl).bind
    intro b t _ ht
    have hrest : Follows P (l.mapM f) (l.mapM f') t :=
      ih fun c hc u hu => h c (List.mem_cons_of_mem a hc) u (hu.trans ht)
    apply hrest.bind
    exact fun bs u _ _ => follows_pure _

end PartRules
