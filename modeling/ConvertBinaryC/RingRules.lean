import Mathlib.Tactic

/-! Doubly linked rings through a sentinel. A link that is cut and tied anew leaves all
the other links as they are, so that segments move between rings as a whole. -/
namespace RingRules

variable {A : Type}

/-- The pointers of all cells. -/
structure Links (A : Type) where
  next : A → A
  prev : A → A

namespace Links

/-- `v` comes after `u`. -/
def Linked (p : Links A) (u v : A) : Prop := p.next u = v ∧ p.prev v = u

/-- Each cell of the list is linked with the one after it. -/
def Path (p : Links A) (l : List A) : Prop := l.IsChain p.Linked

/-- The cells of the ring are the sentinel `s` and those of the list. -/
structure Ring (p : Links A) (s : A) (xs : List A) : Prop where
  nodup : (s :: xs).Nodup
  path : p.Path (s :: xs ++ [s])

/-- A ring through `s` in two pieces, however these are linked with each other. -/
structure Cut (p : Links A) (s : A) (L R : List A) : Prop where
  nodup : (s :: (L ++ R)).Nodup
  left : p.Path (s :: L)
  right : p.Path (R ++ [s])

end Links

open Links
variable {p : Links A} {s n a b u v x y : A} {l L M R X : List A}

theorem Links.Path.append {l₁ l₂ : List A} (h₁ : p.Path l₁) (h₂ : p.Path l₂)
    (hb : l₁.getLast? = some b) (ha : l₂.head? = some a) (hlink : p.Linked b a) :
    p.Path (l₁ ++ l₂) := by
  apply List.isChain_append.mpr
  refine ⟨h₁, h₂, fun x hx y hy => ?_⟩
  have hxb : x = b := Option.some.inj (hx.symm.trans hb)
  have hya : y = a := Option.some.inj (hy.symm.trans ha)
  rwa [hxb, hya]

/-- The cell before a place is none after it, but for the sentinel. -/
theorem last_apart (h : (s :: (L ++ R)).Nodup) (hb : (s :: L).getLast? = some b) : b ∉ R := by
  have hmem := List.mem_of_getLast? hb
  grind

theorem last_not_first (h : (s :: (L ++ R)).Nodup) (hb : (s :: L).getLast? = some b)
    (hmem : b ∈ R ++ [s]) : (R ++ [s]).getLast? = some b := by
  have hR := last_apart h hb
  have hs : b = s := by simpa [hR] using hmem
  rw [hs, List.getLast?_concat]

theorem head_apart (h : (s :: (L ++ R)).Nodup) (ha : (R ++ [s]).head? = some a) : a ∉ L := by
  have hmem := List.mem_of_head? ha
  grind

theorem head_not_last (h : (s :: (L ++ R)).Nodup) (ha : (R ++ [s]).head? = some a)
    (hmem : a ∈ s :: L) : (s :: L).head? = some a := by
  have hL := head_apart h ha
  have hs : a = s := by simpa [hL] using hmem
  rw [hs, List.head?_cons]

theorem Links.Ring.cut (h : p.Ring s (L ++ R)) : p.Cut s L R := by
  have hsplit : s :: (L ++ R) ++ [s] = (s :: L) ++ (R ++ [s]) := by simp
  have hboth := List.isChain_append.mp (hsplit ▸ h.path)
  exact ⟨h.nodup, hboth.1, hboth.2.1⟩

/-- All cells after the sentinel. -/
theorem Links.Ring.cut_tail (h : p.Ring s X) : p.Cut s [] X :=
  Links.Ring.cut (L := []) h

theorem Links.Ring.linked (h : p.Ring s (L ++ R)) (hb : (s :: L).getLast? = some b)
    (ha : (R ++ [s]).head? = some a) : p.Linked b a := by
  have hsplit : s :: (L ++ R) ++ [s] = (s :: L) ++ (R ++ [s]) := by simp
  exact (List.isChain_append.mp (hsplit ▸ h.path)).2.2 b hb a ha

/-- A segment taken out leaves a cut ring. -/
theorem Links.Ring.cut_out (h : p.Ring s (L ++ M ++ R)) : p.Cut s L R ∧ p.Path M := by
  have hnodup := h.nodup
  rw [List.append_assoc] at h
  have hcut := h.cut
  have hright := hcut.right
  rw [List.append_assoc] at hright
  have hboth := List.isChain_append.mp hright
  exact ⟨⟨by grind, hcut.left, hboth.2.1⟩, hboth.1⟩

theorem Links.Cut.close (h : p.Cut s L R) (hb : (s :: L).getLast? = some b)
    (ha : (R ++ [s]).head? = some a) (hlink : p.Linked b a) : p.Ring s (L ++ R) where
  nodup := h.nodup
  path := by
    have hsplit : s :: (L ++ R) ++ [s] = (s :: L) ++ (R ++ [s]) := by simp
    exact hsplit ▸ h.left.append h.right hb ha hlink

/-- A segment put in between the two pieces. -/
theorem Links.Cut.fill (h : p.Cut s L R) (hX : p.Path X) (hnodup : (s :: (L ++ X ++ R)).Nodup)
    (hb : (s :: L).getLast? = some b) (ha : (R ++ [s]).head? = some a)
    (hx : X.head? = some x) (hy : X.getLast? = some y) (hbx : p.Linked b x)
    (hya : p.Linked y a) : p.Ring s (L ++ X ++ R) where
  nodup := hnodup
  path := by
    have hsplit : s :: (L ++ X ++ R) ++ [s] = (s :: L) ++ (X ++ (R ++ [s])) := by simp
    have hright : p.Path (X ++ (R ++ [s])) := hX.append h.right hy ha hya
    have hhead : (X ++ (R ++ [s])).head? = some x := by rw [List.head?_append, hx]; rfl
    exact hsplit ▸ h.left.append hright hb hhead hbx

/-- A segment with a sentinel of its own. -/
theorem Links.Path.ring (h : p.Path X) (hnodup : (n :: X).Nodup) (hx : X.head? = some x)
    (hy : X.getLast? = some y) (hnx : p.Linked n x) (hyn : p.Linked y n) : p.Ring n X where
  nodup := hnodup
  path := by
    have hright : p.Path (X ++ [n]) := h.append (List.isChain_singleton n) hy rfl hyn
    have hhead : (X ++ [n]).head? = some x := by rw [List.head?_append, hx]; rfl
    have hleft : p.Path [n] := List.isChain_singleton n
    exact hleft.append hright rfl hhead hnx

section Tie
variable [DecidableEq A]

namespace Links

/-- Both pointers of one link are set. -/
def tie (p : Links A) (u v : A) : Links A :=
  ⟨Function.update p.next u v, Function.update p.prev v u⟩

end Links

theorem tie_linked (p : Links A) (u v : A) : (p.tie u v).Linked u v :=
  ⟨Function.update_self .., Function.update_self ..⟩

theorem Links.Linked.tie {x y : A} (h : p.Linked x y) (hu : x ≠ u) (hv : y ≠ v) :
    (p.tie u v).Linked x y :=
  ⟨(Function.update_of_ne hu ..).trans h.1, (Function.update_of_ne hv ..).trans h.2⟩

/-- A path keeps its links if `u` is no cell of it but the last one, and `v` none but the
first one. -/
theorem Links.Path.tie (h : p.Path l) (hl : l.Nodup) (hu : u ∈ l → l.getLast? = some u)
    (hv : v ∈ l → l.head? = some v) : (p.tie u v).Path l := by
  induction l with
  | nil => exact List.isChain_nil
  | cons x l ih =>
    cases l with
    | nil => exact List.isChain_singleton x
    | cons y l =>
      have hlink := List.isChain_cons_cons.mp h
      have hnodup := List.nodup_cons.mp hl
      have hxu : x ≠ u := by
        rintro rfl
        have hlast := hu List.mem_cons_self
        rw [List.getLast?_cons_cons] at hlast
        exact hnodup.1 (List.mem_of_getLast? hlast)
      have hyv : y ≠ v := by
        rintro rfl
        have hhead := hv (List.mem_cons_of_mem x List.mem_cons_self)
        exact hnodup.1 (Option.some.inj hhead ▸ List.mem_cons_self)
      have hrest : (p.tie u v).Path (y :: l) := by
        apply ih hlink.2 hnodup.2
        · intro hmem
          have hlast := hu (List.mem_cons_of_mem x hmem)
          rwa [List.getLast?_cons_cons] at hlast
        · intro hmem
          have hhead := hv (List.mem_cons_of_mem x hmem)
          exact absurd (Option.some.inj hhead ▸ hmem) hnodup.1
      exact List.isChain_cons_cons.mpr ⟨hlink.1.tie hxu hyv, hrest⟩

theorem Links.Path.tie_of_notMem (h : p.Path l) (hu : u ∉ l) (hv : v ∉ l) :
    (p.tie u v).Path l := by
  apply List.IsChain.imp_of_mem_imp _ h
  intro x y hx hy hxy
  exact hxy.tie (fun heq => hu (heq ▸ hx)) (fun heq => hv (heq ▸ hy))

theorem Links.Ring.tie_of_notMem (h : p.Ring s X) (hu : u ∉ s :: X) (hv : v ∉ s :: X) :
    (p.tie u v).Ring s X where
  nodup := h.nodup
  path := by
    have hmem (x : A) (hx : x ∉ s :: X) : x ∉ s :: X ++ [s] := by
      simpa [or_comm] using hx
    exact h.path.tie_of_notMem (hmem u hu) (hmem v hv)

/-- The two pieces do not notice what the cell before the place, or a cell outside, is
tied to, nor what is tied to the cell after the place. -/
theorem Links.Cut.tie (h : p.Cut s L R)
    (hu : u ∈ s :: (L ++ R) → (s :: L).getLast? = some u)
    (hv : v ∈ s :: (L ++ R) → (R ++ [s]).head? = some v) : (p.tie u v).Cut s L R where
  nodup := h.nodup
  left := by
    have hmem (w : A) (hw : w ∈ s :: L) : w ∈ s :: (L ++ R) := by
      simp only [List.mem_cons, List.mem_append] at hw ⊢; tauto
    have hnodup : (s :: L).Nodup := List.Nodup.sublist (by simp) h.nodup
    apply h.left.tie hnodup
    · exact fun hw => hu (hmem u hw)
    · exact fun hw => head_not_last h.nodup (hv (hmem v hw)) hw
  right := by
    have hmem (w : A) (hw : w ∈ R ++ [s]) : w ∈ s :: (L ++ R) := by
      simp only [List.mem_cons, List.mem_append, List.not_mem_nil, or_false] at hw ⊢; tauto
    have hnodup : (R ++ [s]).Nodup := by
      have hall := h.nodup
      grind
    apply h.right.tie hnodup
    · exact fun hw => last_not_first h.nodup (hu (hmem u hw)) hw
    · exact fun hw => hv (hmem v hw)

/-- The segment `M` leaves the ring of `s`. -/
theorem Links.Ring.remove (h : p.Ring s (L ++ M ++ R)) (hb : (s :: L).getLast? = some b)
    (ha : (R ++ [s]).head? = some a) :
    (p.tie b a).Ring s (L ++ R) ∧ (p.tie b a).Path M := by
  have hall := h.nodup
  have hcut := h.cut_out
  have hbM : b ∉ M := by
    have hmem := List.mem_of_getLast? hb
    grind
  have haM : a ∉ M := by
    have hmem := List.mem_of_head? ha
    grind
  have htied : (p.tie b a).Cut s L R := hcut.1.tie (fun _ => hb) (fun _ => ha)
  exact ⟨htied.close hb ha (tie_linked p b a), hcut.2.tie_of_notMem hbM haM⟩

/-- A segment gets the sentinel `n`. -/
theorem Links.Path.close (h : p.Path X) (hnodup : (n :: X).Nodup) (hx : X.head? = some x)
    (hy : X.getLast? = some y) : ((p.tie n x).tie y n).Ring n X := by
  have hn : n ∉ X := (List.nodup_cons.mp hnodup).1
  have hX : X.Nodup := (List.nodup_cons.mp hnodup).2
  have hny : n ≠ y := fun heq => hn (heq ▸ List.mem_of_getLast? hy)
  have hxn : x ≠ n := fun heq => hn (heq ▸ List.mem_of_head? hx)
  have hfirst : (p.tie n x).Path X := h.tie hX (fun hmem => absurd hmem hn) (fun _ => hx)
  have hlast : ((p.tie n x).tie y n).Path X :=
    hfirst.tie hX (fun _ => hy) (fun hmem => absurd hmem hn)
  have hnx : ((p.tie n x).tie y n).Linked n x := (tie_linked p n x).tie hny hxn
  exact hlast.ring hnodup hx hy hnx (tie_linked _ y n)

/-- The segment `M` moves from the ring of `s` to a ring of its own. -/
theorem Links.Ring.move (h : p.Ring s (L ++ M ++ R)) (hn : n ∉ s :: (L ++ M ++ R))
    (hb : (s :: L).getLast? = some b) (ha : (R ++ [s]).head? = some a)
    (hx : M.head? = some x) (hy : M.getLast? = some y) :
    (((p.tie b a).tie n x).tie y n).Ring s (L ++ R) ∧
      (((p.tie b a).tie n x).tie y n).Ring n M := by
  have hall := h.nodup
  have hxM := List.mem_of_head? hx
  have hyM := List.mem_of_getLast? hy
  have hboth := h.remove hb ha
  have hout (w : A) (hw : w ∈ M) : w ∉ s :: (L ++ R) := by grind
  have hnout : n ∉ s :: (L ++ R) := by grind
  have hnodup : (n :: M).Nodup := by grind
  have hfirst := hboth.1.tie_of_notMem hnout (hout x hxM)
  exact ⟨hfirst.tie_of_notMem (hout y hyM) hnout, hboth.2.close hnodup hx hy⟩

/-- The segment `X` enters the ring of `s`. -/
theorem Links.Ring.insert (h : p.Ring s (L ++ R)) (hX : p.Path X)
    (hnodup : (s :: (L ++ X ++ R)).Nodup) (hb : (s :: L).getLast? = some b)
    (ha : (R ++ [s]).head? = some a) (hx : X.head? = some x) (hy : X.getLast? = some y) :
    ((p.tie b x).tie y a).Ring s (L ++ X ++ R) := by
  have hxX := List.mem_of_head? hx
  have hyX := List.mem_of_getLast? hy
  have hbmem := List.mem_of_getLast? hb
  have hamem := List.mem_of_head? ha
  have hout (w : A) (hw : w ∈ X) : w ∉ s :: (L ++ R) := by grind
  have hbX : b ∉ X := by grind
  have haX : a ∉ X := by grind
  have hXn : X.Nodup := by grind
  have hby : b ≠ y := fun heq => hbX (heq ▸ hyX)
  have hxa : x ≠ a := fun heq => haX (heq ▸ hxX)
  have hcut₁ : (p.tie b x).Cut s L R := h.cut.tie (fun _ => hb) (fun hmem => absurd hmem (hout x hxX))
  have hcut₂ : ((p.tie b x).tie y a).Cut s L R :=
    hcut₁.tie (fun hmem => absurd hmem (hout y hyX)) (fun _ => ha)
  have hX₁ : (p.tie b x).Path X := hX.tie hXn (fun hmem => absurd hmem hbX) (fun _ => hx)
  have hX₂ : ((p.tie b x).tie y a).Path X :=
    hX₁.tie hXn (fun _ => hy) (fun hmem => absurd hmem haX)
  have hbx : ((p.tie b x).tie y a).Linked b x := (tie_linked p b x).tie hby hxa
  exact hcut₂.fill hX₂ hnodup hb ha hx hy hbx (tie_linked _ y a)

end Tie
end RingRules
