import ConvertBinaryC.UtilListOps

/-! Runs of calls on any number of linked lists (`util/list.c`) against sequences. -/
namespace ConvertBinaryC

open RingRules FoldRules

variable {A O : Type}

namespace ListHeap

variable {h h' : ListHeap A O} {s t a b x : A} {cells cells' L R : List (A × O)} {turns : ℕ}

section Apart
variable {ts : List (A × O)}

/-- The link after what has been seen. -/
theorem IsList.next_after (hlist : h.IsList s (L ++ R))
    (hcur : (s :: L.map Prod.fst).getLast? = some a)
    (hx : (R.map Prod.fst ++ [s]).head? = some x) : h.next a = .ok x ∧ h.prev x = .ok a := by
  have hring := hlist.ring
  rw [List.map_append] at hring
  have hlink := hring.linked hcur hx
  have hmem (c : A) (hc : c ∈ s :: L.map Prod.fst ∨ c ∈ R.map Prod.fst ++ [s]) :
      h.live c = true := by
    apply hlist.live
    rw [List.map_append]
    grind
  rw [next_ok (hmem a (.inl (List.mem_of_getLast? hcur))),
    prev_ok (hmem x (.inr (List.mem_of_head? hx))), hlink.1, hlink.2]
  exact ⟨rfl, rfl⟩

theorem seen_last (s : A) (L : List (A × O)) (c : A × O) :
    (s :: (L ++ [c]).map Prod.fst).getLast? = some c.1 := by
  rw [List.map_append, ← List.cons_append]
  exact List.getLast?_concat

/-- A call on one list leaves another one as it is. -/
theorem Changed.kept_list (hchanged : Changed h h' t ts cells') (hlist : h.IsList s cells)
    (hapart : ∀ a ∈ s :: cells.map Prod.fst, a ∉ t :: ts.map Prod.fst) : h'.IsList s cells :=
  hlist.of_kept fun a ha => hchanged.others a (hlist.live a ha) (hapart a ha)

/-- What is new in a list is in no other one. -/
theorem Changed.kept_apart (hchanged : Changed h h' t ts cells') (hlist : h.IsList s cells)
    (hapart : ∀ a ∈ s :: cells.map Prod.fst, a ∉ t :: ts.map Prod.fst) :
    ∀ a ∈ s :: cells.map Prod.fst, a ∉ t :: cells'.map Prod.fst := by
  intro a ha hmem
  rcases List.mem_cons.mp hmem with rfl | hmem
  · exact hapart a ha List.mem_cons_self
  · rcases hchanged.owned a hmem with hold | hdead
    · exact hapart a ha (List.mem_cons_of_mem t hold)
    · exact Bool.noConfusion (hdead.symm.trans (hlist.live a ha))

end Apart

section Held
variable {held : A → Option (List (A × O))}

/-- The lists of a heap, each with links of its own. -/
structure Holds (h : ListHeap A O) (held : A → Option (List (A × O))) : Prop where
  list : ∀ s cells, held s = some cells → h.IsList s cells
  apart : ∀ s t cells ts, held s = some cells → held t = some ts → s ≠ t →
    ∀ a ∈ s :: cells.map Prod.fst, a ∉ t :: ts.map Prod.fst

theorem Holds.not_held (hheld : Holds h held) (hfree : h.live t = false) : held t = none := by
  cases ht : held t with
  | none => rfl
  | some ts =>
    have hlive := (hheld.list t ts ht).live t List.mem_cons_self
    exact Bool.noConfusion (hfree.symm.trans hlive)

/-- The sequences of objects. -/
def contents (held : A → Option (List (A × O))) : A → Option (List O) :=
  fun s => (held s).map (List.map Prod.snd)

theorem contents_some {xs : List O} (hs : contents held s = some xs) :
    ∃ cells, held s = some cells ∧ cells.map Prod.snd = xs := Option.map_eq_some_iff.mp hs

end Held

variable [DecidableEq A]

section Iterators

theorem liNext_ok (hnext : h.next a = .ok x) :
    h.liNext ⟨some s, a⟩ = .ok (decide (x ≠ s), ⟨some s, x⟩) := by
  unfold liNext
  dsimp only
  rw [hnext]
  rfl

theorem liPrev_ok (hprev : h.prev a = .ok x) :
    h.liPrev ⟨some s, a⟩ = .ok (decide (x ≠ s), ⟨some s, x⟩) := by
  unfold liPrev
  dsimp only
  rw [hprev]
  rfl

/-- The object of an element. -/
theorem IsList.liCurr_ok {c : A × O} (hlist : h.IsList s cells) (hmem : c ∈ cells) :
    h.liCurr ⟨some s, c.1⟩ = .ok (some c.2) ∧ decide (c.1 ≠ s) = true := by
  have hin := List.mem_map_of_mem (f := Prod.fst) hmem
  have hout := (List.nodup_cons.mp hlist.ring.nodup).1
  refine ⟨?_, decide_eq_true fun heq => hout (heq ▸ hin)⟩
  unfold liCurr
  dsimp only
  rw [read_ok (hlist.live c.1 (List.mem_cons_of_mem s hin)), hlist.objs c hmem]

/-- From the last link of what has been seen, the iterator goes through the rest. -/
theorem IsList.iterate_next (hlist : h.IsList s (L ++ R))
    (hcur : (s :: L.map Prod.fst).getLast? = some a) (hturns : R.length < turns) :
    h.iterate h.liNext turns ⟨some s, a⟩ = .ok (R.map Prod.snd) := by
  induction turns generalizing L R a with
  | zero => exact absurd hturns (Nat.not_lt_zero _)
  | succ turns ih =>
    unfold iterate
    cases R with
    | nil =>
      rw [liNext_ok (hlist.next_after hcur rfl).1]
      simp [call_bind_apply]
    | cons c R =>
      have hmem : c ∈ L ++ c :: R := by simp
      obtain ⟨hobj, hmore⟩ := hlist.liCurr_ok hmem
      rw [liNext_ok (hlist.next_after hcur rfl).1, call_bind_apply, hmore]
      dsimp only
      rw [if_pos rfl, hobj, call_bind_apply]
      rw [← List.singleton_append, ← List.append_assoc] at hlist
      have hrest := ih hlist (seen_last s L c) (Nat.lt_of_succ_lt_succ hturns)
      dsimp only
      rw [hrest]
      rfl

theorem IsList.iterate_prev (hlist : h.IsList s (L ++ R))
    (hcur : (R.map Prod.fst ++ [s]).head? = some a) (hturns : L.length < turns) :
    h.iterate h.liPrev turns ⟨some s, a⟩ = .ok (L.map Prod.snd).reverse := by
  induction turns generalizing L R a with
  | zero => exact absurd hturns (Nat.not_lt_zero _)
  | succ turns ih =>
    unfold iterate
    rcases List.eq_nil_or_concat' L with rfl | ⟨L, c, rfl⟩
    · have hprev := (@IsList.next_after _ _ h s s a [] R hlist rfl hcur).2
      rw [liPrev_ok hprev]
      simp [call_bind_apply]
    · have hmem : c ∈ L ++ [c] ++ R := by simp
      obtain ⟨hobj, hmore⟩ := hlist.liCurr_ok hmem
      rw [liPrev_ok (hlist.next_after (seen_last s L c) hcur).2, call_bind_apply, hmore]
      dsimp only
      rw [if_pos rfl, hobj, call_bind_apply]
      rw [List.append_assoc] at hlist
      rw [List.length_append] at hturns
      have hrest := @ih c.1 L ([c] ++ R) hlist rfl (Nat.lt_of_succ_lt_succ hturns)
      dsimp only
      rw [hrest, List.map_append, List.reverse_append]
      rfl

end Iterators

section Clones
variable {m : Allocator A} {func : Option (O → Option O)} {ts : List (A × O)}

/-- Each turn of the loop pushes the clone of one object, if it has one. -/
theorem IsList.cloneLoop (hlist : h.IsList s (L ++ R)) (ht : h.IsList t ts)
    (hapart : ∀ a ∈ s :: (L ++ R).map Prod.fst, a ∉ t :: ts.map Prod.fst)
    (hcur : (s :: L.map Prod.fst).getLast? = some a) (hturns : R.length < turns)
    (hfits : ts.length + R.length ≤ 2147483647) :
    cloneLoop m func t turns ⟨some s, a⟩ h = .error outOfMemory ∨
      ∃ h' ts', cloneLoop m func t turns ⟨some s, a⟩ h = .ok h' ∧ Changed h h' t ts ts' ∧
        ts'.map Prod.snd = ts.map Prod.snd ++ (R.map Prod.snd).filterMap (cloned func) := by
  induction turns generalizing h L R a ts with
  | zero => exact absurd hturns (Nat.not_lt_zero _)
  | succ turns ih =>
    unfold ListHeap.cloneLoop
    cases R with
    | nil =>
      rw [liNext_ok (hlist.next_after hcur rfl).1]
      refine .inr ⟨h, ts, ?_, Changed.refl ht, ?_⟩
      · simp [call_bind_apply]
      · simp
    | cons c R =>
      have hmem : c ∈ L ++ c :: R := by simp
      obtain ⟨hobj, hmore⟩ := hlist.liCurr_ok hmem
      rw [liNext_ok (hlist.next_after hcur rfl).1, call_bind_apply, hmore]
      dsimp only
      rw [if_pos rfl, hobj, call_bind_apply]
      have hmove : L ++ c :: R = L ++ [c] ++ R := by simp
      rw [hmove] at hlist hapart
      have hless := Nat.lt_of_succ_lt_succ hturns
      rw [List.length_cons] at hfits
      dsimp only
      rw [List.map_cons, List.filterMap_cons]
      cases hclone : cloned func c.2 with
      | none =>
        have hpush : h.llPush m (some t) none = .ok h := rfl
        rw [hpush, call_bind_apply]
        exact ih hlist ht hapart (seen_last s L c) hless (by omega)
      | some pObj =>
        have ht' := ht
        rw [← List.append_nil ts] at ht'
        have hpush : h.llPush m (some t) (some pObj) = h.insert m t t pObj := rfl
        rw [hpush]
        cases hm : m.find h.live with
        | none =>
          rw [insert_outOfMemory hm]
          exact .inl rfl
        | some n =>
          obtain ⟨h', hrun, hchanged⟩ :=
            @IsList.insert _ _ h t n t ts [] pObj _ m ht' hm rfl (by rw [List.append_nil]; omega)
          rw [List.append_nil] at hchanged
          have hkept := hchanged.kept_list hlist hapart
          have hstill := hchanged.kept_apart hlist hapart
          have hsum : (ts ++ [(n, pObj)]).length + R.length ≤ 2147483647 := by
            rw [List.length_append, List.length_singleton]
            omega
          rw [hrun, call_bind_apply]
          rcases ih hkept hchanged.list hstill (seen_last s L c) hless hsum with
            herror | ⟨h'', ts', hrest, hmore, hobjs⟩
          · exact .inl herror
          · refine .inr ⟨h'', ts', hrest, hchanged.trans hmore, ?_⟩
            rw [hobjs, List.map_append, List.append_assoc]
            rfl

/-- A new list is where nothing was allocated. -/
theorem newList_ok (hm : m.find h.live = some t) : ∃ h', h.newList m = .ok (t, h') ∧
    h'.IsList t [] ∧ SameOutside [t] h h' := by
  generalize hgot : { h with live := Function.update h.live t true } = got
  have halloc : h.alloc m = .ok (t, got) := by
    unfold alloc
    rw [hm, ← hgot]
  have hsame : SameOutside [t] h got := by
    intro a ha
    have hne : a ≠ t := by simpa using ha
    rw [← hgot]
    exact ⟨rfl, rfl, rfl, rfl, Function.update_of_ne hne ..⟩
  refine ⟨got.llNew t, ?_, llNew_isList got t, hsame.trans (llNew_same got t)⟩
  unfold newList
  rw [halloc]
  rfl

theorem newList_outOfMemory (hm : m.find h.live = none) : h.newList m = .error outOfMemory := by
  have halloc : h.alloc m = .error outOfMemory := by
    unfold alloc
    rw [hm]
  unfold newList
  rw [halloc]
  rfl

theorem IsList.llClone (hlist : h.IsList s cells) (it : ListIterator A)
    (hturns : cells.length < turns) :
    h.llClone m turns it (some s) func = .error outOfMemory ∨
      ∃ t h' h'' ts, h.llClone m turns it (some s) func = .ok (some t, h'') ∧
        m.find h.live = some t ∧ h.newList m = .ok (t, h') ∧ Changed h' h'' t [] ts ∧
        ts.map Prod.snd = (cells.map Prod.snd).filterMap (cloned func) := by
  unfold ListHeap.llClone
  dsimp only
  cases hm : m.find h.live with
  | none =>
    rw [newList_outOfMemory hm]
    exact .inl rfl
  | some t =>
    obtain ⟨h', hnew, ht, hsame⟩ := newList_ok hm
    have hout := fresh_apart hlist (m.fresh _ _ hm)
    have hapart : ∀ a ∈ s :: cells.map Prod.fst, a ∉ [t] := by
      intro a ha hat
      rw [List.mem_singleton.mp hat] at ha
      exact hout ha
    have hkept := hlist.of_same hsame hapart
    have hfits := hlist.fits
    rw [hnew, call_bind_apply]
    dsimp only [liInit]
    have hloop : ListHeap.cloneLoop m func t turns ⟨some s, s⟩ h' = .error outOfMemory ∨ _ :=
      IsList.cloneLoop (L := []) hkept ht hapart rfl hturns (by rw [List.length_nil]; omega)
    rcases hloop with herror | ⟨h'', ts, hrun, hchanged, hobjs⟩
    · rw [herror]
      exact .inl rfl
    · refine .inr ⟨t, h', h'', ts, ?_, rfl, rfl, hchanged, hobjs⟩
      rw [hrun]
      rfl

end Clones

section Runs

/-- The heap and the sequences that calls lead to. Each call is made on a list that was made
before, with turns enough for its elements. -/
inductive Reaches : ListHeap A O → (A → Option (List O)) → Prop
  | start (h : ListHeap A O) : Reaches h fun _ => none
  | new {h h' : ListHeap A O} {lists : A → Option (List O)} {t : A} (m : Allocator A)
    (hreach : Reaches h lists) (hrun : h.newList m = .ok (t, h')) :
    Reaches h' (Function.update lists t (some []))
  | call {h h' : ListHeap A O} {lists : A → Option (List O)} {s : A} {xs r : List O}
    (m : Allocator A) (turns : ℕ) (c : ListCall O) (hreach : Reaches h lists)
    (hs : lists s = some xs) (hturns : xs.length < turns) (hsafe : c.Safe xs)
    (hrun : c.run m turns s h = .ok (r, h')) :
    Reaches h' (Function.update lists s (some (c.apply xs).2))
  | clone {h h' : ListHeap A O} {lists : A → Option (List O)} {s t : A} {xs : List O}
    (m : Allocator A) (turns : ℕ) (it : ListIterator A) (func : Option (O → Option O))
    (hreach : Reaches h lists) (hs : lists s = some xs) (hturns : xs.length < turns)
    (hrun : h.llClone m turns it (some s) func = .ok (some t, h')) :
    Reaches h' (Function.update lists t (some (xs.filterMap (cloned func))))

variable {held : A → Option (List (A × O))}

/-- A call on one of the lists. -/
theorem Holds.change (hheld : Holds h held) (hs : held s = some cells)
    (hchanged : Changed h h' s cells cells') : Holds h' (Function.update held s (some cells')) := by
  have hold (t : A) (ts : List (A × O)) (hts : t ≠ s)
      (ht : Function.update held s (some cells') t = some ts) :
      held t = some ts ∧ h'.IsList t ts ∧
        ∀ a ∈ t :: ts.map Prod.fst, a ∉ s :: cells'.map Prod.fst := by
    rw [Function.update_of_ne hts] at ht
    have hlist := hheld.list t ts ht
    have hapart := hheld.apart t s ts cells ht hs hts
    exact ⟨ht, hchanged.kept_list hlist hapart, hchanged.kept_apart hlist hapart⟩
  have hown (ts : List (A × O)) (ht : Function.update held s (some cells') s = some ts) :
      ts = cells' := by
    rw [Function.update_self] at ht
    exact (Option.some.inj ht).symm
  constructor
  · intro t ts ht
    by_cases hts : t = s
    · subst hts
      rw [hown ts ht]
      exact hchanged.list
    · exact (hold t ts hts ht).2.1
  · intro t u ts us ht hu htu
    by_cases hts : t = s
    · subst hts
      obtain ⟨-, -, hout⟩ := hold u us (Ne.symm htu) hu
      rw [hown ts ht]
      exact fun a ha hmem => hout a hmem ha
    · by_cases hus : u = s
      · subst hus
        rw [hown us hu]
        exact (hold t ts hts ht).2.2
      · exact hheld.apart t u ts us (hold t ts hts ht).1 (hold u us hus hu).1 htu

/-- A new list. -/
theorem Holds.new (hheld : Holds h held) (hfree : h.live t = false) (ht : h'.IsList t [])
    (hsame : SameOutside [t] h h') : Holds h' (Function.update held t (some [])) := by
  have hout {s : A} {cells : List (A × O)} (hs : held s = some cells) :
      ∀ a ∈ s :: cells.map Prod.fst, a ∉ [t] := by
    intro a ha hat
    rw [List.mem_singleton.mp hat] at ha
    exact fresh_apart (hheld.list s cells hs) hfree ha
  have hown (ts : List (A × O)) (hts : Function.update held t (some []) t = some ts) : ts = [] := by
    rw [Function.update_self] at hts
    exact (Option.some.inj hts).symm
  constructor
  · intro s cells hs
    by_cases hst : s = t
    · subst hst
      rw [hown cells hs]
      exact ht
    · rw [Function.update_of_ne hst] at hs
      exact (hheld.list s cells hs).of_same hsame (hout hs)
  · intro s u cells us hs hu hsu
    by_cases hst : s = t
    · subst hst
      rw [Function.update_of_ne hsu.symm] at hu
      rw [hown cells hs]
      exact fun a ha hmem => hout hu a hmem ha
    · rw [Function.update_of_ne hst] at hs
      by_cases hut : u = t
      · subst hut
        rw [hown us hu]
        exact hout hs
      · rw [Function.update_of_ne hut] at hu
        exact hheld.apart s u cells us hs hu hsu

theorem contents_update (s : A) (cells : List (A × O)) :
    contents (Function.update held s (some cells)) =
      Function.update (contents held) s (some (cells.map Prod.snd)) := by
  funext t
  unfold contents
  by_cases hts : t = s
  · rw [hts, Function.update_self, Function.update_self]
    rfl
  · rw [Function.update_of_ne hts, Function.update_of_ne hts]

/-- Every run leaves lists that are in order and apart. -/
theorem Reaches.holds {lists : A → Option (List O)} (hreach : Reaches h lists) :
    ∃ held, Holds h held ∧ contents held = lists := by
  induction hreach with
  | start h =>
    exact ⟨fun _ => none, ⟨fun _ _ hs => (nomatch hs), fun _ _ _ _ hs => nomatch hs⟩, rfl⟩
  | @new h h' lists t m _ hrun ih =>
    obtain ⟨held, hheld, rfl⟩ := ih
    cases hm : m.find h.live with
    | none =>
      rw [newList_outOfMemory hm] at hrun
      exact nomatch hrun
    | some u =>
      obtain ⟨h'', hnew, hlist, hsame⟩ := newList_ok hm
      obtain ⟨rfl, rfl⟩ := Prod.mk.inj (Except.ok.inj (hnew.symm.trans hrun))
      exact ⟨_, hheld.new (m.fresh _ _ hm) hlist hsame, contents_update ..⟩
  | @call h h' lists s xs r m turns c _ hs hturns hsafe hrun ih =>
    obtain ⟨held, hheld, rfl⟩ := ih
    obtain ⟨cells, hcells, rfl⟩ := contents_some hs
    rw [List.length_map] at hturns
    rcases (hheld.list s cells hcells).run_does hturns c hsafe with herror | hdone
    · rw [herror] at hrun
      exact nomatch hrun
    · obtain ⟨h'', cells', hok, hchanged, hobjs⟩ := hdone
      obtain ⟨-, rfl⟩ := Prod.mk.inj (Except.ok.inj (hok.symm.trans hrun))
      refine ⟨_, hheld.change hcells hchanged, ?_⟩
      rw [contents_update, hobjs]
  | @clone h h' lists s t xs m turns it func _ hs hturns hrun ih =>
    obtain ⟨held, hheld, rfl⟩ := ih
    obtain ⟨cells, hcells, rfl⟩ := contents_some hs
    rw [List.length_map] at hturns
    have hclone : h.llClone m turns it (some s) func = .error outOfMemory ∨ _ :=
      (hheld.list s cells hcells).llClone it hturns
    rcases hclone with herror | hdone
    · rw [herror] at hrun
      exact nomatch hrun
    · obtain ⟨u, h₁, h₂, ts, hok, hm, hnew, hchanged, hobjs⟩ := hdone
      obtain ⟨hut, rfl⟩ := Prod.mk.inj (Except.ok.inj (hok.symm.trans hrun))
      obtain rfl := Option.some.inj hut
      obtain ⟨h₃, hnew', hlist, hsame⟩ := newList_ok hm
      obtain ⟨-, rfl⟩ := Prod.mk.inj (Except.ok.inj (hnew'.symm.trans hnew))
      have hmade := hheld.new (m.fresh _ _ hm) hlist hsame
      refine ⟨_, hmade.change (Function.update_self ..) hchanged, ?_⟩
      rw [contents_update, contents_update, Function.update_idem, hobjs]

/-- In every state that a run of safe calls reaches, a list is a ring that holds its sequence, the
iterators go through it both ways, and every other safe call does to it what it does to the
sequence, if there is memory for it. -/
theorem calls_refine_sequences {lists : A → Option (List O)} {xs : List O} (m : Allocator A)
    (hreach : Reaches h lists) (hs : lists s = some xs) (hturns : xs.length < turns) :
    (∃ cells, h.IsList s cells ∧ cells.map Prod.snd = xs) ∧
    (∀ it, h.iterate h.liNext turns (liInit it (some s)) = .ok xs ∧
      h.iterate h.liPrev turns (liInit it (some s)) = .ok xs.reverse) ∧
    (∀ c : ListCall O, c.Safe xs → c.run m turns s h = .error outOfMemory ∨
      ∃ h', c.run m turns s h = .ok ((c.apply xs).1, h')) ∧
    ∀ it func, h.llClone m turns it (some s) func = .error outOfMemory ∨
      ∃ t h', h.llClone m turns it (some s) func = .ok (some t, h') ∧ lists t = none := by
  obtain ⟨held, hheld, rfl⟩ := hreach.holds
  obtain ⟨cells, hcells, rfl⟩ := contents_some hs
  rw [List.length_map] at hturns
  have hlist := hheld.list s cells hcells
  refine ⟨⟨cells, hlist, rfl⟩, ?_, ?_, ?_⟩
  · intro it
    have hforward := @IsList.iterate_next _ _ h s s [] cells turns _ hlist rfl hturns
    rw [← List.append_nil cells] at hlist
    have hback := hlist.iterate_prev rfl hturns
    exact ⟨hforward, hback⟩
  · intro c hsafe
    rcases hlist.run_does hturns c hsafe with herror | ⟨h', cells', hok, -, -⟩
    · exact .inl herror
    · exact .inr ⟨h', hok⟩
  · intro it func
    have hclone : h.llClone m turns it (some s) func = .error outOfMemory ∨ _ :=
      hlist.llClone it hturns
    rcases hclone with herror | ⟨t, h', h'', ts, hok, hm, -, -, -⟩
    · exact .inl herror
    · refine .inr ⟨t, h'', hok, ?_⟩
      unfold contents
      rw [hheld.not_held (m.fresh _ _ hm)]
      rfl

end Runs

/-- An allocator with memory for one list of one element. -/
def twoBlocks : Allocator ℕ where
  find live := [0, 1].find? fun a => !live a
  fresh live a ha := by
    have hfree := List.find?_some ha
    exact (Bool.not_eq_true' _).mp hfree

theorem reaches_one : ∃ (h : ListHeap ℕ ℕ) (lists : ℕ → Option (List ℕ)),
    Reaches h lists ∧ lists 0 = some [7] := by
  let start : ListHeap ℕ ℕ := ⟨⟨id, id⟩, fun _ => none, fun _ => 0, fun _ => false⟩
  have hnew := Reaches.new twoBlocks (.start start) rfl
  have hlist : Function.update (fun _ : ℕ => (none : Option (List ℕ))) 0 (some []) 0 = some [] :=
    rfl
  have hpush := Reaches.call twoBlocks 1 (.push 7) hnew hlist (by decide)
    (show 0 < 2147483647 by decide) rfl
  exact ⟨_, _, hpush, rfl⟩

/-- An allocator with memory for one list of three elements. -/
def fourBlocks : Allocator ℕ where
  find live := [0, 1, 2, 3].find? fun a => !live a
  fresh live a ha := by
    have hfree := List.find?_some ha
    exact (Bool.not_eq_true' _).mp hfree

/-- `LL_push` of 7 and 9 and `LL_unshift` of 5 -/
theorem reaches_three : ∃ (h : ListHeap ℕ ℕ) (lists : ℕ → Option (List ℕ)),
    Reaches h lists ∧ lists 0 = some [5, 7, 9] := by
  let start : ListHeap ℕ ℕ := ⟨⟨id, id⟩, fun _ => none, fun _ => 0, fun _ => false⟩
  have hlist {lists : ℕ → Option (List ℕ)} (xs : List ℕ) :
      Function.update lists 0 (some xs) 0 = some xs := Function.update_self ..
  have hnew := Reaches.new fourBlocks (.start start) rfl
  have hpush := Reaches.call fourBlocks 3 (.push 7) hnew (hlist []) (by decide)
    (show 0 < 2147483647 by decide) rfl
  have hpush' := Reaches.call fourBlocks 3 (.push 9) hpush (hlist [7]) (by decide)
    (show 1 < 2147483647 by decide) rfl
  have hunshift := Reaches.call fourBlocks 3 (.unshift 5) hpush' (hlist [7, 9]) (by decide)
    (show 2 < 2147483647 by decide) rfl
  exact ⟨_, _, hunshift, rfl⟩

theorem calls_refine_sequences_three : ∃ (h : ListHeap ℕ ℕ) (lists : ℕ → Option (List ℕ)),
    (∃ cells, h.IsList 0 cells ∧ cells.map Prod.snd = [5, 7, 9]) ∧
    (∀ it, h.iterate h.liNext 4 (liInit it (some 0)) = .ok [5, 7, 9] ∧
      h.iterate h.liPrev 4 (liInit it (some 0)) = .ok [9, 7, 5]) ∧
    (∀ c : ListCall ℕ, c.Safe [5, 7, 9] → c.run fourBlocks 4 0 h = .error outOfMemory ∨
      ∃ h', c.run fourBlocks 4 0 h = .ok ((c.apply [5, 7, 9]).1, h')) ∧
    ∀ it func, h.llClone fourBlocks 4 it (some 0) func = .error outOfMemory ∨
      ∃ t h', h.llClone fourBlocks 4 it (some 0) func = .ok (some t, h') ∧ lists t = none := by
  obtain ⟨h, lists, hreach, hlist⟩ := reaches_three
  exact ⟨h, lists,
    calls_refine_sequences fourBlocks hreach hlist (by decide : [5, 7, 9].length < 4)⟩

/-- The lowest index is not turned away. -/
theorem lowest_index_undefined : ∃ (h : ListHeap ℕ ℕ) (lists : ℕ → Option (List ℕ)),
    Reaches h lists ∧ lists 0 = some [7] ∧
      h.llGet (some 0) (-2147483648) = .error .undefinedBehaviour ∧
      h.llExtract (some 0) (-2147483648) = .error .undefinedBehaviour := by
  obtain ⟨h, lists, hreach, hlist⟩ := reaches_one
  obtain ⟨held, hheld, rfl⟩ := hreach.holds
  obtain ⟨cells, hcells, hobjs⟩ := contents_some hlist
  have hone := hheld.list 0 cells hcells
  have hsize : (cells.length : ℤ) ≠ 0 := by
    rw [← List.length_map Prod.snd, hobjs]
    decide
  refine ⟨h, _, hreach, hlist, ?_, ?_⟩
  · unfold llGet
    dsimp only
    rw [hone.read_size, call_bind_apply, if_neg hsize, hone.getLink_lowest (by decide)]
    rfl
  · unfold llExtract
    dsimp only
    rw [hone.read_size, call_bind_apply, if_neg hsize, hone.getLink_lowest (by decide)]
    rfl

end ListHeap
end ConvertBinaryC
