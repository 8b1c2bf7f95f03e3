import ConvertBinaryC.UtilListCalls
import ConvertBinaryC.UtilListSplice

/-! Each call of `util/list.c` on one list does to the sequence of its objects what it is to do,
and leaves all other memory as it is. -/
namespace ConvertBinaryC

open RingRules FoldRules

variable {A O : Type}

namespace ListHeap

variable {h h' : ListHeap A O} {s n a b x : A} {cells cells' L R : List (A × O)} {pObj : O}

/-- A list after a call on it: nothing else has changed, and new links are where nothing was
allocated. -/
structure Changed (h h' : ListHeap A O) (s : A) (cells cells' : List (A × O)) : Prop where
  list : h'.IsList s cells'
  others : ∀ a, h.live a = true → a ∉ s :: cells.map Prod.fst → Kept h h' a
  owned : ∀ a ∈ cells'.map Prod.fst, a ∈ cells.map Prod.fst ∨ h.live a = false

theorem Changed.refl (hlist : h.IsList s cells) : Changed h h s cells cells :=
  ⟨hlist, fun _ _ _ => ⟨rfl, rfl, rfl, rfl, rfl⟩, fun _ ha => .inl ha⟩

theorem Changed.trans {h'' : ListHeap A O} {cells'' : List (A × O)}
    (h₁ : Changed h h' s cells cells') (h₂ : Changed h' h'' s cells' cells'') :
    Changed h h'' s cells cells'' := by
  have hlive (a : A) (ha : h.live a = true) (hout : a ∉ s :: cells.map Prod.fst) :
      h'.live a = true ∧ a ∉ s :: cells'.map Prod.fst := by
    refine ⟨(h₁.others a ha hout).2.2.2.2.trans ha, ?_⟩
    intro hmem
    rcases List.mem_cons.mp hmem with rfl | hmem
    · exact hout List.mem_cons_self
    · rcases h₁.owned a hmem with hold | hdead
      · exact hout (List.mem_cons_of_mem s hold)
      · exact Bool.noConfusion (hdead.symm.trans ha)
  refine ⟨h₂.list, ?_, ?_⟩
  · intro a ha hout
    obtain ⟨ha', hout'⟩ := hlive a ha hout
    obtain ⟨hn, hp, ho, hs, hl⟩ := h₁.others a ha hout
    obtain ⟨hn', hp', ho', hs', hl'⟩ := h₂.others a ha' hout'
    exact ⟨hn'.trans hn, hp'.trans hp, ho'.trans ho, hs'.trans hs, hl'.trans hl⟩
  · intro a ha
    rcases h₂.owned a ha with hmem | hdead
    · exact h₁.owned a hmem
    · by_cases hold : a ∈ s :: cells.map Prod.fst
      · rcases List.mem_cons.mp hold with rfl | hold
        · -- the list's own link stays allocated
          have hs := h₁.list.live a List.mem_cons_self
          exact Bool.noConfusion (hdead.symm.trans hs)
        · exact .inl hold
      · refine .inr (Bool.eq_false_of_not_eq_true fun ha' => ?_)
        exact Bool.noConfusion (hdead.symm.trans (hlive a ha' hold).1)

/-- Changes that stay within the list and one address that was free. -/
theorem Changed.of_same (hlist : h'.IsList s cells') (hfree : h.live n = false)
    (hsame : SameOutside (n :: s :: cells.map Prod.fst) h h')
    (howned : ∀ a ∈ cells'.map Prod.fst, a ∈ cells.map Prod.fst ∨ a = n) :
    Changed h h' s cells cells' := by
  refine ⟨hlist, ?_, ?_⟩
  · intro a ha hout
    apply hsame a
    intro hmem
    rcases List.mem_cons.mp hmem with rfl | hmem
    · exact Bool.noConfusion (hfree.symm.trans ha)
    · exact hout hmem
  · intro a ha
    rcases howned a ha with hold | rfl
    · exact .inl hold
    · exact .inr hfree

section Links
variable [DecidableEq A]

/-- The heap after `Insert` before `a`. -/
def inserted (h : ListHeap A O) (s n b a : A) (pObj : O) : ListHeap A O where
  links := (h.links.tie b n).tie n a
  pObj := Function.update h.pObj n (some pObj)
  size := Function.update h.size s (h.size s + 1)
  live := Function.update h.live n true

/-- The heap after `Extract`. -/
def extracted (h : ListHeap A O) (s x b a : A) : ListHeap A O where
  links := h.links.tie b a
  pObj := h.pObj
  size := Function.update h.size s (h.size s - 1)
  live := Function.update h.live x false

theorem insert_run {m : Allocator A} (hm : m.find h.live = some n) (hs : h.live s = true)
    (hb : h.live b = true) (ha : h.live a = true) (hba : h.links.Linked b a)
    (hint : IsInt (h.size s + 1)) : h.insert m s a pObj = .ok (inserted h s n b a pObj) := by
  have hfree := m.fresh _ _ hm
  have hne (c : A) (hc : h.live c = true) : c ≠ n := by
    rintro rfl
    exact Bool.noConfusion (hfree.symm.trans hc)
  have hbefore := hba.2
  have hsize : int (h.size s + 1) = .ok (h.size s + 1) := int_ok_iff.mpr ⟨hint, rfl⟩
  have hnext : Function.update (Function.update h.links.next n a) b n =
      Function.update (Function.update h.links.next b n) n a :=
    Function.update_comm (hne b hb).symm ..
  simp [insert, alloc, hm, setObj, prev, setNext, setPrev, setSize, read, hs, hb, ha,
    hbefore, hne, hnext, hsize, inserted, Links.tie, bind, Except.bind]

theorem extract_run (hs : h.live s = true) (hx : h.live x = true) (hb : h.live b = true)
    (ha : h.live a = true) (hbx : h.links.Linked b x) (hxa : h.links.Linked x a) (hne : x ≠ b)
    (hint : IsInt (h.size s - 1)) :
    h.extract s x = .ok (h.pObj x, extracted h s x b a) := by
  have hbefore := hbx.2
  have hafter := hxa.1
  have hsize : int (h.size s - 1) = .ok (h.size s - 1) := int_ok_iff.mpr ⟨hint, rfl⟩
  simp [extract, next, prev, setNext, setPrev, setSize, free, read, hs, hx, hb, ha, hbefore,
    hafter, hne, hsize, extracted, Links.tie, bind, Except.bind]

variable {m : Allocator A}

theorem insert_outOfMemory (hm : m.find h.live = none) :
    h.insert m s a pObj = .error outOfMemory := by
  have halloc : h.alloc m = .error outOfMemory := by
    unfold alloc
    rw [hm]
  unfold insert
  rw [halloc]
  rfl

/-- `Insert` puts an object between those before and those after a link. -/
theorem IsList.insert (hlist : h.IsList s (L ++ R)) (hm : m.find h.live = some n)
    (ha : (R.map Prod.fst ++ [s]).head? = some a) (hfits : (L ++ R).length < 2147483647) :
    ∃ h', h.insert m s a pObj = .ok h' ∧ Changed h h' s (L ++ R) (L ++ (n, pObj) :: R) := by
  have hfree := m.fresh _ _ hm
  have hout := fresh_apart hlist hfree
  have hring := hlist.ring
  rw [List.map_append] at hring hout
  obtain ⟨b, hb⟩ : ∃ b, (s :: L.map Prod.fst).getLast? = some b :=
    ⟨_, List.getLast?_eq_some_getLast (List.cons_ne_nil _ _)⟩
  have hmem (c : A) (hc : c ∈ s :: L.map Prod.fst ∨ c ∈ R.map Prod.fst ++ [s]) :
      c ∈ s :: (L ++ R).map Prod.fst := by
    rw [List.map_append]
    grind
  have hball := hmem b (.inl (List.mem_of_getLast? hb))
  have haall := hmem a (.inr (List.mem_of_head? ha))
  have hsize := hlist.size
  have hint : IsInt (h.size s + 1) := by
    rw [hsize]
    exact ⟨by omega, by omega⟩
  have hrun : h.insert m s a pObj = .ok (inserted h s n b a pObj) :=
    insert_run hm (hlist.live s List.mem_cons_self) (hlist.live b hball)
      (hlist.live a haall) (hring.linked hb ha) hint
  have hnodup : (s :: (L.map Prod.fst ++ [n] ++ R.map Prod.fst)).Nodup := by
    have hall := hring.nodup
    grind
  have hlast : [n].getLast? = some n := rfl
  have htied := hring.insert (List.isChain_singleton n) hnodup hb ha rfl hlast
  have hne (c : A) (hc : c ∈ s :: (L ++ R).map Prod.fst) : c ≠ n := by
    rintro rfl
    rw [List.map_append] at hc
    exact hout hc
  refine ⟨_, hrun, Changed.of_same ⟨?_, ?_, ?_, ?_, ?_, ?_⟩ hfree ?_ ?_⟩
  · rw [List.map_append, List.map_cons]
    rw [List.append_assoc] at htied
    exact htied
  · intro c hc
    by_cases hcn : c = n
    · rw [hcn]
      exact Function.update_self ..
    · refine (Function.update_of_ne hcn ..).trans (hlist.live c ?_)
      rw [List.map_append] at hc ⊢
      rw [List.map_cons] at hc
      grind
  · exact (Function.update_of_ne (hne s List.mem_cons_self) ..).trans hlist.head
  · intro c hc
    rcases List.mem_append.mp hc with hc | hc
    · have hold := List.mem_append_left R hc
      have hcn := hne c.1 (List.mem_cons_of_mem s (List.mem_map_of_mem hold))
      exact (Function.update_of_ne hcn ..).trans (hlist.objs c hold)
    · rcases List.mem_cons.mp hc with rfl | hc
      · exact Function.update_self ..
      · have hold := List.mem_append_right L hc
        have hcn := hne c.1 (List.mem_cons_of_mem s (List.mem_map_of_mem hold))
        exact (Function.update_of_ne hcn ..).trans (hlist.objs c hold)
  · refine (Function.update_self ..).trans ?_
    rw [hsize, List.length_append, List.length_append, List.length_cons]
    push_cast
    ring
  · rw [List.length_append] at hfits ⊢
    rw [List.length_cons]
    omega
  · intro c hc
    have hcn : c ≠ n := fun heq => hc (heq ▸ List.mem_cons_self)
    have hcs : c ∉ s :: (L ++ R).map Prod.fst := fun hmem => hc (List.mem_cons_of_mem n hmem)
    have hcb : c ≠ b := fun heq => hcs (heq ▸ hball)
    have hca : c ≠ a := fun heq => hcs (heq ▸ haall)
    have hcs' : c ≠ s := fun heq => hcs (heq ▸ List.mem_cons_self)
    refine ⟨?_, ?_, Function.update_of_ne hcn .., Function.update_of_ne hcs' ..,
      Function.update_of_ne hcn ..⟩
    · exact (Function.update_of_ne hcn ..).trans (Function.update_of_ne hcb ..)
    · exact (Function.update_of_ne hca ..).trans (Function.update_of_ne hcn ..)
  · intro c hc
    rw [List.map_append, List.map_cons] at hc
    rw [List.map_append]
    grind

/-- `Extract` returns the object of a link and takes the link out. -/
theorem IsList.extract {c : A × O} (hlist : h.IsList s (L ++ c :: R)) :
    ∃ h', h.extract s c.1 = .ok (some c.2, h') ∧ Changed h h' s (L ++ c :: R) (L ++ R) := by
  have hring := hlist.ring
  rw [List.map_append, List.map_cons] at hring
  obtain ⟨b, hb⟩ : ∃ b, (s :: L.map Prod.fst).getLast? = some b :=
    ⟨_, List.getLast?_eq_some_getLast (List.cons_ne_nil _ _)⟩
  obtain ⟨a, ha⟩ : ∃ a, (R.map Prod.fst ++ [s]).head? = some a :=
    ⟨_, List.head?_eq_some_head (by simp)⟩
  have hmem (d : A) (hd : d ∈ s :: L.map Prod.fst ∨ d ∈ R.map Prod.fst ++ [s]) :
      d ∈ s :: (L ++ c :: R).map Prod.fst := by
    rw [List.map_append, List.map_cons]
    grind
  have hball := hmem b (.inl (List.mem_of_getLast? hb))
  have haall := hmem a (.inr (List.mem_of_head? ha))
  have hcall : c.1 ∈ s :: (L ++ c :: R).map Prod.fst := by
    rw [List.map_append, List.map_cons]
    grind
  have hnodup := hring.nodup
  have hbc : h.links.Linked b c.1 := hring.linked hb rfl
  have hca : h.links.Linked c.1 a := by
    have hring' := hring
    rw [← List.singleton_append, ← List.append_assoc] at hring'
    refine hring'.linked ?_ ha
    rw [← List.cons_append, List.getLast?_concat]
  have hcb : c.1 ≠ b := by
    have hbmem := List.mem_of_getLast? hb
    grind
  have hsize := hlist.size
  have hint : IsInt (h.size s - 1) := by
    have hfits := hlist.fits
    rw [hsize]
    rw [List.length_append, List.length_cons] at hfits ⊢
    exact ⟨by omega, by omega⟩
  have hrun := extract_run (hlist.live s List.mem_cons_self) (hlist.live c.1 hcall)
    (hlist.live b hball) (hlist.live a haall) hbc hca hcb hint
  rw [hlist.objs c (by simp)] at hrun
  have hremoved : (h.links.tie b a).Ring s (L.map Prod.fst ++ R.map Prod.fst) := by
    have hring' := hring
    rw [← List.singleton_append, ← List.append_assoc] at hring'
    exact (hring'.remove hb ha).1
  have hcs : c.1 ≠ s := by grind
  refine ⟨_, hrun, ⟨?_, ?_, hlist.head, ?_, ?_, ?_⟩, ?_, ?_⟩
  · rw [List.map_append]
    exact hremoved
  · intro d hd
    have hdc : d ≠ c.1 := by
      rw [List.map_append] at hd
      grind
    refine (Function.update_of_ne hdc ..).trans (hlist.live d ?_)
    rw [List.map_append] at hd ⊢
    rw [List.map_cons]
    grind
  · intro d hd
    apply hlist.objs d
    grind
  · refine (Function.update_self ..).trans ?_
    rw [hsize, List.length_append, List.length_append, List.length_cons]
    push_cast
    ring
  · have hfits := hlist.fits
    rw [List.length_append, List.length_cons] at hfits
    rw [List.length_append]
    omega
  · intro d _ hd
    have hdb : d ≠ b := fun heq => hd (heq ▸ hball)
    have hda : d ≠ a := fun heq => hd (heq ▸ haall)
    have hds : d ≠ s := fun heq => hd (heq ▸ List.mem_cons_self)
    have hdc : d ≠ c.1 := fun heq => hd (heq ▸ hcall)
    exact ⟨Function.update_of_ne hdb .., Function.update_of_ne hda .., rfl,
      Function.update_of_ne hds .., Function.update_of_ne hdc ..⟩
  · intro d hd
    rw [List.map_append] at hd
    rw [List.map_append, List.map_cons]
    grind

end Links

section Places

theorem place_some {count i : ℕ} {item : ℤ} (hplace : ListCall.place count item = some i) :
    i < count ∧ (item = if item < 0 then (i : ℤ) - count else i) ∧
      splicePlace count item = some i ∧ item ≠ count := by
  have hrange : -(count : ℤ) ≤ item ∧ item < count := by
    by_contra hout
    rw [ListCall.place, if_neg hout] at hplace
    exact nomatch hplace
  rw [ListCall.place, if_pos hrange] at hplace
  have hi := Option.some.inj hplace
  refine ⟨?_, ?_, ?_, by omega⟩
  · split_ifs at hi <;> omega
  · split_ifs at hi ⊢ <;> omega
  · rw [splicePlace, if_pos ⟨hrange.1, hrange.2.le⟩, hplace]

theorem place_none {count : ℕ} {item : ℤ} (hplace : ListCall.place count item = none) :
    item < -(count : ℤ) ∨ (count : ℤ) ≤ item := by
  by_contra hin
  rw [ListCall.place, if_pos (by omega)] at hplace
  exact nomatch hplace

theorem cells_at {i : ℕ} (hi : i < cells.length) :
    ∃ L c R, cells = L ++ c :: R ∧ L.length = i := by
  refine ⟨cells.take i, cells[i], cells.drop (i + 1), ?_, ?_⟩
  · rw [List.cons_getElem_drop_succ, List.take_append_drop]
  · rw [List.length_take, Nat.min_eq_left hi.le]

/-- An index that means a place finds the link there. -/
theorem IsList.getLink_element (hlist : h.IsList s cells) {item : ℤ} {i : ℕ}
    (hplace : ListCall.place cells.length item = some i) :
    ∃ L c R, cells = L ++ c :: R ∧ L.length = i ∧ h.getLink s item = .ok (some c.1) := by
  obtain ⟨hi, -, hsplice, hend⟩ := place_some hplace
  obtain ⟨L, c, R, rfl, rfl⟩ := cells_at hi
  refine ⟨L, c, R, rfl, rfl, hlist.getLink_place hsplice hend ?_⟩
  rw [linksFrom, List.drop_left]
  rfl

theorem IsList.getLink_nowhere (hlist : h.IsList s cells) {item : ℤ}
    (hplace : ListCall.place cells.length item = none) (hmin : -2147483647 ≤ item) :
    h.getLink s item = .ok none := by
  by_cases hend : item = cells.length
  · have hneg : ¬ item < 0 := by omega
    rw [getLink, read_ok (hlist.live s List.mem_cons_self), hlist.size]
    change (if item < 0 then _ else _) = _
    rw [if_neg hneg, if_pos (by omega)]
  · apply hlist.getLink_outside _ hmin
    have hout := place_none hplace
    rw [splicePlace, if_neg (by omega)]

end Places

section Reads

/-- A call on the list runs out of memory, or hands out what it is to and leaves the sequence
that it is to. -/
def Does (h : ListHeap A O) (s : A) (cells : List (A × O)) (r : List O × List O)
    (run : Call (List O × ListHeap A O)) : Prop :=
  run = .error outOfMemory ∨ ∃ h' cells', run = .ok (r.1, h') ∧ Changed h h' s cells cells' ∧
    cells'.map Prod.snd = r.2

theorem IsList.same_does (hlist : h.IsList s cells) (pObjs : List O) :
    Does h s cells (pObjs, cells.map Prod.snd) (.ok (pObjs, h)) :=
  .inr ⟨h, cells, rfl, Changed.refl hlist, rfl⟩

theorem IsList.read_size (hlist : h.IsList s cells) : h.read h.size s = .ok (cells.length : ℤ) := by
  rw [read_ok (hlist.live s List.mem_cons_self), hlist.size]

/-- The first link, or the list's own one. -/
theorem IsList.next_own (hlist : h.IsList s cells)
    (ha : (cells.map Prod.fst ++ [s]).head? = some a) : h.next s = .ok a := by
  have hlink : h.links.Linked s a := @Links.Ring.linked _ _ s a s [] _ hlist.ring rfl ha
  rw [next_ok (hlist.live s List.mem_cons_self), hlink.1]

theorem IsList.prev_own {c : A × O} (hlist : h.IsList s (L ++ [c])) : h.prev s = .ok c.1 := by
  have hring := hlist.ring
  rw [← List.append_nil ((L ++ [c]).map Prod.fst)] at hring
  have hlast : (s :: (L ++ [c]).map Prod.fst).getLast? = some c.1 := by
    rw [List.map_append, ← List.cons_append]
    exact List.getLast?_concat
  have hlink : h.links.Linked c.1 s := hring.linked hlast rfl
  rw [prev_ok (hlist.live s List.mem_cons_self), hlink.2]

theorem IsList.insertLink_place (hlist : h.IsList s cells) {item : ℤ} {i : ℕ} (hitem : IsInt item)
    (hplace : ListCall.place (cells.length + 1) item = some i) :
    ∃ L R a, cells = L ++ R ∧ L.length = i ∧ (R.map Prod.fst ++ [s]).head? = some a ∧
      h.insertLink s item = .ok (some a) := by
  obtain ⟨hi, hvalue, -, -⟩ := place_some hplace
  have hend (hlast : i = cells.length) (hlink : h.insertLink s item = .ok (some s)) :
      ∃ L R a, cells = L ++ R ∧ L.length = i ∧ (R.map Prod.fst ++ [s]).head? = some a ∧
        h.insertLink s item = .ok (some a) :=
    ⟨cells, [], s, (List.append_nil cells).symm, hlast.symm, rfl, hlink⟩
  have hinner {found : ℤ} (hfound : ListCall.place cells.length found = some i)
      (hlink : h.insertLink s item = h.getLink s found) :
      ∃ L R a, cells = L ++ R ∧ L.length = i ∧ (R.map Prod.fst ++ [s]).head? = some a ∧
        h.insertLink s item = .ok (some a) := by
    obtain ⟨L, c, R, hcells, hL, hget⟩ := hlist.getLink_element hfound
    exact ⟨L, c :: R, c.1, hcells, hL, rfl, hlink.trans hget⟩
  unfold insertLink at hend hinner ⊢
  have hlow := hitem.1
  by_cases hneg : item < 0
  · rw [if_pos hneg] at hvalue hend hinner ⊢
    by_cases hminus : item = -1
    · rw [if_pos hminus] at hend ⊢
      exact hend (by omega) rfl
    · have hint : int (item + 1) = .ok (item + 1) := int_ok_iff.mpr ⟨⟨by omega, by omega⟩, rfl⟩
      rw [if_neg hminus, hint] at hinner
      rw [if_neg hminus, hint]
      refine hinner ?_ rfl
      rw [ListCall.place, if_pos (by omega), if_pos (by omega)]
      exact congrArg some (by omega)
  · rw [if_neg hneg] at hvalue hend hinner ⊢
    rw [hlist.read_size, call_bind_apply] at hend hinner ⊢
    by_cases hsize : item = cells.length
    · rw [if_pos hsize] at hend ⊢
      exact hend (by omega) rfl
    · rw [if_neg hsize] at hinner ⊢
      refine hinner ?_ rfl
      rw [ListCall.place, if_pos (by omega), if_neg hneg]
      exact congrArg some (by omega)

theorem IsList.insertLink_nowhere (hlist : h.IsList s cells) {item : ℤ} (hitem : IsInt item)
    (hplace : ListCall.place (cells.length + 1) item = none) : h.insertLink s item = .ok none := by
  have hout := place_none hplace
  have hlow := hitem.1
  push_cast at hout
  unfold insertLink
  by_cases hneg : item < 0
  · have hint : int (item + 1) = .ok (item + 1) := int_ok_iff.mpr ⟨⟨by omega, by omega⟩, rfl⟩
    rw [if_pos hneg, if_neg (by omega), hint, call_bind_apply]
    apply hlist.getLink_nowhere _ (by omega)
    rw [ListCall.place, if_neg (by omega)]
  · rw [if_neg hneg, hlist.read_size, call_bind_apply, if_neg (by omega)]
    apply hlist.getLink_nowhere _ (by omega)
    rw [ListCall.place, if_neg (by omega)]

/-- An object of the sequence, and what is before and after it. -/
theorem element_parts (L R : List (A × O)) (c : A × O) :
    ((L ++ c :: R).map Prod.snd)[L.length]? = some c.2 ∧
      ((L ++ c :: R).map Prod.snd).take L.length = L.map Prod.snd ∧
      ((L ++ c :: R).map Prod.snd).drop (L.length + 1) = R.map Prod.snd := by
  refine ⟨?_, ?_, ?_⟩
  · rw [List.getElem?_map, List.getElem?_append_right le_rfl, Nat.sub_self]
    rfl
  · rw [← List.map_take, List.take_left]
  · rw [← List.map_drop, ← List.drop_drop, List.drop_left]
    rfl

/-- A safe index is one that can be negated. -/
theorem safe_index {item : CInt} (hne : item.1 ≠ -2147483648) : -2147483647 ≤ item.1 := by
  have hlow := item.2.1
  omega

end Reads

section Calls
variable [DecidableEq A] {m : Allocator A}

theorem IsList.insert_does (hlist : h.IsList s (L ++ R))
    (ha : (R.map Prod.fst ++ [s]).head? = some a) (hfits : (L ++ R).length < 2147483647) :
    Does h s (L ++ R) ([], L.map Prod.snd ++ pObj :: R.map Prod.snd)
      (do
        let h ← h.insert m s a pObj
        .ok ([], h)) := by
  cases hm : m.find h.live with
  | none =>
    refine .inl ?_
    rw [insert_outOfMemory hm]
    rfl
  | some n =>
    obtain ⟨h', hrun, hchanged⟩ := @IsList.insert _ _ h s n a L R pObj _ m hlist hm ha hfits
    refine .inr ⟨h', _, ?_, hchanged, ?_⟩
    · rw [hrun]
      rfl
    · rw [List.map_append, List.map_cons]

theorem IsList.extract_does {c : A × O} (hlist : h.IsList s (L ++ c :: R)) :
    Does h s (L ++ c :: R) ([c.2], L.map Prod.snd ++ R.map Prod.snd)
      (do
        let (pObj, h) ← h.extract s c.1
        .ok (pObj.toList, h)) := by
  obtain ⟨h', hrun, hchanged⟩ := hlist.extract
  refine .inr ⟨h', _, ?_, hchanged, ?_⟩
  · rw [hrun]
    rfl
  · rw [List.map_append]

theorem IsList.push_does (hlist : h.IsList s cells) (hfits : cells.length < 2147483647) :
    Does h s cells ([], cells.map Prod.snd ++ [pObj]) ((ListCall.push pObj).run m 0 s h) := by
  rw [← List.append_nil cells] at hlist hfits
  have hinsert := @IsList.insert_does _ _ h s s cells [] pObj _ m hlist rfl hfits
  rw [List.append_nil] at hinsert
  exact hinsert

theorem IsList.unshift_does (hlist : h.IsList s cells) (hfits : cells.length < 2147483647) :
    Does h s cells ([], pObj :: cells.map Prod.snd) ((ListCall.unshift pObj).run m 0 s h) := by
  obtain ⟨a, ha⟩ : ∃ a, (cells.map Prod.fst ++ [s]).head? = some a :=
    ⟨_, List.head?_eq_some_head (by simp)⟩
  have hinsert := @IsList.insert_does _ _ h s a [] cells pObj _ m hlist ha hfits
  have hrun : (ListCall.unshift pObj).run m 0 s h =
      (do
        let h ← h.insert m s a pObj
        .ok ([], h)) := by
    unfold ListCall.run llUnshift
    dsimp only
    rw [hlist.next_own ha, call_bind_apply]
  rw [hrun]
  exact hinsert

theorem IsList.pop_does (hlist : h.IsList s cells) :
    Does h s cells ((cells.map Prod.snd).getLast?.toList, (cells.map Prod.snd).dropLast)
      (ListCall.pop.run m 0 s h) := by
  unfold ListCall.run llPop
  dsimp only
  rw [hlist.read_size, call_bind_apply]
  rcases List.eq_nil_or_concat' cells with rfl | ⟨L, c, rfl⟩
  · exact hlist.same_does []
  · have hne : ((L ++ [c]).length : ℤ) ≠ 0 := by
      rw [List.length_append, List.length_singleton]
      omega
    have hextract := hlist.extract_does
    rw [if_neg hne, hlist.prev_own, call_bind_apply]
    rw [List.map_append, List.map_singleton, List.getLast?_concat, List.dropLast_concat]
    rw [List.map_nil, List.append_nil] at hextract
    exact hextract

theorem IsList.shift_does (hlist : h.IsList s cells) :
    Does h s cells ((cells.map Prod.snd).head?.toList, (cells.map Prod.snd).tail)
      (ListCall.shift.run m 0 s h) := by
  unfold ListCall.run llShift
  dsimp only
  rw [hlist.read_size, call_bind_apply]
  cases cells with
  | nil => exact hlist.same_does []
  | cons c R =>
    have hne : ((c :: R).length : ℤ) ≠ 0 := by
      rw [List.length_cons]
      omega
    rw [if_neg hne, hlist.next_own rfl, call_bind_apply]
    exact @IsList.extract_does _ _ h s [] R _ c hlist

theorem IsList.llInsert_does (hlist : h.IsList s cells) (item : CInt)
    (hsafe : (ListCall.insert item pObj).Safe (cells.map Prod.snd)) :
    Does h s cells ((ListCall.insert item pObj).apply (cells.map Prod.snd))
      ((ListCall.insert item pObj).run m 0 s h) := by
  unfold ListCall.Safe at hsafe
  unfold ListCall.run ListCall.apply llInsert
  rw [List.length_map] at hsafe ⊢
  dsimp only
  cases hplace : ListCall.place (cells.length + 1) item.1 with
  | none =>
    rw [hlist.insertLink_nowhere item.2 hplace]
    exact hlist.same_does []
  | some i =>
    have hfits := hsafe (by rw [hplace]; exact Option.some_ne_none i)
    obtain ⟨L, R, a, rfl, rfl, ha, hlink⟩ := hlist.insertLink_place item.2 hplace
    have htake : ((L ++ R).map Prod.snd).take L.length = L.map Prod.snd := by
      rw [← List.map_take, List.take_left]
    have hdrop : ((L ++ R).map Prod.snd).drop L.length = R.map Prod.snd := by
      rw [← List.map_drop, List.drop_left]
    dsimp only
    rw [hlink, call_bind_apply, htake, hdrop]
    exact hlist.insert_does ha hfits

theorem IsList.llExtract_does (hlist : h.IsList s cells) (item : CInt)
    (hsafe : (ListCall.extract item).Safe (cells.map Prod.snd)) :
    Does h s cells ((ListCall.extract item).apply (cells.map Prod.snd))
      ((ListCall.extract item).run m 0 s h) := by
  unfold ListCall.Safe at hsafe
  unfold ListCall.run ListCall.apply llExtract
  dsimp only
  rw [hlist.read_size, call_bind_apply, List.length_map]
  by_cases hsize : (cells.length : ℤ) = 0
  · have hnil : cells = [] := List.length_eq_zero_iff.mp (by omega)
    subst hnil
    rw [if_pos hsize]
    have hplace : ListCall.place ([] : List (A × O)).length item.1 = none := by
      rw [ListCall.place, List.length_nil, if_neg (by omega)]
    rw [hplace]
    exact hlist.same_does []
  · have hne : item.1 ≠ -2147483648 := by
      apply hsafe.resolve_left
      intro hnil
      rw [List.map_eq_nil_iff] at hnil
      exact hsize (by rw [hnil]; rfl)
    rw [if_neg hsize]
    cases hplace : ListCall.place cells.length item.1 with
    | none =>
      rw [hlist.getLink_nowhere hplace (safe_index hne)]
      exact hlist.same_does []
    | some i =>
      obtain ⟨L, c, R, rfl, rfl, hget⟩ := hlist.getLink_element hplace
      obtain ⟨hobj, htake, hdrop⟩ := element_parts L R c
      dsimp only
      rw [hget, call_bind_apply, hobj, htake, hdrop]
      exact hlist.extract_does

theorem IsList.llGet_does (hlist : h.IsList s cells) (item : CInt)
    (hsafe : (ListCall.get item : ListCall O).Safe (cells.map Prod.snd)) :
    Does h s cells ((ListCall.get item).apply (cells.map Prod.snd))
      ((ListCall.get item).run m 0 s h) := by
  unfold ListCall.Safe at hsafe
  unfold ListCall.run ListCall.apply llGet
  dsimp only
  rw [hlist.read_size, call_bind_apply, List.length_map]
  by_cases hsize : (cells.length : ℤ) = 0
  · have hnil : cells = [] := List.length_eq_zero_iff.mp (by omega)
    subst hnil
    rw [if_pos hsize]
    have hplace : ListCall.place ([] : List (A × O)).length item.1 = none := by
      rw [ListCall.place, List.length_nil, if_neg (by omega)]
    rw [hplace]
    exact hlist.same_does []
  · have hne : item.1 ≠ -2147483648 := by
      apply hsafe.resolve_left
      intro hnil
      rw [List.map_eq_nil_iff] at hnil
      exact hsize (by rw [hnil]; rfl)
    rw [if_neg hsize]
    cases hplace : ListCall.place cells.length item.1 with
    | none =>
      rw [hlist.getLink_nowhere hplace (safe_index hne)]
      exact hlist.same_does []
    | some i =>
      obtain ⟨L, c, R, rfl, rfl, hget⟩ := hlist.getLink_element hplace
      have hmem : c ∈ L ++ c :: R := by simp
      have hlive := hlist.live c.1 (List.mem_cons_of_mem s (List.mem_map_of_mem hmem))
      dsimp only
      rw [hget, call_bind_apply, (element_parts L R c).1]
      dsimp only
      rw [read_ok hlive, hlist.objs c hmem]
      exact hlist.same_does [c.2]

/-- Each turn of the loop removes the first element. -/
theorem IsList.flush_does (hlist : h.IsList s cells) {turns : ℕ} (hturns : cells.length < turns) :
    Does h s cells (cells.map Prod.snd, []) (flushLoop turns (some s) h) := by
  induction turns generalizing h cells with
  | zero => exact absurd hturns (Nat.not_lt_zero _)
  | succ turns ih =>
    unfold flushLoop
    cases cells with
    | nil =>
      have hshift : h.llShift (some s) = .ok (none, h) := by
        unfold llShift
        dsimp only
        rw [hlist.read_size]
        rfl
      rw [hshift]
      exact hlist.same_does []
    | cons c R =>
      have hne : ((c :: R).length : ℤ) ≠ 0 := by
        rw [List.length_cons]
        omega
      obtain ⟨h', hrun, hchanged⟩ := @IsList.extract _ _ h s [] R _ c hlist
      have hshift : h.llShift (some s) = .ok (some c.2, h') := by
        unfold llShift
        dsimp only
        rw [hlist.read_size, call_bind_apply, if_neg hne, hlist.next_own rfl]
        exact hrun
      rw [hshift, call_bind_apply]
      dsimp only
      rcases ih hchanged.list (Nat.lt_of_succ_lt_succ hturns) with herror | ⟨h'', cells'', hrest, hmore, hempty⟩
      · rw [List.nil_append] at *
        rw [herror]
        exact .inl rfl
      · rw [hrest]
        exact .inr ⟨h'', cells'', rfl, hchanged.trans hmore, hempty⟩

/-- The turns matter for the flush alone. -/
theorem IsList.run_does (hlist : h.IsList s cells) {turns : ℕ} (hturns : cells.length < turns)
    (c : ListCall O) (hsafe : c.Safe (cells.map Prod.snd)) :
    Does h s cells (c.apply (cells.map Prod.snd)) (c.run m turns s h) := by
  cases c with
  | push pObj =>
    apply hlist.push_does
    rwa [← List.length_map Prod.snd]
  | pop => exact hlist.pop_does (m := m)
  | unshift pObj =>
    apply hlist.unshift_does
    rwa [← List.length_map Prod.snd]
  | shift => exact hlist.shift_does (m := m)
  | insert item pObj => exact hlist.llInsert_does item hsafe
  | extract item => exact hlist.llExtract_does (m := m) item hsafe
  | get item => exact hlist.llGet_does (m := m) item hsafe
  | flush => exact hlist.flush_does hturns

end Calls

end ListHeap
end ConvertBinaryC
