import ConvertBinaryC.UtilListWalk

/-! `LL_splice` against the splice of sequences. -/
namespace ConvertBinaryC

open RingRules

variable {A O : Type}

namespace ListHeap

variable {h h' : ListHeap A O} {s n a b x y : A} {cells : List (A × O)} {changed : List A}

section Apart
variable {rlist : Option A} {rcells : List (A × O)}

/-- The replacement is a list of its own, or there is none. -/
def Replacement (h : ListHeap A O) (s : A) (cells : List (A × O)) (rlist : Option A)
    (rcells : List (A × O)) : Prop :=
  match rlist with
  | none => rcells = []
  | some r => h.IsList r rcells ∧ ∀ a ∈ r :: rcells.map Prod.fst, a ∉ s :: cells.map Prod.fst

/-- What is removed has no link in common with what stays and with the replacement. -/
theorem removed_apart (hs : h.IsList s cells) (hr : h.Replacement s cells rlist rcells)
    (hns : n ∉ s :: cells.map Prod.fst) (hfresh : ∀ r ∈ rlist, n ∉ r :: rcells.map Prod.fst)
    (i k : ℕ) : ∀ a ∈ n :: ((cells.drop i).take k).map Prod.fst,
      a ∉ s :: (cells.take i ++ rcells ++ cells.drop (i + k)).map Prod.fst ∧ a ∉ rlist := by
  have hnodup := hs.ring.nodup
  have hsplit := congrArg (List.map Prod.fst) (cells_split cells i k)
  rw [List.map_append, List.map_append] at hsplit
  simp only [List.map_append]
  cases rlist with
  | none =>
    have hnone : rcells = [] := hr
    subst hnone
    rw [hsplit] at hnodup hns
    grind
  | some r =>
    have hapart := hr.2
    have hn := hfresh r rfl
    rw [hsplit] at hnodup hns hapart
    have hr (a : A) (ha : a = r) : a ∉ n :: ((cells.drop i).take k).map Prod.fst := by
      rw [ha]
      have hrout := hapart r List.mem_cons_self
      grind
    intro a ha
    refine ⟨?_, fun heq => hr a (Option.some.inj heq).symm ha⟩
    generalize (cells.take i).map Prod.fst = L at *
    generalize ((cells.drop i).take k).map Prod.fst = M at *
    generalize (cells.drop (i + k)).map Prod.fst = R at *
    generalize rcells.map Prod.fst = X at *
    grind

end Apart

section Changes
variable [DecidableEq A] {v : A} (ha : h.live a = true)
include ha

theorem setSize_ok (size : ℤ) :
    h.setSize a size = .ok { h with size := Function.update h.size a size } := if_pos ha

theorem free_ok : h.free a = .ok { h with live := Function.update h.live a false } := if_pos ha

end Changes

section Relinking
variable [DecidableEq A] {m : A}

/-- The assignments that extract a segment from `m` to `y` tie three links. -/
theorem extractLinks_eq (hm : h.live m) (hy : h.live y) (hn : h.live n) (hb : h.live b)
    (ha : h.live a) (hbm : h.links.Linked b m) (hya : h.links.Linked y a) (hyb : y ≠ b)
    (hyn : y ≠ n) (hmn : m ≠ n) :
    h.extractLinks n m y =
      .ok (a, { h with links := ((h.links.tie b a).tie n m).tie y n }) := by
  have hbefore := hbm.2
  have hafter := hya.1
  have hprev : Function.update (Function.update (Function.update h.links.prev a b) n y) m n =
      Function.update (Function.update (Function.update h.links.prev a b) m n) n y :=
    Function.update_comm hmn.symm ..
  simp [extractLinks, next, prev, setNext, setPrev, read, hm, hy, hn, hb, ha, hbefore, hafter,
    hyb, hyn, hprev, Links.tie, bind, Except.bind]

/-- The assignments that insert the links of a list from `x` to `y` tie two links. -/
theorem insertLinks_eq {r : A} (ha : h.live a) (hr : h.live r) (hb : h.live b) (hx : h.live x)
    (hy : h.live y) (hba : h.links.Linked b a) (hrx : h.links.Linked r x)
    (hyr : h.links.Linked y r) (hxr : x ≠ r) (hyr' : y ≠ r) (hby : b ≠ y) :
    h.insertLinks r a = .ok { h with links := (h.links.tie b x).tie y a } := by
  have hbefore := hba.2
  have hfirst := hrx.1
  have hlast := hyr.2
  have hnext : Function.update (Function.update h.links.next y a) b x =
      Function.update (Function.update h.links.next b x) y a :=
    Function.update_comm hby.symm ..
  simp [insertLinks, next, prev, setNext, setPrev, read, hr, hy, hb, ha, hx, hbefore, hfirst,
    hlast, hxr.symm, hyr'.symm, hnext, Links.tie, bind, Except.bind]

/-- When the replacement is empty, its own link is made the one after `b`. -/
theorem insertLinks_empty {r : A} (ha : h.live a) (hr : h.live r) (hb : h.live b)
    (hba : h.links.Linked b a) (hrr : h.links.Linked r r) (hrb : r ≠ b) {h' : ListHeap A O}
    (hok : h.insertLinks r a = .ok h') : h'.links.next b = r := by
  have hbefore := hba.2
  have hfirst := hrr.1
  simp [insertLinks, next, prev, setNext, setPrev, read, hr, hb, ha, hbefore, hfirst, hrb,
    bind, Except.bind] at hok
  rw [← hok]
  simp

/-- Links that are tied inside of the changed addresses. -/
theorem SameOutside.tie {u v : A} (hsame : SameOutside changed h h') (hu : u ∈ changed)
    (hv : v ∈ changed) : SameOutside changed h { h' with links := h'.links.tie u v } := by
  intro c hc
  have hcu : c ≠ u := fun heq => hc (heq ▸ hu)
  have hcv : c ≠ v := fun heq => hc (heq ▸ hv)
  obtain ⟨hnext, hprev, hrest⟩ := hsame c hc
  exact ⟨(Function.update_of_ne hcu ..).trans hnext, (Function.update_of_ne hcv ..).trans hprev,
    hrest⟩

theorem SameOutside.setSize {u : A} (hsame : SameOutside changed h h') (size : ℤ)
    (hu : u ∈ changed) :
    SameOutside changed h { h' with size := Function.update h'.size u size } := by
  intro c hc
  have hcu : c ≠ u := fun heq => hc (heq ▸ hu)
  obtain ⟨hnext, hprev, hobj, hsize, hlive⟩ := hsame c hc
  exact ⟨hnext, hprev, hobj, (Function.update_of_ne hcu ..).trans hsize, hlive⟩

/-- What `spliceOut` leaves behind. -/
structure SplicedOut (h h' : ListHeap A O) (n s a : A) (cells : List (A × O)) (i k : ℕ) :
    Prop where
  after : (linksFrom s cells (i + k)).head? = some a
  list : h'.IsList s (cells.take i ++ cells.drop (i + k))
  removed : h'.IsList n ((cells.drop i).take k)
  same : SameOutside (n :: s :: cells.map Prod.fst) h h'

theorem spliceOut_none (hs : h.IsList s cells) (hn : h.IsList n []) {i : ℕ}
    (hm : (linksFrom s cells i).head? = some m) :
    h.spliceOut n s m 0 = .ok (m, h) ∧ SplicedOut h h n s m cells i 0 := by
  refine ⟨if_neg (by decide), ⟨hm, ?_, hn, SameOutside.refl _ h⟩⟩
  rwa [Nat.add_zero, List.take_append_drop]

/-- The order of the steps: count, move the links, write the sizes. -/
theorem spliceOut_run {h₁ : ListHeap A O} {length k count : ℤ} (hlength : 0 < length)
    (hextent : h.extent length 0 m = .ok (k, y)) (hn : h.live n)
    (hextract : ({ h with size := Function.update h.size n k } : ListHeap A O).extractLinks n m y =
      .ok (a, h₁)) (hs : h₁.live s) (hsize : h₁.size s = count) (hint : IsInt (count - k)) :
    h.spliceOut n s m length =
      .ok (a, { h₁ with size := Function.update h₁.size s (count - k) }) := by
  have hleft : int (count - k) = .ok (count - k) := int_ok_iff.mpr ⟨hint, rfl⟩
  rw [spliceOut, if_pos hlength, hextent]
  change (h.setSize n k >>= _) = _
  rw [setSize_ok hn]
  change (extractLinks _ n m y >>= _) = _
  rw [hextract]
  change (h₁.read h₁.size s >>= _) = _
  rw [read_ok hs, hsize]
  change (int (count - k) >>= _) = _
  rw [hleft]
  change (h₁.setSize s (count - k) >>= _) = _
  rw [setSize_ok hs]
  rfl

theorem spliceOut_some (hs : h.IsList s cells) (hn : h.IsList n [])
    (hapart : n ∉ s :: cells.map Prod.fst) {i : ℕ} {length : ℤ} (hlength : 0 < length)
    (hi : i < cells.length) (hm : (linksFrom s cells i).head? = some m) :
    ∃ a h', h.spliceOut n s m length = .ok (a, h') ∧
      SplicedOut h h' n s a cells i (min length.toNat (cells.length - i)) := by
  have hkrest : min length.toNat (cells.length - i) ≤ cells.length - i := min_le_right _ _
  have hkpos : 1 ≤ min length.toNat (cells.length - i) := by omega
  have hextent := fun y => hs.extent_ok (y := y) hlength hi hm
  generalize min length.toNat (cells.length - i) = k at hkrest hkpos hextent ⊢
  have hring := hs.ring
  have hsn : s ≠ n := fun heq => hapart (heq ▸ List.mem_cons_self)
  -- the ring before, cut into what stays and what goes
  have hsplit := congrArg (List.map Prod.fst) (cells_split cells i k)
  rw [List.map_append, List.map_append] at hsplit
  have htaken : ((cells.drop i).take k).length = k := by
    rw [List.length_take, List.length_drop]; omega
  have hnonempty : ((cells.drop i).take k).map Prod.fst ≠ [] := by
    rw [← List.length_pos_iff, List.length_map]; omega
  obtain ⟨b, hb⟩ : ∃ b, (s :: (cells.take i).map Prod.fst).getLast? = some b :=
    ⟨_, List.getLast?_eq_some_getLast (List.cons_ne_nil _ _)⟩
  obtain ⟨a, ha⟩ : ∃ a, (linksFrom s cells (i + k)).head? = some a :=
    ⟨_, List.head?_eq_some_head (by simp [linksFrom])⟩
  obtain ⟨y, hy⟩ : ∃ y, ((cells.drop i).take k |>.map Prod.fst).getLast? = some y :=
    ⟨_, List.getLast?_eq_some_getLast hnonempty⟩
  have hfirst : ((cells.drop i).take k |>.map Prod.fst).head? = some m := by
    have hfirst : ((cells.drop i).map Prod.fst).head? = some m := by
      obtain ⟨c, rest, hdrop⟩ : ∃ c rest, cells.drop i = c :: rest :=
        List.exists_cons_of_length_pos (by rw [List.length_drop]; omega)
      rw [linksFrom, hdrop] at hm
      rw [hdrop]
      exact hm
    rw [List.map_take, List.head?_take, if_neg (by omega)]
    exact hfirst
  rw [hsplit] at hring
  have hnall : n ∉ s :: ((cells.take i).map Prod.fst ++
      ((cells.drop i).take k).map Prod.fst ++ (cells.drop (i + k)).map Prod.fst) := hsplit ▸ hapart
  have hbm : h.links.Linked b m := by
    have hassoc := hring
    rw [List.append_assoc] at hassoc
    apply hassoc.linked hb
    rw [List.append_assoc, List.head?_append, hfirst]
    rfl
  have hya : h.links.Linked y a := by
    apply hring.linked _ ha
    rw [List.getLast?_cons, List.getLast?_append, hy]
    rfl
  have hmove := hring.move hnall hb ha hfirst hy
  have hmM := List.mem_of_head? hfirst
  have hyM := List.mem_of_getLast? hy
  have hbL := List.mem_of_getLast? hb
  have haR := List.mem_of_head? ha
  have hyall : y ∈ s :: cells.map Prod.fst := by rw [hsplit]; grind
  have hmall : m ∈ s :: cells.map Prod.fst := by rw [hsplit]; grind
  have hball : b ∈ s :: cells.map Prod.fst := by rw [hsplit]; grind
  have haall : a ∈ s :: cells.map Prod.fst := by rw [hsplit]; grind [linksFrom]
  have hnodup := hring.nodup
  have hyb : y ≠ b := by grind
  have hyn : y ≠ n := fun heq => hapart (heq ▸ hyall)
  have hmn : m ≠ n := fun heq => hapart (heq ▸ hmall)
  have hnlive : h.live n = true := hn.live n List.mem_cons_self
  have hfits := hs.fits
  -- the run: count, move the links, write the sizes
  have hextract : ({ h with size := Function.update h.size n (k : ℤ) }).extractLinks n m y = _ :=
    extractLinks_eq (hs.live m hmall) (hs.live y hyall) hnlive (hs.live b hball)
      (hs.live a haall) hbm hya hyb hyn hmn
  have hsize : Function.update h.size n (k : ℤ) s = cells.length :=
    (Function.update_of_ne hsn ..).trans hs.size
  have hint : IsInt ((cells.length : ℤ) - k) := ⟨by omega, by omega⟩
  have hrun := spliceOut_run hlength (hextent y hy) hnlive hextract
    (hs.live s List.mem_cons_self) hsize hint
  refine ⟨a, _, hrun, ?_⟩
  have hlen : (cells.take i ++ cells.drop (i + k)).length = cells.length - k := by
    rw [List.length_append, List.length_take, List.length_drop]; omega
  refine ⟨ha, ⟨?_, ?_, hs.head, ?_, ?_, ?_⟩, ⟨?_, ?_, hn.head, ?_, ?_, ?_⟩, ?_⟩
  · rw [List.map_append]; exact hmove.1
  · intro c hc
    apply hs.live
    rw [hsplit]
    rw [List.map_append] at hc
    grind
  · intro c hc
    apply hs.objs
    rw [cells_split cells i k]
    grind
  · rw [hlen]
    exact (Function.update_self ..).trans (by omega)
  · rw [hlen]
    omega
  · exact hmove.2
  · intro c hc
    rcases List.mem_cons.mp hc with rfl | hc
    · exact hnlive
    · apply hs.live
      rw [hsplit]
      grind
  · intro c hc
    apply hs.objs
    rw [cells_split cells i k]
    grind
  · rw [htaken]
    exact (Function.update_of_ne hsn.symm ..).trans (Function.update_self ..)
  · rw [htaken]; omega
  · have hin (w : A) (hw : w ∈ s :: cells.map Prod.fst) : w ∈ n :: s :: cells.map Prod.fst :=
      List.mem_cons_of_mem n hw
    have hsized := (SameOutside.refl (n :: s :: cells.map Prod.fst) h).setSize (k : ℤ)
      List.mem_cons_self
    have hcut := hsized.tie (hin b hball) (hin a haall)
    have hclosed := (hcut.tie List.mem_cons_self (hin m hmall)).tie (hin y hyall)
      List.mem_cons_self
    exact hclosed.setSize _ (hin s List.mem_cons_self)

theorem SameOutside.free {u : A} (hsame : SameOutside changed h h') (hu : u ∈ changed) :
    SameOutside changed h { h' with live := Function.update h'.live u false } := by
  intro c hc
  have hcu : c ≠ u := fun heq => hc (heq ▸ hu)
  obtain ⟨hnext, hprev, hobj, hsize, hlive⟩ := hsame c hc
  exact ⟨hnext, hprev, hobj, hsize, (Function.update_of_ne hcu ..).trans hlive⟩

theorem spliceIn_run {r : A} {h₁ : ListHeap A O} {count more : ℤ}
    (hinsert : h.insertLinks r a = .ok h₁) (hs : h₁.live s) (hr : h₁.live r)
    (hsize : h₁.size s = count) (hmore : h₁.size r = more) (hint : IsInt (count + more)) :
    h.spliceIn s a (some r) =
      .ok { h₁ with
        size := Function.update h₁.size s (count + more)
        live := Function.update h₁.live r false } := by
  have hsum : int (count + more) = .ok (count + more) := int_ok_iff.mpr ⟨hint, rfl⟩
  rw [spliceIn, hinsert]
  change (h₁.read h₁.size s >>= _) = _
  rw [read_ok hs, hsize]
  change (h₁.read h₁.size r >>= _) = _
  rw [read_ok hr, hmore]
  change (int (count + more) >>= _) = _
  rw [hsum]
  change (h₁.setSize s (count + more) >>= _) = _
  rw [setSize_ok hs]
  exact free_ok hr

variable {L R X : List (A × O)} {r : A}

theorem spliceIn_some (hs : h.IsList s (L ++ R)) (hr : h.IsList r X) (hX : X ≠ [])
    (hapart : ∀ c ∈ r :: X.map Prod.fst, c ∉ s :: (L ++ R).map Prod.fst)
    (ha : (R.map Prod.fst ++ [s]).head? = some a)
    (hfits : ((L ++ X ++ R).length : ℤ) ≤ 2147483647) :
    ∃ h', h.spliceIn s a (some r) = .ok h' ∧ h'.IsList s (L ++ X ++ R) ∧ h'.live r = false ∧
      SameOutside (s :: r :: (L ++ X ++ R).map Prod.fst) h h' := by
  have hring := hs.ring
  have hrring := hr.ring
  rw [List.map_append] at hring
  have hne : X.map Prod.fst ≠ [] := by simpa using hX
  obtain ⟨b, hb⟩ : ∃ b, (s :: L.map Prod.fst).getLast? = some b :=
    ⟨_, List.getLast?_eq_some_getLast (List.cons_ne_nil _ _)⟩
  obtain ⟨x, hx⟩ : ∃ x, (X.map Prod.fst).head? = some x := ⟨_, List.head?_eq_some_head hne⟩
  obtain ⟨y, hy⟩ : ∃ y, (X.map Prod.fst).getLast? = some y :=
    ⟨_, List.getLast?_eq_some_getLast hne⟩
  rw [List.map_append] at hapart
  have hxX := List.mem_of_head? hx
  have hyX := List.mem_of_getLast? hy
  have hbL := List.mem_of_getLast? hb
  have haR := List.mem_of_head? ha
  have hsnodup := hring.nodup
  have hrnodup := hrring.nodup
  have hnodup : (s :: (L.map Prod.fst ++ X.map Prod.fst ++ R.map Prod.fst)).Nodup := by grind
  have hball : b ∈ s :: (L.map Prod.fst ++ R.map Prod.fst) := by grind
  have haall : a ∈ s :: (L.map Prod.fst ++ R.map Prod.fst) := by grind
  have hlive (c : A) (hc : c ∈ s :: (L.map Prod.fst ++ R.map Prod.fst)) : h.live c = true :=
    hs.live c (by rwa [List.map_append])
  have hXpath : h.links.Path (X.map Prod.fst) :=
    (List.isChain_append.mp hrring.cut_tail.right).1
  have hring' := hring.insert hXpath hnodup hb ha hx hy
  have hrx : h.links.Linked r x := by
    have hhead : (X.map Prod.fst ++ [r]).head? = some x := by rw [List.head?_append, hx]; rfl
    exact Links.Ring.linked (L := []) hrring rfl hhead
  have hyr : h.links.Linked y r := by
    have hall : h.links.Ring r (X.map Prod.fst ++ []) := by rwa [List.append_nil]
    apply hall.linked _ rfl
    rw [List.getLast?_cons, hy]
    rfl
  have hinsert := insertLinks_eq (hlive a haall) (hr.live r List.mem_cons_self) (hlive b hball)
    (hr.live x (List.mem_cons_of_mem r hxX)) (hr.live y (List.mem_cons_of_mem r hyX))
    (hring.linked hb ha) hrx hyr (by grind) (by grind) (by grind)
  have hlength : ((L ++ R).length : ℤ) + X.length = (L ++ X ++ R).length := by
    simp only [List.length_append]; omega
  have hrun := spliceIn_run hinsert (hs.live s List.mem_cons_self) (hr.live r List.mem_cons_self)
    hs.size hr.size ⟨by omega, by omega⟩
  have hmap : (L ++ X ++ R).map Prod.fst =
      L.map Prod.fst ++ X.map Prod.fst ++ R.map Prod.fst := by
    rw [List.map_append, List.map_append]
  refine ⟨_, hrun, ⟨?_, ?_, hs.head, ?_, ?_, hfits⟩, Function.update_self .., ?_⟩
  · rw [hmap]; exact hring'
  · intro c hc
    have hrout : r ∉ s :: (L.map Prod.fst ++ R.map Prod.fst) := hapart r List.mem_cons_self
    have hrX : r ∉ X.map Prod.fst := (List.nodup_cons.mp hrnodup).1
    rw [hmap] at hc
    have hcr : c ≠ r := by grind
    refine (Function.update_of_ne hcr ..).trans ?_
    by_cases hcX : c ∈ X.map Prod.fst
    · exact hr.live c (List.mem_cons_of_mem r hcX)
    · exact hlive c (by grind)
  · intro c hc
    by_cases hcX : c ∈ X
    · exact hr.objs c hcX
    · exact hs.objs c (by grind)
  · exact (Function.update_self ..).trans hlength
  · have hin (w : A) (hw : w ∈ s :: (L.map Prod.fst ++ X.map Prod.fst ++ R.map Prod.fst)) :
        w ∈ s :: r :: (L ++ X ++ R).map Prod.fst := by
      rw [hmap]
      grind
    have hrin : r ∈ s :: r :: (L ++ X ++ R).map Prod.fst := by simp
    have hfirst := (SameOutside.refl (s :: r :: (L ++ X ++ R).map Prod.fst) h).tie
      (hin b (by grind)) (hin x (by grind))
    have hboth := hfirst.tie (hin y (by grind)) (hin a (by grind))
    exact (hboth.setSize _ List.mem_cons_self).free hrin

/-- An empty replacement does not get that far: the list is linked with the freed one. -/
theorem spliceIn_empty (hs : h.IsList s (L ++ R)) (hr : h.IsList r [])
    (hapart : r ∉ s :: (L ++ R).map Prod.fst) (ha : (R.map Prod.fst ++ [s]).head? = some a)
    (hb : (s :: L.map Prod.fst).getLast? = some b) (hok : h.spliceIn s a (some r) = .ok h') :
    h'.links.next b = r ∧ h'.live r = false := by
  have hring := hs.ring
  rw [List.map_append] at hring hapart
  have hbL := List.mem_of_getLast? hb
  have haR := List.mem_of_head? ha
  have hlive (c : A) (hc : c ∈ s :: (L.map Prod.fst ++ R.map Prod.fst)) : h.live c = true :=
    hs.live c (by rwa [List.map_append])
  have hball : b ∈ s :: (L.map Prod.fst ++ R.map Prod.fst) := by grind
  have haall : a ∈ s :: (L.map Prod.fst ++ R.map Prod.fst) := by grind
  have hrr : h.links.Linked r r := Links.Ring.linked (L := []) hr.ring rfl rfl
  have hrb : r ≠ b := fun heq => hapart (heq ▸ hball)
  obtain ⟨h₁, hinsert, hok⟩ := FoldRules.bind_ok hok
  have hnext := insertLinks_empty (hlive a haall) (hr.live r List.mem_cons_self) (hlive b hball)
    (hring.linked hb ha) hrr hrb hinsert
  obtain ⟨size, -, hok⟩ := FoldRules.bind_ok hok
  obtain ⟨more, -, hok⟩ := FoldRules.bind_ok hok
  obtain ⟨sum, -, hok⟩ := FoldRules.bind_ok hok
  obtain ⟨h₂, hsized, hok⟩ := FoldRules.bind_ok hok
  have hsame : h₂.links = h₁.links := by
    unfold setSize at hsized
    split_ifs at hsized
    rw [← Except.ok.inj hsized]
  unfold free at hok
  split_ifs at hok
  rw [← Except.ok.inj hok]
  exact ⟨(congrArg (fun p => p.next b) hsame).trans hnext, Function.update_self ..⟩

end Relinking

section Sizes
variable [DecidableEq A] {u v : A}

theorem setNext_size (hok : h.setNext u v = .ok h') : h'.size = h.size := by
  unfold setNext at hok
  split_ifs at hok
  rw [← Except.ok.inj hok]

theorem setPrev_size (hok : h.setPrev u v = .ok h') : h'.size = h.size := by
  unfold setPrev at hok
  split_ifs at hok
  rw [← Except.ok.inj hok]

theorem setSize_size {size : ℤ} (hok : h.setSize u size = .ok h') :
    h'.size = Function.update h.size u size := by
  unfold setSize at hok
  split_ifs at hok
  rw [← Except.ok.inj hok]

theorem extractLinks_size (hok : h.extractLinks n x y = .ok (a, h')) : h'.size = h.size := by
  obtain ⟨before, -, hok⟩ := FoldRules.bind_ok hok
  obtain ⟨after, -, hok⟩ := FoldRules.bind_ok hok
  obtain ⟨h₁, hset₁, hok⟩ := FoldRules.bind_ok hok
  obtain ⟨after', -, hok⟩ := FoldRules.bind_ok hok
  obtain ⟨before', -, hok⟩ := FoldRules.bind_ok hok
  obtain ⟨h₂, hset₂, hok⟩ := FoldRules.bind_ok hok
  obtain ⟨h₃, hset₃, hok⟩ := FoldRules.bind_ok hok
  obtain ⟨h₄, hset₄, hok⟩ := FoldRules.bind_ok hok
  obtain ⟨h₅, hset₅, hok⟩ := FoldRules.bind_ok hok
  obtain ⟨after'', -, hok⟩ := FoldRules.bind_ok hok
  obtain ⟨h₆, hset₆, hok⟩ := FoldRules.bind_ok hok
  have hlast : h₆ = h' := congrArg Prod.snd (Except.ok.inj hok)
  calc h'.size = h₆.size := by rw [hlast]
    _ = h₅.size := setNext_size hset₆
    _ = h₄.size := setPrev_size hset₅
    _ = h₃.size := setPrev_size hset₄
    _ = h₂.size := setNext_size hset₃
    _ = h₁.size := setPrev_size hset₂
    _ = h.size := setNext_size hset₁

theorem insertLinks_size {r : A} (hok : h.insertLinks r a = .ok h') : h'.size = h.size := by
  obtain ⟨before, -, hok⟩ := FoldRules.bind_ok hok
  obtain ⟨first, -, hok⟩ := FoldRules.bind_ok hok
  obtain ⟨h₁, hset₁, hok⟩ := FoldRules.bind_ok hok
  obtain ⟨last, -, hok⟩ := FoldRules.bind_ok hok
  obtain ⟨h₂, hset₂, hok⟩ := FoldRules.bind_ok hok
  obtain ⟨first', -, hok⟩ := FoldRules.bind_ok hok
  obtain ⟨h₃, hset₃, hok⟩ := FoldRules.bind_ok hok
  obtain ⟨last', -, hset₄⟩ := FoldRules.bind_ok hok
  calc h'.size = h₃.size := setPrev_size hset₄
    _ = h₂.size := setNext_size hset₃
    _ = h₁.size := setNext_size hset₂
    _ = h.size := setPrev_size hset₁

/-- The new list gets a size whenever something is to be removed. -/
theorem spliceOut_size {m : A} {length : ℤ} (hlength : 0 < length) (hsn : n ≠ s)
    (hok : h.spliceOut n s m length = .ok (a, h')) : 1 ≤ h'.size n := by
  rw [spliceOut, if_pos hlength] at hok
  obtain ⟨⟨k, y⟩, hextent, hok⟩ := FoldRules.bind_ok hok
  obtain ⟨h₁, hset₁, hok⟩ := FoldRules.bind_ok hok
  obtain ⟨⟨after, h₂⟩, hextract, hok⟩ := FoldRules.bind_ok hok
  obtain ⟨size, -, hok⟩ := FoldRules.bind_ok hok
  obtain ⟨left, -, hok⟩ := FoldRules.bind_ok hok
  obtain ⟨h₃, hset₃, hok⟩ := FoldRules.bind_ok hok
  have hk := extent_size hextent
  have hlast : h₃ = h' := congrArg Prod.snd (Except.ok.inj hok)
  have hsize : h'.size n = k := by
    rw [← hlast, setSize_size hset₃, Function.update_of_ne hsn, extractLinks_size hextract,
      setSize_size hset₁, Function.update_self]
  omega

theorem spliceIn_size {rlist : Option A} (hsn : n ≠ s) (hok : h.spliceIn s a rlist = .ok h') :
    h'.size n = h.size n := by
  cases rlist with
  | none => rw [← Except.ok.inj hok]
  | some r =>
    obtain ⟨h₁, hinsert, hok⟩ := FoldRules.bind_ok hok
    obtain ⟨size, -, hok⟩ := FoldRules.bind_ok hok
    obtain ⟨more, -, hok⟩ := FoldRules.bind_ok hok
    obtain ⟨sum, -, hok⟩ := FoldRules.bind_ok hok
    obtain ⟨h₂, hset, hok⟩ := FoldRules.bind_ok hok
    have hfree : h'.size = h₂.size := by
      unfold free at hok
      split_ifs at hok
      rw [← Except.ok.inj hok]
    rw [hfree, setSize_size hset, Function.update_of_ne hsn, insertLinks_size hinsert]

end Sizes

section Splice
variable [DecidableEq A] {rlist : Option A} {rcells : List (A × O)} {offset length : ℤ}

theorem spliceOut_ok (hs : h.IsList s cells) (hn : h.IsList n [])
    (hapart : n ∉ s :: cells.map Prod.fst) {i : ℕ} {m : A} (h0 : 0 ≤ length)
    (hi : i ≤ cells.length) (hend : i = cells.length → length = 0)
    (hm : (linksFrom s cells i).head? = some m) :
    ∃ a h', h.spliceOut n s m length = .ok (a, h') ∧
      SplicedOut h h' n s a cells i (min length.toNat (cells.length - i)) := by
  by_cases hlength : 0 < length
  · exact spliceOut_some hs hn hapart hlength (by omega) hm
  · have hzero : length = 0 := by omega
    subst hzero
    have hmin : min (0 : ℤ).toNat (cells.length - i) = 0 := by simp
    rw [hmin]
    exact ⟨m, h, spliceOut_none hs hn hm⟩

/-- What a splice of `k` elements at `i` is for. -/
structure Spliced (h h' : ListHeap A O) (n s : A) (cells : List (A × O)) (rlist : Option A)
    (rcells : List (A × O)) (i k : ℕ) : Prop where
  list : h'.IsList s (cells.take i ++ rcells ++ cells.drop (i + k))
  removed : h'.IsList n ((cells.drop i).take k)
  consumed : ∀ r ∈ rlist, h'.live r = false
  apart : ∀ a ∈ n :: ((cells.drop i).take k).map Prod.fst,
    a ∉ s :: (cells.take i ++ rcells ++ cells.drop (i + k)).map Prod.fst
  others : SameOutside (n :: s :: (cells ++ rcells).map Prod.fst ++ rlist.toList) h h'

/-- The call does to the lists what a splice does to their sequences. An offset outside of
the list is refused, and nothing changes. -/
def SpliceCorrect (h : ListHeap A O) (n s : A) (cells : List (A × O)) (rlist : Option A)
    (rcells : List (A × O)) (offset length : ℤ) : Prop :=
  match splicePlace cells.length offset with
  | none => h.llSplice n (some s) offset length rlist = .ok (none, h)
  | some i => ∃ h', h.llSplice n (some s) offset length rlist = .ok (some n, h') ∧
      Spliced h h' n s cells rlist rcells i (spliceCount (cells.length - i) length)

/-- The arguments for which it does: nothing is to be removed at the very end, the
replacement is not empty, and the new number of elements is an int. -/
def SpliceSafe (cells : List (A × O)) (rlist : Option A) (rcells : List (A × O))
    (offset length : ℤ) : Prop :=
  match splicePlace cells.length offset with
  | none => -2147483647 ≤ offset
  | some i => (offset = cells.length → length ≤ 0) ∧ (rlist.isSome → rcells ≠ []) ∧
      ((cells.length - spliceCount (cells.length - i) length + rcells.length : ℕ) : ℤ) ≤ 2147483647

theorem llNew_isList (h : ListHeap A O) (n : A) : (h.llNew n).IsList n [] := by
  have hlink : (h.llNew n).links.Linked n n :=
    ⟨Function.update_self .., Function.update_self ..⟩
  refine ⟨⟨List.nodup_singleton n, ?_⟩, ?_, Function.update_self .., ?_,
    Function.update_self .., by simp⟩
  · exact List.isChain_cons_cons.mpr ⟨hlink, List.isChain_singleton n⟩
  · intro a ha
    rw [List.mem_singleton.mp ha]
    exact Function.update_self ..
  · exact fun c hc => absurd hc List.not_mem_nil

theorem llNew_same (h : ListHeap A O) (n : A) : SameOutside [n] h (h.llNew n) := by
  intro a ha
  have hne : a ≠ n := by simpa using ha
  exact ⟨Function.update_of_ne hne .., Function.update_of_ne hne ..,
    Function.update_of_ne hne .., Function.update_of_ne hne .., Function.update_of_ne hne ..⟩

variable (length) in
/-- The links that a call finds at a place, and the length it goes on with. -/
theorem llSplice_place (hs : h.IsList s cells) {i : ℕ}
    (hplace : splicePlace cells.length offset = some i) (rlist : Option A) (n : A) :
    ∃ (m : A) (full : ℤ), i ≤ cells.length ∧ (i = cells.length ↔ offset = cells.length) ∧
      (linksFrom s cells i).head? = some m ∧ 0 ≤ full ∧
      min full.toNat (cells.length - i) = spliceCount (cells.length - i) length ∧
      (i = cells.length → (full = 0 ↔ length ≤ 0)) ∧
      h.llSplice n (some s) offset length rlist = (do
        let (pLink, h) ← (h.llNew n).spliceOut n s m full
        let h ← h.spliceIn s pLink rlist
        .ok (some n, h)) := by
  obtain ⟨hlow, hhigh, hi⟩ := splicePlace_some hplace
  have hfits := hs.fits
  have hile : i ≤ cells.length := by split_ifs at hi <;> omega
  have hend : i = cells.length ↔ offset = cells.length := by split_ifs at hi <;> omega
  obtain ⟨m, hm⟩ : ∃ m, (linksFrom s cells i).head? = some m :=
    ⟨_, List.head?_eq_some_head (by simp [linksFrom])⟩
  have hfound : h.startLink s cells.length offset = .ok (some m) := by
    rw [startLink]
    by_cases hlast : offset = cells.length
    · have hms : s = m := by
        rw [linksFrom, hend.mpr hlast, List.drop_length] at hm
        exact Option.some.inj hm
      rw [if_pos hlast, hms]
    · rw [if_neg hlast]
      exact hs.getLink_place hplace hlast hm
  -- a negative length stands for all the elements that remain
  have hrest : (if offset < 0 then int (-offset) else int (cells.length - offset)) =
      (.ok ((cells.length - i : ℕ) : ℤ) : Call ℤ) := by
    split_ifs at hi ⊢ with hneg
    · exact int_ok_iff.mpr ⟨⟨by omega, by omega⟩, by omega⟩
    · exact int_ok_iff.mpr ⟨⟨by omega, by omega⟩, by omega⟩
  have hlength : fullLength cells.length offset length =
      .ok (if length < 0 then ((cells.length - i : ℕ) : ℤ) else length) := by
    rw [fullLength, hrest]
    split_ifs <;> rfl
  refine ⟨m, if length < 0 then ((cells.length - i : ℕ) : ℤ) else length, hile, hend, hm, ?_, ?_,
    ?_, ?_⟩
  · split_ifs <;> omega
  · unfold spliceCount
    split_ifs <;> omega
  · intro hlast
    split_ifs <;> omega
  · rw [llSplice, read_ok (hs.live s List.mem_cons_self), hs.size]
    change (h.startLink s cells.length offset >>= _) = _
    rw [hfound]
    change (fullLength cells.length offset length >>= _) = _
    rw [hlength]
    rfl

/-- Nothing is found outside of the list. -/
theorem llSplice_outside (hs : h.IsList s cells) (hplace : splicePlace cells.length offset = none)
    (rlist : Option A) (n : A) :
    h.llSplice n (some s) offset length rlist = .ok (none, h) ↔ -2147483647 ≤ offset := by
  have hne : offset ≠ cells.length := by
    intro heq
    rw [splicePlace, if_pos ⟨by omega, heq.le⟩] at hplace
    cases hplace
  have hsize := read_ok (hs.live s List.mem_cons_self) h.size
  have hstart : h.startLink s cells.length offset = h.getLink s offset := if_neg hne
  rw [llSplice, hsize, hs.size]
  change (h.startLink s cells.length offset >>= _) = _ ↔ _
  rw [hstart]
  by_cases hmin : -2147483647 ≤ offset
  · rw [hs.getLink_outside hplace hmin]
    exact iff_of_true rfl hmin
  · rw [hs.getLink_lowest (by omega)]
    exact iff_of_false (fun heq => by cases heq) hmin

/-- The lists at the start of the part that inserts the replacement. -/
structure Removed (h h₂ : ListHeap A O) (n s a : A) (cells : List (A × O)) (rlist : Option A)
    (rcells : List (A × O)) (i k : ℕ) : Prop where
  after : ((cells.drop (i + k)).map Prod.fst ++ [s]).head? = some a
  list : h₂.IsList s (cells.take i ++ cells.drop (i + k))
  removed : h₂.IsList n ((cells.drop i).take k)
  replacement : h₂.Replacement s (cells.take i ++ cells.drop (i + k)) rlist rcells
  fresh : ∀ r ∈ rlist, n ∉ r :: rcells.map Prod.fst
  others : SameOutside (n :: s :: cells.map Prod.fst) h h₂

/-- The removal, from the heap that the call starts with. -/
theorem removed_ok (hs : h.IsList s cells) (hr : h.Replacement s cells rlist rcells)
    (hfresh : h.live n = false) {i : ℕ} {m : A} (h0 : 0 ≤ length) (hi : i ≤ cells.length)
    (hend : i = cells.length → length = 0) (hm : (linksFrom s cells i).head? = some m) :
    ∃ a h₂, (h.llNew n).spliceOut n s m length = .ok (a, h₂) ∧
      Removed h h₂ n s a cells rlist rcells i (min length.toNat (cells.length - i)) := by
  have hnew := llNew_same h n
  have hns := fresh_apart hs hfresh
  have hs₁ : (h.llNew n).IsList s cells := by
    apply hs.of_same hnew
    intro c hc hcn
    exact hns (List.mem_singleton.mp hcn ▸ hc)
  obtain ⟨a, h₂, hrun, hout⟩ := spliceOut_ok hs₁ (llNew_isList h n) hns h0 hi hend hm
  have hsame : SameOutside (n :: s :: cells.map Prod.fst) h h₂ := by
    apply (hnew.mono _).trans hout.same
    intro c hc
    exact List.mem_singleton.mp hc ▸ List.mem_cons_self
  refine ⟨a, h₂, hrun, hout.after, hout.list, hout.removed, ?_, ?_, hsame⟩
  · cases rlist with
    | none => exact hr
    | some r =>
      have hnr := fresh_apart hr.1 hfresh
      refine ⟨hr.1.of_same hsame ?_, ?_⟩
      · intro c hc hmem
        rcases List.mem_cons.mp hmem with rfl | hmem
        · exact hnr hc
        · exact hr.2 c hc hmem
      · intro c hc hmem
        apply hr.2 c hc
        rcases List.mem_cons.mp hmem with rfl | hmem
        · exact List.mem_cons_self
        · exact List.mem_cons_of_mem s (map_kept cells i _ hmem)
  · rintro r rfl
    exact fresh_apart hr.1 hfresh

/-- The insertion of a replacement, or of none. -/
theorem Removed.insert {h₂ : ListHeap A O} {i k : ℕ} (hs : h.IsList s cells)
    (hr : h.Replacement s cells rlist rcells) (hrem : Removed h h₂ n s a cells rlist rcells i k)
    (hns : n ∉ s :: cells.map Prod.fst) (hsome : rlist.isSome → rcells ≠ [])
    (hfits : ((cells.take i ++ rcells ++ cells.drop (i + k)).length : ℤ) ≤ 2147483647) :
    ∃ h', h₂.spliceIn s a rlist = .ok h' ∧ Spliced h h' n s cells rlist rcells i k := by
  have hapart := removed_apart hs hr hns hrem.fresh i k
  have hothers : SameOutside (n :: s :: (cells ++ rcells).map Prod.fst ++ rlist.toList) h h₂ := by
    apply hrem.others.mono
    intro c hc
    simp only [List.map_append, List.mem_cons, List.mem_append] at hc ⊢
    tauto
  cases rlist with
  | none =>
    have hnone : rcells = [] := hr
    subst hnone
    refine ⟨h₂, rfl, ?_, hrem.removed, fun r hr => (by cases hr),
      fun c hc => (hapart c hc).1, hothers⟩
    rw [List.append_nil]
    exact hrem.list
  | some r =>
    obtain ⟨h', hrun, hlist, hdead, hsame⟩ := spliceIn_some hrem.list hrem.replacement.1
      (hsome rfl) hrem.replacement.2 hrem.after hfits
    refine ⟨h', hrun, hlist, ?_, ?_, fun c hc => (hapart c hc).1, ?_⟩
    · apply hrem.removed.of_same hsame
      intro c hc hmem
      rcases List.mem_cons.mp hmem with rfl | hmem
      · exact (hapart c hc).1 List.mem_cons_self
      · rcases List.mem_cons.mp hmem with rfl | hmem
        · exact (hapart c hc).2 rfl
        · exact (hapart c hc).1 (List.mem_cons_of_mem s hmem)
    · rintro r' hr'
      rw [← Option.some.inj hr']
      exact hdead
    · apply hothers.trans
      apply hsame.mono
      intro c hc
      have hkept := map_kept cells i k (a := c)
      simp only [List.map_append, List.mem_cons, List.mem_append, Option.toList_some,
        List.not_mem_nil, or_false] at hc hkept ⊢
      tauto

/-- `LL_splice` is a splice of sequences exactly for the safe arguments. -/
theorem llSplice_correct_iff (hs : h.IsList s cells) (hr : h.Replacement s cells rlist rcells)
    (hfresh : h.live n = false) :
    SpliceCorrect h n s cells rlist rcells offset length ↔
      SpliceSafe cells rlist rcells offset length := by
  unfold SpliceCorrect SpliceSafe
  cases hplace : splicePlace cells.length offset with
  | none => exact llSplice_outside hs hplace rlist n
  | some i =>
    obtain ⟨m, full, hile, hend, hm, h0, hcount, hzero, hrun⟩ :=
      llSplice_place length hs hplace rlist n
    have hns := fresh_apart hs hfresh
    have hne : n ≠ s := fun heq => hns (heq ▸ List.mem_cons_self)
    have hkle : min full.toNat (cells.length - i) ≤ cells.length - i := min_le_right _ _
    simp only [hrun]
    rw [← hcount]
    generalize hk : min full.toNat (cells.length - i) = k at hkle ⊢
    have hlength : (cells.take i ++ rcells ++ cells.drop (i + k)).length =
        cells.length - k + rcells.length := by
      simp only [List.length_append, List.length_take, List.length_drop]; omega
    have hremoved (hend' : offset = cells.length → length ≤ 0) :
        ∃ a h₂, (h.llNew n).spliceOut n s m full = .ok (a, h₂) ∧
          Removed h h₂ n s a cells rlist rcells i k := by
      have hnothing (hlast : i = cells.length) : full = 0 :=
        (hzero hlast).mpr (hend' (hend.mp hlast))
      rw [← hk]
      exact removed_ok hs hr hfresh h0 hile hnothing hm
    constructor
    · rintro ⟨h', hok, hspl⟩
      obtain ⟨⟨a, h₂⟩, hout, hok⟩ := FoldRules.bind_ok hok
      obtain ⟨h₃, hin, hok⟩ := FoldRules.bind_ok hok
      have hsame : h₃ = h' := congrArg Prod.snd (Except.ok.inj hok)
      rw [hsame] at hin
      have hend' : offset = cells.length → length ≤ 0 := by
        intro hoff
        by_contra hpos
        have hlast := hend.mpr hoff
        have hfull : 0 < full := by
          have hiff := hzero hlast
          omega
        have hsize := spliceOut_size hfull hne hout
        have hkept : h'.size n = h₂.size n := spliceIn_size hne hin
        have hnone := hspl.removed.size
        rw [hlast, List.drop_length, List.take_nil, List.length_nil] at hnone
        omega
      refine ⟨hend', ?_, ?_⟩
      · intro hsome hnil
        obtain ⟨a', h₂', hout', hrem⟩ := hremoved hend'
        obtain ⟨rfl, rfl⟩ := Prod.mk.inj (Except.ok.inj (hout'.symm.trans hout))
        obtain ⟨r, rfl⟩ := Option.isSome_iff_exists.mp hsome
        obtain ⟨b, hb⟩ : ∃ b, (s :: (cells.take i).map Prod.fst).getLast? = some b :=
          ⟨_, List.getLast?_eq_some_getLast (List.cons_ne_nil _ _)⟩
        subst hnil
        have hrout := hrem.replacement.2 r List.mem_cons_self
        have hfreed := spliceIn_empty hrem.list hrem.replacement.1 hrout hrem.after hb hin
        -- the list would go on with the freed replacement
        have hlist := hspl.list
        rw [List.append_nil] at hlist
        have hring := hlist.ring
        rw [List.map_append] at hring
        have har : a' = r := (hring.linked hb hrem.after).1.symm.trans hfreed.1
        have hlive : h'.live a' = true := by
          apply hlist.live
          have hmem := List.mem_of_head? hrem.after
          rw [List.map_append]
          simp only [List.mem_append, List.mem_cons, List.not_mem_nil, or_false] at hmem ⊢
          tauto
        rw [har, hfreed.2] at hlive
        exact Bool.noConfusion hlive
      · have hfits := hspl.list.fits
        rwa [hlength] at hfits
    · rintro ⟨hend', hsome, hfits⟩
      obtain ⟨a, h₂, hout, hrem⟩ := hremoved hend'
      rw [← hlength] at hfits
      obtain ⟨h', hin, hspl⟩ := hrem.insert hs hr hns hsome hfits
      refine ⟨h', ?_, hspl⟩
      rw [hout]
      change (h₂.spliceIn s a rlist >>= _) = _
      rw [hin]
      rfl

end Splice

/-- Three lists: two elements at 0, one at 3, none at 5. -/
def threeLists : ListHeap ℕ ℕ where
  links :=
    { next := fun a => [1, 2, 0, 4, 3, 5].getD a 0
      prev := fun a => [2, 0, 1, 4, 3, 5].getD a 0 }
  pObj := fun a => [none, some 10, some 20, none, some 30, none].getD a none
  size := fun a => [2, 0, 0, 1, 0, 0].getD a 0
  live := fun a => decide (a < 6)

theorem threeLists_two : threeLists.IsList 0 [(1, 10), (2, 20)] := by
  have hlast : threeLists.links.Path [2, 0] :=
    List.isChain_cons_cons.mpr ⟨⟨rfl, rfl⟩, List.isChain_singleton 0⟩
  have hmore : threeLists.links.Path [1, 2, 0] := List.isChain_cons_cons.mpr ⟨⟨rfl, rfl⟩, hlast⟩
  have hpath : threeLists.links.Path [0, 1, 2, 0] :=
    List.isChain_cons_cons.mpr ⟨⟨rfl, rfl⟩, hmore⟩
  exact ⟨⟨by decide, hpath⟩, by decide, rfl, by decide, rfl, by decide⟩

theorem threeLists_one : threeLists.IsList 3 [(4, 30)] := by
  have hlast : threeLists.links.Path [4, 3] :=
    List.isChain_cons_cons.mpr ⟨⟨rfl, rfl⟩, List.isChain_singleton 3⟩
  have hpath : threeLists.links.Path [3, 4, 3] := List.isChain_cons_cons.mpr ⟨⟨rfl, rfl⟩, hlast⟩
  exact ⟨⟨by decide, hpath⟩, by decide, rfl, by decide, rfl, by decide⟩

theorem threeLists_empty : threeLists.IsList 5 [] := by
  have hpath : threeLists.links.Path [5, 5] :=
    List.isChain_cons_cons.mpr ⟨⟨rfl, rfl⟩, List.isChain_singleton 5⟩
  exact ⟨⟨by decide, hpath⟩, by decide, rfl, by decide, rfl, by decide⟩

theorem llSplice_correct_sample :
    SpliceCorrect threeLists 6 0 [(1, 10), (2, 20)] (some 3) [(4, 30)] (-1) 1 := by
  have hr : threeLists.Replacement 0 [(1, 10), (2, 20)] (some 3) [(4, 30)] :=
    ⟨threeLists_one, by decide⟩
  exact (llSplice_correct_iff threeLists_two hr rfl).mpr ⟨by decide, by decide, by decide⟩

/-- An empty replacement at the start, and a removal at the end. -/
theorem llSplice_not_correct :
    threeLists.IsList 0 [(1, 10), (2, 20)] ∧
    threeLists.Replacement 0 [(1, 10), (2, 20)] (some 5) [] ∧
    ¬SpliceCorrect threeLists 6 0 [(1, 10), (2, 20)] (some 5) [] 0 0 ∧
    ¬SpliceCorrect threeLists 6 0 [(1, 10), (2, 20)] none [] 2 1 := by
  refine ⟨threeLists_two, ⟨threeLists_empty, by decide⟩, ?_, ?_⟩
  · rintro ⟨h', hok, hspl⟩
    have hnext : (threeLists.llSplice 6 (some 0) 0 0 (some 5)).map (fun r => r.2.links.next 0) =
        .ok 5 := by decide +kernel
    rw [hok] at hnext
    have hlink : h'.links.Linked 0 1 := (List.isChain_cons_cons.mp hspl.list.ring.path).1
    exact absurd (hlink.1.symm.trans (Except.ok.inj hnext)) (by decide)
  · rintro ⟨h', hok, hspl⟩
    have hsize : (threeLists.llSplice 6 (some 0) 2 1 none).map (fun r => r.2.size 6) =
        .ok 1 := by decide +kernel
    rw [hok] at hsize
    exact absurd (hspl.removed.size.symm.trans (Except.ok.inj hsize)) (by decide)

end ListHeap
end ConvertBinaryC
