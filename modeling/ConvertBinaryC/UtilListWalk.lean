import ConvertBinaryC.UtilList

/-! What a list of `util/list.c` holds, and the walks of `LL_splice` through it. -/
namespace ConvertBinaryC

open RingRules

variable {A O : Type}

namespace ListHeap

/-- The list at `s` holds the links and objects of `cells`: a ring of allocated links, of
which only the list's own one has no object, and the number of them as its size. -/
structure IsList (h : ListHeap A O) (s : A) (cells : List (A × O)) : Prop where
  ring : h.links.Ring s (cells.map Prod.fst)
  live : ∀ a ∈ s :: cells.map Prod.fst, h.live a = true
  head : h.pObj s = none
  objs : ∀ c ∈ cells, h.pObj c.1 = some c.2
  size : h.size s = cells.length
  fits : (cells.length : ℤ) ≤ 2147483647

/-- Nothing has changed at the addresses outside of `changed`. -/
def SameOutside (changed : List A) (h h' : ListHeap A O) : Prop :=
  ∀ a, a ∉ changed → h'.links.next a = h.links.next a ∧ h'.links.prev a = h.links.prev a ∧
    h'.pObj a = h.pObj a ∧ h'.size a = h.size a ∧ h'.live a = h.live a

variable {h h' : ListHeap A O} {s n a b x y : A} {cells : List (A × O)} {changed : List A}

theorem SameOutside.refl (changed : List A) (h : ListHeap A O) : SameOutside changed h h :=
  fun _ _ => ⟨rfl, rfl, rfl, rfl, rfl⟩

theorem SameOutside.trans {h'' : ListHeap A O} (h₁ : SameOutside changed h h')
    (h₂ : SameOutside changed h' h'') : SameOutside changed h h'' := by
  intro a ha
  obtain ⟨hn, hp, ho, hs, hl⟩ := h₁ a ha
  obtain ⟨hn', hp', ho', hs', hl'⟩ := h₂ a ha
  exact ⟨hn'.trans hn, hp'.trans hp, ho'.trans ho, hs'.trans hs, hl'.trans hl⟩

theorem SameOutside.mono {more : List A} (h₁ : SameOutside changed h h')
    (hsub : ∀ a ∈ changed, a ∈ more) : SameOutside more h h' :=
  fun a ha => h₁ a fun hmem => ha (hsub a hmem)

/-- An address at which nothing has changed. -/
def Kept (h h' : ListHeap A O) (a : A) : Prop :=
  h'.links.next a = h.links.next a ∧ h'.links.prev a = h.links.prev a ∧
    h'.pObj a = h.pObj a ∧ h'.size a = h.size a ∧ h'.live a = h.live a

/-- A list none of whose links has changed. -/
theorem IsList.of_kept (hlist : h.IsList s cells)
    (hat : ∀ a ∈ s :: cells.map Prod.fst, Kept h h' a) : h'.IsList s cells := by
  have hpath (a : A) (ha : a ∈ s :: cells.map Prod.fst ++ [s]) :
      a ∈ s :: cells.map Prod.fst := by simpa [or_comm] using ha
  constructor
  · refine ⟨hlist.ring.nodup, ?_⟩
    apply List.IsChain.imp_of_mem_imp _ hlist.ring.path
    intro u v hu hv hlink
    exact ⟨(hat u (hpath u hu)).1.trans hlink.1, (hat v (hpath v hv)).2.1.trans hlink.2⟩
  · exact fun a ha => (hat a ha).2.2.2.2.trans (hlist.live a ha)
  · exact (hat s List.mem_cons_self).2.2.1.trans hlist.head
  · intro c hc
    have hmem : c.1 ∈ s :: cells.map Prod.fst := List.mem_cons_of_mem s (List.mem_map_of_mem hc)
    exact (hat c.1 hmem).2.2.1.trans (hlist.objs c hc)
  · exact (hat s List.mem_cons_self).2.2.2.1.trans hlist.size
  · exact hlist.fits

theorem IsList.of_same (hlist : h.IsList s cells) (hsame : SameOutside changed h h')
    (hapart : ∀ a ∈ s :: cells.map Prod.fst, a ∉ changed) : h'.IsList s cells :=
  hlist.of_kept fun a ha => hsame a (hapart a ha)

section Steps
variable {v : A} (ha : h.live a = true)
include ha

theorem read_ok {B : Type} (field : A → B) : h.read field a = .ok (field a) := if_pos ha

theorem next_ok : h.next a = .ok (h.links.next a) := if_pos ha

theorem prev_ok : h.prev a = .ok (h.links.prev a) := if_pos ha

end Steps

section Walks
variable {l : List A}

theorem path_linked {p : Links A} (hpath : p.Path l) {i : ℕ} (hx : l[i]? = some x)
    (hy : l[i + 1]? = some y) : p.Linked x y := by
  obtain ⟨hi, rfl⟩ := List.getElem?_eq_some_iff.mp hx
  obtain ⟨hi', rfl⟩ := List.getElem?_eq_some_iff.mp hy
  exact List.isChain_iff_getElem.mp hpath i hi'

theorem followNext_path (hpath : h.links.Path l) (hlive : ∀ a ∈ l, h.live a = true) (n : ℕ)
    {i : ℕ} (hx : l[i]? = some x) (hy : l[i + n]? = some y) : h.followNext n x = .ok y := by
  induction n generalizing i x with
  | zero => exact congrArg Except.ok (Option.some.inj (hx.symm.trans hy))
  | succ n ih =>
    have hlt : i + 1 < l.length := by
      have hn := (List.getElem?_eq_some_iff.mp hy).1
      omega
    have hz : l[i + 1]? = some l[i + 1] := List.getElem?_eq_getElem hlt
    have hnext : h.next x = .ok l[i + 1] := by
      rw [next_ok (hlive x (List.mem_of_getElem? hx)), (path_linked hpath hx hz).1]
    have hrest := ih hz (by rwa [Nat.add_right_comm i 1 n])
    rw [followNext, hnext]
    exact hrest

theorem followPrev_path (hpath : h.links.Path l) (hlive : ∀ a ∈ l, h.live a = true) (n : ℕ)
    {i : ℕ} (hx : l[i + n]? = some x) (hy : l[i]? = some y) : h.followPrev n x = .ok y := by
  induction n generalizing x with
  | zero => exact congrArg Except.ok (Option.some.inj (hx.symm.trans hy))
  | succ n ih =>
    have hlt : i + n < l.length := by
      have hn := (List.getElem?_eq_some_iff.mp hx).1
      omega
    have hz : l[i + n]? = some l[i + n] := List.getElem?_eq_getElem hlt
    have hprev : h.prev x = .ok l[i + n] := by
      rw [prev_ok (hlive x (List.mem_of_getElem? hx)), (path_linked hpath hz hx).2]
    rw [followPrev, hprev]
    exact ih hz

end Walks

/-- Where an offset points to in a list of `count` elements. -/
def splicePlace (count : ℕ) (offset : ℤ) : Option ℕ :=
  if -(count : ℤ) ≤ offset ∧ offset ≤ count then
    some (if offset < 0 then offset + count else offset).toNat
  else none

theorem splicePlace_some {count i : ℕ} {offset : ℤ} (hplace : splicePlace count offset = some i) :
    -(count : ℤ) ≤ offset ∧ offset ≤ count ∧
      (i : ℤ) = if offset < 0 then offset + count else offset := by
  have hrange : -(count : ℤ) ≤ offset ∧ offset ≤ count := by
    by_contra hout
    rw [splicePlace, if_neg hout] at hplace
    exact nomatch hplace
  rw [splicePlace, if_pos hrange] at hplace
  have hi := Option.some.inj hplace
  refine ⟨hrange.1, hrange.2, ?_⟩
  split_ifs at hi ⊢ <;> omega

/-- The number of elements that a length stands for where `rest` elements remain. -/
def spliceCount (rest : ℕ) (length : ℤ) : ℕ := if length < 0 then rest else min length.toNat rest

/-- The links from a place on, and the list's own link after them. -/
def linksFrom (s : A) (cells : List (A × O)) (i : ℕ) : List A := (cells.drop i).map Prod.fst ++ [s]

theorem IsList.live_path (hlist : h.IsList s cells) :
    ∀ a ∈ s :: cells.map Prod.fst ++ [s], h.live a = true := by
  intro a ha
  apply hlist.live
  simpa [or_comm] using ha

/-- The links from a place on are those of the ring one later. -/
theorem linksFrom_eq_drop (s : A) (cells : List (A × O)) {i : ℕ} (hi : i ≤ cells.length) :
    linksFrom s cells i = (s :: cells.map Prod.fst ++ [s]).drop (i + 1) := by
  rw [linksFrom, List.map_drop, List.cons_append, List.drop_succ_cons,
    List.drop_append_of_le_length (by rwa [List.length_map])]

theorem linksFrom_head {i : ℕ} (hi : i ≤ cells.length) :
    (linksFrom s cells i).head? = (s :: cells.map Prod.fst ++ [s])[i + 1]? := by
  rw [linksFrom_eq_drop s cells hi, List.head?_drop]

/-- The place that an offset points to, and the link that is found for it. -/
theorem IsList.getLink_place (hlist : h.IsList s cells) {offset : ℤ} {i : ℕ}
    (hplace : splicePlace cells.length offset = some i) (hend : offset ≠ cells.length)
    (ha : (linksFrom s cells i).head? = some a) : h.getLink s offset = .ok (some a) := by
  obtain ⟨hlow, hhigh, hi⟩ := splicePlace_some hplace
  have hfits := hlist.fits
  have hpath := hlist.ring.path
  have hlength : (s :: cells.map Prod.fst ++ [s]).length = cells.length + 2 := by simp
  rw [getLink, read_ok (hlist.live s List.mem_cons_self), hlist.size]
  change (if offset < 0 then _ else _) = _
  by_cases hneg : offset < 0
  · rw [if_pos hneg] at hi ⊢
    have hback : int (-offset) = .ok (-offset) := int_ok_iff.mpr ⟨⟨by omega, by omega⟩, rfl⟩
    have hlast : (s :: cells.map Prod.fst ++ [s])[i + 1 + (-offset).toNat]? = some s := by
      have hindex : i + 1 + (-offset).toNat = (s :: cells.map Prod.fst).length := by
        rw [List.length_cons, List.length_map]; omega
      rw [hindex, List.getElem?_concat_length]
    rw [linksFrom_head (by omega)] at ha
    have hwalk := followPrev_path hpath hlist.live_path (-offset).toNat hlast ha
    rw [hback]
    change (if (cells.length : ℤ) < -offset then _ else _) = _
    rw [if_neg (by omega), hwalk]
    rfl
  · rw [if_neg hneg] at hi ⊢
    have hfirst : (s :: cells.map Prod.fst ++ [s])[0]? = some s := rfl
    rw [linksFrom_head (by omega)] at ha
    have hindex : 0 + (offset.toNat + 1) = i + 1 := by omega
    have hwalk := followNext_path hpath hlist.live_path (offset.toNat + 1) hfirst (hindex ▸ ha)
    rw [if_neg (by omega), hwalk]
    rfl

/-- An offset outside of the list. -/
theorem IsList.getLink_outside (hlist : h.IsList s cells) {offset : ℤ}
    (hplace : splicePlace cells.length offset = none) (hmin : -2147483647 ≤ offset) :
    h.getLink s offset = .ok none := by
  have hrange : ¬(-(cells.length : ℤ) ≤ offset ∧ offset ≤ cells.length) := by
    intro hin
    rw [splicePlace, if_pos hin] at hplace
    exact nomatch hplace
  rw [getLink, read_ok (hlist.live s List.mem_cons_self), hlist.size]
  change (if offset < 0 then _ else _) = _
  by_cases hneg : offset < 0
  · have hback : int (-offset) = .ok (-offset) := int_ok_iff.mpr ⟨⟨by omega, by omega⟩, rfl⟩
    rw [if_pos hneg, hback]
    exact if_pos (by omega)
  · rw [if_neg hneg]
    exact if_pos (by omega)

/-- The one int that cannot be negated. -/
theorem IsList.getLink_lowest (hlist : h.IsList s cells) {offset : ℤ}
    (hmin : offset < -2147483647) : h.getLink s offset = .error .undefinedBehaviour := by
  have hback : int (-offset) = .error .undefinedBehaviour := if_neg (by omega)
  rw [getLink, read_ok (hlist.live s List.mem_cons_self), hlist.size]
  change (if offset < 0 then _ else _) = _
  rw [if_pos (by omega), hback]
  rfl

/-- The loop goes on to the end of the list, or until enough links are counted. -/
theorem extent_path {length : ℤ} {rest : List (A × O)} {size : ℤ} {x : A × O}
    (hpath : h.links.Path ((x :: rest).map Prod.fst ++ [s]))
    (hlive : ∀ a ∈ (x :: rest).map Prod.fst ++ [s], h.live a = true)
    (hobjs : ∀ c ∈ rest, h.pObj c.1 = some c.2) (hhead : h.pObj s = none)
    (hsize : size < length) (hy : ((x :: rest).take
      (min (length - size).toNat (rest.length + 1))).getLast?.map Prod.fst = some y) :
    h.extent length size x.1 =
      .ok (size + (min (length - size).toNat (rest.length + 1) : ℕ), y) := by
  have hone (x : A × O) (rest : List (A × O)) {k : ℕ} (hk : k = 1)
      (hy : ((x :: rest).take k).getLast?.map Prod.fst = some y) : x.1 = y := by
    rw [hk] at hy
    exact Option.some.inj hy
  induction rest generalizing size x with
  | nil =>
    by_cases hlength : size + 1 < length
    · have hcount : min (length - size).toNat (([] : List (A × O)).length + 1) = 1 := by
        rw [List.length_nil]; omega
      have hxy := hone x [] hcount hy
      have hnext : h.next x.1 = .ok s := by
        rw [next_ok (hlive x.1 (by simp)), (List.isChain_cons_cons.mp hpath).1.1]
      have hobj : h.read h.pObj s = .ok none := by
        rw [read_ok (hlive s (by simp)), hhead]
      rw [extent, if_pos hlength, hnext]
      change (h.read h.pObj s >>= _) = _
      rw [hobj, hxy, hcount]
      rfl
    · have hcount : min (length - size).toNat (([] : List (A × O)).length + 1) = 1 := by
        rw [List.length_nil]; omega
      rw [extent, if_neg hlength, hone x [] hcount hy, hcount]
      rfl
  | cons z rest ih =>
    by_cases hlength : size + 1 < length
    · have hlink := List.isChain_cons_cons.mp hpath
      have hmore : min (length - size).toNat ((z :: rest).length + 1) =
          min (length - (size + 1)).toNat (rest.length + 1) + 1 := by
        rw [List.length_cons]; omega
      obtain ⟨k, hk⟩ : ∃ k, min (length - (size + 1)).toNat (rest.length + 1) = k + 1 :=
        ⟨min (length - (size + 1)).toNat (rest.length + 1) - 1, by omega⟩
      have hlast : ((z :: rest).take (min (length - (size + 1)).toNat
          (rest.length + 1))).getLast?.map Prod.fst = some y := by
        rw [hmore, hk, List.take_succ_cons, List.take_succ_cons, List.getLast?_cons_cons] at hy
        rw [hk, List.take_succ_cons]
        exact hy
      have hnext : h.next x.1 = .ok z.1 := by
        rw [next_ok (hlive x.1 (by simp)), hlink.1.1]
      have hobj : h.read h.pObj z.1 = .ok (some z.2) := by
        rw [read_ok (hlive z.1 (by simp)), hobjs z List.mem_cons_self]
      have hrest := ih hlink.2 (fun a ha => hlive a (List.mem_cons_of_mem x.1 ha))
        (fun c hc => hobjs c (List.mem_cons_of_mem z hc)) hlength hlast
      rw [extent, if_pos hlength, hnext]
      change (h.read h.pObj z.1 >>= _) = _
      rw [hobj]
      change h.extent length (size + 1) z.1 = _
      rw [hrest, hmore]
      push_cast
      rw [add_assoc, add_comm (1 : ℤ)]
    · have hcount : min (length - size).toNat ((z :: rest).length + 1) = 1 := by
        rw [List.length_cons]; omega
      rw [extent, if_neg hlength, hone x (z :: rest) hcount hy, hcount]
      rfl

/-- The links that the loop of `LL_splice` finds for a length. -/
theorem IsList.extent_ok (hs : h.IsList s cells) {i : ℕ} {length : ℤ} (hlength : 0 < length)
    (hi : i < cells.length) (ha : (linksFrom s cells i).head? = some a)
    (hy : ((cells.drop i).take (min length.toNat (cells.length - i)) |>.map Prod.fst).getLast? =
      some y) :
    h.extent length 0 a = .ok ((min length.toNat (cells.length - i) : ℕ), y) := by
  obtain ⟨c, rest, hdrop⟩ : ∃ c rest, cells.drop i = c :: rest :=
    List.exists_cons_of_length_pos (by rw [List.length_drop]; omega)
  have hca : c.1 = a := by
    rw [linksFrom, hdrop] at ha
    exact Option.some.inj ha
  have hk : min length.toNat (cells.length - i) = min (length - 0).toNat (rest.length + 1) := by
    rw [← List.length_drop, hdrop, List.length_cons, Int.sub_zero]
  have hright : h.links.Path ((c :: rest).map Prod.fst ++ [s]) := by
    have hcut := hs.ring
    rw [← List.take_append_drop i cells, List.map_append, hdrop] at hcut
    exact hcut.cut.right
  have hlast : ((c :: rest).take (min (length - 0).toNat (rest.length + 1))).getLast?.map
      Prod.fst = some y := by
    rw [← hk, ← hdrop, ← List.getLast?_map]; exact hy
  have hobjs (d : A × O) (hd : d ∈ rest) : h.pObj d.1 = some d.2 := by
    apply hs.objs d
    apply List.mem_of_mem_drop (i := i)
    rw [hdrop]
    exact List.mem_cons_of_mem c hd
  have hlives (d : A) (hd : d ∈ (c :: rest).map Prod.fst ++ [s]) : h.live d = true := by
    apply hs.live
    rw [← hdrop] at hd
    rcases List.mem_append.mp hd with hd | hd
    · rw [List.map_drop] at hd
      exact List.mem_cons_of_mem s (List.mem_of_mem_drop hd)
    · rw [List.mem_singleton.mp hd]
      exact List.mem_cons_self
  have hrun := extent_path hright hlives hobjs hs.head hlength hlast
  rw [hca, ← hk, zero_add] at hrun
  exact hrun

theorem extent_size {length size k : ℤ} (hok : h.extent length size x = .ok (k, y)) :
    size + 1 ≤ k := by
  fun_induction h.extent length size x with
  | case1 size x hmore ih =>
    obtain ⟨after, -, hok⟩ := FoldRules.bind_ok hok
    obtain ⟨pObj, -, hok⟩ := FoldRules.bind_ok hok
    split_ifs at hok with hobj
    · have hrest := ih after hok
      omega
    · exact (congrArg Prod.fst (Except.ok.inj hok)).le
  | case2 size x hless => exact (congrArg Prod.fst (Except.ok.inj hok)).le

/-- The cells of a list before a place, the ones that are removed there, and the others. -/
theorem cells_split (cells : List (A × O)) (i k : ℕ) :
    cells = cells.take i ++ (cells.drop i).take k ++ cells.drop (i + k) := by
  have hmore : cells.drop (i + k) = (cells.drop i).drop k := by rw [List.drop_drop]
  rw [hmore, List.append_assoc, List.take_append_drop, List.take_append_drop]

theorem fresh_apart (hs : h.IsList s cells) (hfresh : h.live n = false) :
    n ∉ s :: cells.map Prod.fst :=
  fun hmem => Bool.noConfusion ((hs.live n hmem).symm.trans hfresh)

theorem map_kept (cells : List (A × O)) (i k : ℕ) {a : A}
    (ha : a ∈ (cells.take i ++ cells.drop (i + k)).map Prod.fst) : a ∈ cells.map Prod.fst := by
  rw [cells_split cells i k]
  simp only [List.map_append, List.mem_append] at ha ⊢
  tauto

end ListHeap
end ConvertBinaryC
