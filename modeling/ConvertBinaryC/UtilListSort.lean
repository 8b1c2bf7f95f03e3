import ConvertBinaryC.ScanRules
import ConvertBinaryC.UtilListRuns

/-! The quicksort of `util/list.c`, which moves objects between links that stay where they are. -/
namespace ConvertBinaryC

open RingRules FoldRules ScanRules

variable {A O : Type}

namespace ListHeap

section Model
variable (h : ListHeap A O) (cmp : O → O → ℤ)

/-- The object of a link that is given to the comparison function, which gets no null pointer. -/
def object (a : A) : Call O := do
  match ← h.read h.pObj a with
  | none => .error .undefinedBehaviour
  | some pObj => .ok pObj

/-- The loop of `QuickSort` that moves `i`. -/
def scanUp (p : O) : ℕ → A → ℤ → Call (A × ℤ)
  | 0, _, _ => .error .outOfFuel
  | turns + 1, i, lp => do
    let pObj ← h.object i
    if cmp pObj p < 0 then do
      let i ← h.next i
      scanUp p turns i (lp + 1)
    else .ok (i, lp)

/-- The loop of `QuickSort` that moves `j`. -/
def scanDown (p : O) : ℕ → A → ℤ → Call (A × ℤ)
  | 0, _, _ => .error .outOfFuel
  | turns + 1, j, rp => do
    let pObj ← h.object j
    if 0 < cmp pObj p then do
      let j ← h.prev j
      scanDown p turns j (rp - 1)
    else .ok (j, rp)

/-- Where the sort loop of `QuickSort` ends. -/
structure Partition (A : Type) where
  i : A
  j : A
  lp : ℤ
  rp : ℤ

variable [DecidableEq A]

/-- The objects of two links are swapped. -/
def swap (i j : A) : Call (ListHeap A O) := do
  let t ← h.object i
  let pObj ← h.object j
  let h ← h.setObj i pObj
  h.setObj j t

/-- The sort loop of `QuickSort`; `turns` bounds this loop and the two in it. -/
def partition (p : O) : ℕ → Partition A → ListHeap A O → Call (Partition A × ListHeap A O)
  | 0, _, _ => .error .outOfFuel
  | turns + 1, ⟨i, j, lp, rp⟩, h => do
    let (i, lp) ← h.scanUp cmp p (turns + 1) i lp
    if rp < lp then .ok (⟨i, j, lp, rp⟩, h)
    else do
      let (j, rp) ← h.scanDown cmp p (turns + 1) j rp
      if rp < lp then .ok (⟨i, j, lp, rp⟩, h)
      else do
        let h ← h.swap i j
        let i ← h.next i
        let j ← h.prev j
        partition p turns ⟨i, j, lp + 1, rp - 1⟩ h

/-- `QuickSort`. The loop that determines the pivot goes on while `--lp > 0`. -/
def quickSort : ℕ → A → A → ℤ → ListHeap A O → Call (ListHeap A O)
  | 0, _, _, _, _ => .error .outOfFuel
  | turns + 1, l, r, size, h => do
    let i ← h.followNext (size.tdiv 2 - 1).toNat l
    let p ← h.object i
    let (⟨i, j, lp, rp⟩, h) ← partition cmp p (turns + 1) ⟨l, r, 0, size - 1⟩ h
    let h ← (if 1 < rp + 1 then quickSort turns l j (rp + 1) h else .ok h)
    if 1 < size - lp then quickSort turns i r (size - lp) h else .ok h

/-- `LL_sort` -/
def llSort (turns : ℕ) (list : Option A) : Call (ListHeap A O) :=
  match list with
  | none => .ok h
  | some list => do
    let size ← h.read h.size list
    if size ≤ 1 then .ok h
    else do
      let l ← h.next list
      let r ← h.prev list
      quickSort cmp turns l r size h

end Model

/-- The function compares the objects of a list as a total preorder does. -/
structure Compares (cmp : O → O → ℤ) (xs : List O) : Prop where
  flip : ∀ a ∈ xs, ∀ b ∈ xs, cmp a b < 0 ↔ 0 < cmp b a
  trans : ∀ a ∈ xs, ∀ b ∈ xs, ∀ c ∈ xs, cmp a b ≤ 0 → cmp b c ≤ 0 → cmp a c ≤ 0

/-- Only objects may have changed. -/
def SameLinks (h h' : ListHeap A O) : Prop :=
  h'.links = h.links ∧ h'.size = h.size ∧ h'.live = h.live

variable {h h' : ListHeap A O} {s a b x : A} {cells cells' L R : List (A × O)} {turns : ℕ}
  {cmp : O → O → ℤ} {p pObj : O} {c d : A × O}

theorem SameLinks.trans {h'' : ListHeap A O} (h₁ : SameLinks h h') (h₂ : SameLinks h' h'') :
    SameLinks h h'' :=
  ⟨h₂.1.trans h₁.1, h₂.2.1.trans h₁.2.1, h₂.2.2.trans h₁.2.2⟩

section Reads

theorem IsList.live_element (hlist : h.IsList s cells) (hmem : c ∈ cells) : h.live c.1 = true :=
  hlist.live c.1 (List.mem_cons_of_mem s (List.mem_map_of_mem hmem))

theorem IsList.object_ok (hlist : h.IsList s cells) (hmem : c ∈ cells) :
    h.object c.1 = .ok c.2 := by
  unfold object
  rw [read_ok (hlist.live_element hmem), hlist.objs c hmem]
  rfl

/-- The links of two elements that follow each other. -/
theorem IsList.neighbours (hlist : h.IsList s (L ++ c :: d :: R)) :
    h.next c.1 = .ok d.1 ∧ h.prev d.1 = .ok c.1 := by
  have hmove : L ++ c :: d :: R = L ++ [c] ++ d :: R := by simp
  rw [hmove] at hlist
  exact hlist.next_after (seen_last s L c) rfl

/-- The scan passes the objects that are less than the pivot. -/
theorem IsList.scanUp (hlist : h.IsList s (L ++ cells ++ c :: R))
    (hless : ∀ d ∈ cells, cmp d.2 p < 0) (hstop : ¬ cmp c.2 p < 0)
    (ha : ((cells ++ [c]).map Prod.fst).head? = some a) (lp : ℤ) (hturns : cells.length < turns) :
    h.scanUp cmp p turns a lp = .ok (c.1, lp + cells.length) := by
  induction turns generalizing L cells a lp with
  | zero => exact absurd hturns (Nat.not_lt_zero _)
  | succ turns ih =>
    unfold ListHeap.scanUp
    cases cells with
    | nil =>
      obtain rfl := Option.some.inj ha
      have hobj : h.object c.1 = .ok c.2 := hlist.object_ok (by simp)
      rw [hobj, call_bind_apply, if_neg hstop, List.length_nil]
      exact congrArg (fun n : ℤ => Except.ok (c.1, n)) (add_zero lp).symm
    | cons d cells =>
      obtain rfl := Option.some.inj ha
      have hobj : h.object d.1 = .ok d.2 := hlist.object_ok (by simp)
      rw [hobj, call_bind_apply, if_pos (hless d List.mem_cons_self)]
      have hmove : L ++ d :: cells ++ c :: R = L ++ [d] ++ cells ++ c :: R := by simp
      obtain ⟨b, hb⟩ : ∃ b, ((cells ++ [c]).map Prod.fst).head? = some b :=
        ⟨_, List.head?_eq_some_head (by simp)⟩
      have hnext : h.next d.1 = .ok b := by
        rw [hmove, List.append_assoc (L ++ [d])] at hlist
        refine (hlist.next_after (seen_last s L d) ?_).1
        rw [← hb]
        cases cells with
        | nil => rfl
        | cons e cells => rfl
      rw [hmove] at hlist
      have hrest := ih hlist (fun e he => hless e (List.mem_cons_of_mem d he)) hb (lp + 1)
        (Nat.lt_of_succ_lt_succ hturns)
      rw [hnext, call_bind_apply, hrest, List.length_cons]
      push_cast
      rw [add_assoc, add_comm (1 : ℤ)]

theorem IsList.scanDown (hlist : h.IsList s (L ++ c :: cells ++ R))
    (hmore : ∀ d ∈ cells, 0 < cmp d.2 p) (hstop : ¬ 0 < cmp c.2 p)
    (ha : ((c :: cells).map Prod.fst).getLast? = some a) (rp : ℤ) (hturns : cells.length < turns) :
    h.scanDown cmp p turns a rp = .ok (c.1, rp - cells.length) := by
  induction turns generalizing R cells a rp with
  | zero => exact absurd hturns (Nat.not_lt_zero _)
  | succ turns ih =>
    unfold ListHeap.scanDown
    rcases List.eq_nil_or_concat' cells with rfl | ⟨cells, d, rfl⟩
    · have hca : c.1 = a := Option.some.inj ha
      subst hca
      have hobj : h.object c.1 = .ok c.2 := hlist.object_ok (by simp)
      rw [hobj, call_bind_apply, if_neg hstop, List.length_nil]
      exact congrArg (fun n : ℤ => Except.ok (c.1, n)) (sub_zero rp).symm
    · have had : d.1 = a := by
        rw [← List.cons_append, List.map_append] at ha
        exact Option.some.inj (List.getLast?_concat.symm.trans ha)
      subst had
      have hobj : h.object d.1 = .ok d.2 := hlist.object_ok (by simp)
      rw [hobj, call_bind_apply, if_pos (hmore d (by simp))]
      obtain ⟨b, hb⟩ : ∃ b, ((c :: cells).map Prod.fst).getLast? = some b :=
        ⟨_, List.getLast?_eq_some_getLast (List.cons_ne_nil _ _)⟩
      have hprev : h.prev d.1 = .ok b := by
        have hmove : L ++ c :: (cells ++ [d]) ++ R = (L ++ c :: cells) ++ d :: R := by simp
        rw [hmove] at hlist
        refine (hlist.next_after ?_ rfl).2
        rw [List.map_append, List.getLast?_cons, List.getLast?_append, hb]
        rfl
      have hmove : L ++ c :: (cells ++ [d]) ++ R = L ++ c :: cells ++ ([d] ++ R) := by simp
      rw [hmove] at hlist
      rw [List.length_append] at hturns
      have hrest := ih hlist (fun e he => hmore e (List.mem_append_left [d] he)) hb (rp - 1)
        (Nat.lt_of_succ_lt_succ hturns)
      rw [hprev, call_bind_apply, hrest, List.length_append]
      push_cast
      rw [sub_sub, add_comm (1 : ℤ)]
      rfl

theorem head_run (B M : List (A × O)) (y : A × O) (X : List A) :
    ((B ++ [y]).map Prod.fst).head? = ((B ++ y :: M).map Prod.fst ++ X).head? := by
  cases B with
  | nil => rfl
  | cons c B => rfl

theorem last_run (s : A) (M E : List (A × O)) (z : A × O) :
    ((z :: E).map Prod.fst).getLast? = (s :: (M ++ z :: E).map Prod.fst).getLast? := by
  obtain ⟨b, hb⟩ : ∃ b, ((z :: E).map Prod.fst).getLast? = some b :=
    ⟨_, List.getLast?_eq_some_getLast (List.cons_ne_nil _ _)⟩
  rw [List.map_append, List.getLast?_cons, List.getLast?_append, hb]
  rfl

theorem swap_perm (y z : O) (M : List O) : (z :: M ++ [y]).Perm (y :: M ++ [z]) := by
  have hback : (z :: M ++ [y]).Perm (y :: z :: M) := List.perm_append_singleton y (z :: M)
  have hfront : (z :: M).Perm (M ++ [z]) := (List.perm_append_singleton z M).symm
  exact hback.trans (hfront.cons y)

end Reads

section Swaps
variable [DecidableEq A]

theorem IsList.setObj (hlist : h.IsList s (L ++ c :: R)) (pObj : O) :
    ∃ h', h.setObj c.1 pObj = .ok h' ∧ h'.IsList s (L ++ (c.1, pObj) :: R) ∧ SameLinks h h' := by
  have hlive := hlist.live_element (c := c) (by simp)
  have haddrs : (L ++ (c.1, pObj) :: R).map Prod.fst = (L ++ c :: R).map Prod.fst := by
    rw [List.map_append, List.map_cons, List.map_append, List.map_cons]
  have hlength : (L ++ (c.1, pObj) :: R).length = (L ++ c :: R).length := by
    rw [← List.length_map Prod.fst, haddrs, List.length_map]
  have hnodup := hlist.ring.nodup
  rw [List.map_append, List.map_cons] at hnodup
  have hcs : s ≠ c.1 := by grind
  refine ⟨_, if_pos hlive, ⟨?_, ?_, ?_, ?_, ?_, ?_⟩, rfl, rfl, rfl⟩
  · rw [haddrs]
    exact hlist.ring
  · rw [haddrs]
    exact hlist.live
  · exact (Function.update_of_ne hcs ..).trans hlist.head
  · intro d hd
    by_cases hdc : d = (c.1, pObj)
    · rw [hdc]
      exact Function.update_self ..
    · have hmem : d ∈ L ++ R := by grind
      have hne : d.1 ≠ c.1 := by
        have hin := List.mem_map_of_mem (f := Prod.fst) hmem
        rw [List.map_append] at hin
        grind
      refine (Function.update_of_ne hne ..).trans (hlist.objs d ?_)
      grind
  · rw [hlength]
    exact hlist.size
  · rw [hlength]
    exact hlist.fits

theorem IsList.swap {M : List (A × O)} (hlist : h.IsList s (L ++ c :: M ++ d :: R)) :
    ∃ h', h.swap c.1 d.1 = .ok h' ∧ h'.IsList s (L ++ (c.1, d.2) :: M ++ (d.1, c.2) :: R) ∧
      SameLinks h h' := by
  have hc : h.object c.1 = .ok c.2 := hlist.object_ok (by simp)
  have hd : h.object d.1 = .ok d.2 := hlist.object_ok (by simp)
  rw [List.append_assoc, List.cons_append] at hlist
  obtain ⟨h₁, hset, hlist₁, hsame⟩ := hlist.setObj d.2
  have hmove : L ++ (c.1, d.2) :: (M ++ d :: R) = L ++ (c.1, d.2) :: M ++ d :: R := by simp
  rw [hmove] at hlist₁
  obtain ⟨h₂, hset', hlist₂, hsame'⟩ := hlist₁.setObj c.2
  refine ⟨h₂, ?_, hlist₂, hsame.trans hsame'⟩
  unfold ListHeap.swap
  rw [hc, call_bind_apply, hd, call_bind_apply]
  have hfirst : h.setObj c.1 d.2 = .ok h₁ := hset
  rw [hfirst, call_bind_apply]
  exact hset'

/-- An element that is swapped with itself. -/
theorem IsList.swap_self (hlist : h.IsList s (L ++ c :: R)) :
    ∃ h', h.swap c.1 c.1 = .ok h' ∧ h'.IsList s (L ++ c :: R) ∧ SameLinks h h' := by
  have hc : h.object c.1 = .ok c.2 := hlist.object_ok (by simp)
  obtain ⟨h₁, hset, hlist₁, hsame⟩ := hlist.setObj c.2
  obtain ⟨h₂, hset', hlist₂, hsame'⟩ := hlist₁.setObj c.2
  refine ⟨h₂, ?_, hlist₂, hsame.trans hsame'⟩
  have hfirst : h.setObj c.1 c.2 = .ok h₁ := hset
  unfold ListHeap.swap
  rw [hc, call_bind_apply, call_bind_apply, hfirst]
  exact hset'

end Swaps

section Partitions
variable {P Q B C M X B₁ B₂ E : List (A × O)} {i j : A} {y z : A × O}

/-- `i` stops in the middle. -/
theorem scanUp_middle (hlist : h.IsList s (P ++ (X ++ (B₁ ++ y :: B₂) ++ C) ++ Q))
    (hi : ((B₁ ++ y :: B₂ ++ C).map Prod.fst ++ (Q.map Prod.fst ++ [s])).head? = some i)
    (hturns : B₁.length < turns) (hless : ∀ c ∈ B₁, cmp c.2 p < 0) (hy : ¬ cmp y.2 p < 0) :
    h.scanUp cmp p turns i X.length = .ok (y.1, X.length + B₁.length) := by
  have hshape : P ++ (X ++ (B₁ ++ y :: B₂) ++ C) ++ Q = (P ++ X) ++ B₁ ++ y :: (B₂ ++ C ++ Q) := by
    simp
  rw [hshape] at hlist
  have hassoc : B₁ ++ y :: B₂ ++ C = B₁ ++ y :: (B₂ ++ C) := by simp
  rw [hassoc] at hi
  exact hlist.scanUp hless hy ((head_run B₁ (B₂ ++ C) y _).trans hi) X.length hturns

/-- What the sort loop leaves: the objects of the sublist on two sides of the pivot, at most one
of them between, and the links where the sides begin and end. -/
structure Parted (cmp : O → O → ℤ) (p : O) (h h' : ListHeap A O) (s : A) (P M Q : List (A × O))
    (r : Partition A) (left mid right : List (A × O)) : Prop where
  list : h'.IsList s (P ++ (left ++ mid ++ right) ++ Q)
  same : SameLinks h h'
  addrs : (left ++ mid ++ right).map Prod.fst = M.map Prod.fst
  objs : ((left ++ mid ++ right).map Prod.snd).Perm (M.map Prod.snd)
  left_le : ∀ c ∈ left, cmp c.2 p ≤ 0
  mid_eq : ∀ c ∈ mid, cmp c.2 p = 0
  right_ge : ∀ c ∈ right, 0 ≤ cmp c.2 p
  i : (right.map Prod.fst ++ (Q.map Prod.fst ++ [s])).head? = some r.i
  j : (s :: (P ++ left).map Prod.fst).getLast? = some r.j
  lp : r.lp = left.length + mid.length
  rp : r.rp = left.length - 1
  mid_length : mid.length ≤ 1

/-- The sides of a sort loop that is under way: what is on the left is not more than the pivot,
what is on the right is not less. The pivot is still in the middle and not the last there, or
both sides have an element. -/
structure Sides (cmp : O → O → ℤ) (p : O) (left mid right : List (A × O)) : Prop where
  left_le : ∀ c ∈ left, cmp c.2 p ≤ 0
  right_ge : ∀ c ∈ right, 0 ≤ cmp c.2 p
  bounded : (left ≠ [] ∧ right ≠ []) ∨ ∃ c ∈ mid.dropLast, c.2 = p

/-- A run of the sort loop that parts the sublist `M`, and neither side is all of it. -/
def Parts (cmp : O → O → ℤ) (p : O) (h : ListHeap A O) (s : A) (P M Q : List (A × O))
    (run : Call (Partition A × ListHeap A O)) : Prop :=
  ∃ r h' left mid right, run = .ok (r, h') ∧ Parted cmp p h h' s P M Q r left mid right ∧
    left ++ mid ≠ [] ∧ mid ++ right ≠ []

/-- A run that goes on with another list of the same links and objects. -/
theorem Parts.of_perm {run : Call (Partition A × ListHeap A O)} {M M' : List (A × O)}
    (hparts : Parts cmp p h' s P M' Q run) (hsame : SameLinks h h')
    (haddrs : M'.map Prod.fst = M.map Prod.fst) (hobjs : (M'.map Prod.snd).Perm (M.map Prod.snd)) :
    Parts cmp p h s P M Q run := by
  obtain ⟨r, h₂, left, mid, right, hrun, hparted, hleft, hright⟩ := hparts
  have hall : Parted cmp p h h₂ s P M Q r left mid right :=
    { hparted with
      same := hsame.trans hparted.same
      addrs := hparted.addrs.trans haddrs
      objs := hparted.objs.trans hobjs }
  exact ⟨r, h₂, left, mid, right, hrun, hall, hleft, hright⟩

variable [DecidableEq A]

/-- The loop ends when `i` has passed `j`. -/
theorem partition_stop {r : Partition A} {i : A} {lp : ℤ}
    (hscan : h.scanUp cmp p (turns + 1) r.i r.lp = .ok (i, lp)) (hpassed : r.rp < lp) :
    partition cmp p (turns + 1) r h = .ok (⟨i, r.j, lp, r.rp⟩, h) := by
  unfold partition
  rw [hscan, call_bind_apply]
  exact if_pos hpassed

/-- Or when `j` has passed `i`. -/
theorem partition_stop_down {r : Partition A} {i j : A} {lp rp : ℤ}
    (hscan : h.scanUp cmp p (turns + 1) r.i r.lp = .ok (i, lp)) (hgo : ¬ r.rp < lp)
    (hdown : h.scanDown cmp p (turns + 1) r.j r.rp = .ok (j, rp)) (hpassed : rp < lp) :
    partition cmp p (turns + 1) r h = .ok (⟨i, j, lp, rp⟩, h) := by
  unfold partition
  rw [hscan, call_bind_apply]
  dsimp only
  rw [if_neg hgo, hdown, call_bind_apply]
  exact if_pos hpassed

theorem partition_swap {r : Partition A} {i j i' j' : A} {lp rp : ℤ}
    (hscan : h.scanUp cmp p (turns + 1) r.i r.lp = .ok (i, lp)) (hgo : ¬ r.rp < lp)
    (hdown : h.scanDown cmp p (turns + 1) r.j r.rp = .ok (j, rp)) (hgo' : ¬ rp < lp)
    (hswap : h.swap i j = .ok h') (hnext : h'.next i = .ok i') (hprev : h'.prev j = .ok j') :
    partition cmp p (turns + 1) r h = partition cmp p turns ⟨i', j', lp + 1, rp - 1⟩ h' := by
  rw [partition, hscan, call_bind_apply]
  dsimp only
  rw [if_neg hgo, hdown, call_bind_apply]
  dsimp only
  rw [if_neg hgo', hswap, call_bind_apply, hnext, call_bind_apply, hprev]
  rfl

/-- The middle is less than the pivot, and `i` stops on the right. -/
theorem parts_up (hlist : h.IsList s (P ++ (X ++ B ++ C) ++ Q)) (hsides : Sides cmp p X B C)
    (hi : ((B ++ C).map Prod.fst ++ (Q.map Prod.fst ++ [s])).head? = some i)
    (hj : (s :: (P ++ (X ++ B)).map Prod.fst).getLast? = some j) (hturns : B.length < turns + 1)
    (hless : ∀ c ∈ B, cmp c.2 p < 0) (hX : X ≠ []) (hC : C ≠ []) :
    Parts cmp p h s P (X ++ B ++ C) Q
      (partition cmp p (turns + 1) ⟨i, j, X.length, X.length + B.length - 1⟩ h) := by
  obtain ⟨c, C, rfl⟩ := List.exists_cons_of_ne_nil hC
  have hshape : P ++ (X ++ B ++ c :: C) ++ Q = (P ++ X) ++ B ++ c :: (C ++ Q) := by simp
  have hrest := hlist
  rw [hshape] at hrest
  have hstop : ¬ cmp c.2 p < 0 := not_lt.mpr (hsides.right_ge c List.mem_cons_self)
  have hscan : h.scanUp cmp p (turns + 1) i X.length = .ok (c.1, X.length + B.length) :=
    hrest.scanUp hless hstop ((head_run B C c _).trans hi) X.length hturns
  have hrun := @partition_stop _ _ h turns cmp p _ ⟨i, j, X.length, X.length + B.length - 1⟩ _ _
    hscan (by dsimp only; omega)
  refine ⟨_, h, X ++ B, [], c :: C, hrun, ⟨?_, ⟨rfl, rfl, rfl⟩, ?_, ?_, ?_, ?_, hsides.right_ge, rfl,
    hj, ?_, ?_, Nat.zero_le 1⟩, ?_, List.cons_ne_nil c C⟩
  · rw [List.append_nil]
    exact hlist
  · rw [List.append_nil]
  · rw [List.append_nil]
  · intro d hd
    rcases List.mem_append.mp hd with hd | hd
    · exact hsides.left_le d hd
    · exact (hless d hd).le
  · exact fun d hd => absurd hd List.not_mem_nil
  · simp
  · simp
  · simp [hX]

/-- All of the middle that `i` has not passed is more than the pivot, and `j` stops on the
left. -/
theorem parts_down (hlist : h.IsList s (P ++ (X ++ (B₁ ++ y :: B₂) ++ C) ++ Q))
    (hsides : Sides cmp p X (B₁ ++ y :: B₂) C)
    (hi : ((B₁ ++ y :: B₂ ++ C).map Prod.fst ++ (Q.map Prod.fst ++ [s])).head? = some i)
    (hj : (s :: (P ++ (X ++ (B₁ ++ y :: B₂))).map Prod.fst).getLast? = some j)
    (hturns : (B₁ ++ y :: B₂).length < turns + 1) (hless : ∀ c ∈ B₁, cmp c.2 p < 0)
    (hmore : ∀ c ∈ y :: B₂, 0 < cmp c.2 p) (hX : X ≠ []) :
    Parts cmp p h s P (X ++ (B₁ ++ y :: B₂) ++ C) Q
      (partition cmp p (turns + 1) ⟨i, j, X.length, X.length + (B₁ ++ y :: B₂).length - 1⟩ h) := by
  have hlength : ((B₁ ++ y :: B₂).length : ℤ) = B₁.length + 1 + B₂.length := by
    rw [List.length_append, List.length_cons]
    push_cast
    ring
  have hy : ¬ cmp y.2 p < 0 := not_lt.mpr (hmore y List.mem_cons_self).le
  have hbound : B₁.length < turns + 1 := by omega
  have hscan := scanUp_middle hlist hi hbound hless hy
  have hleft : ∀ c ∈ X ++ B₁, cmp c.2 p ≤ 0 := by
    intro c hc
    rcases List.mem_append.mp hc with hc | hc
    · exact hsides.left_le c hc
    · exact (hless c hc).le
  obtain ⟨D, z, hz⟩ : ∃ D z, X ++ B₁ = D ++ [z] := by
    rcases List.eq_nil_or_concat' (X ++ B₁) with hnil | hconcat
    · exact absurd (List.append_eq_nil_iff.mp hnil).1 hX
    · exact hconcat
  have hstop : ¬ 0 < cmp z.2 p := not_lt.mpr (hleft z (hz ▸ by simp))
  have hshape : P ++ (X ++ (B₁ ++ y :: B₂) ++ C) ++ Q = (P ++ D) ++ z :: (y :: B₂) ++ (C ++ Q) := by
    have hassoc : X ++ (B₁ ++ y :: B₂) = D ++ [z] ++ y :: B₂ := by
      rw [← List.append_assoc, hz]
    rw [hassoc]
    simp
  have hdown : h.scanDown cmp p (turns + 1) j (X.length + (B₁ ++ y :: B₂).length - 1) =
      .ok (z.1, X.length + (B₁ ++ y :: B₂).length - 1 - (y :: B₂).length) := by
    have hrest := hlist
    rw [hshape] at hrest
    refine hrest.scanDown hmore hstop ?_ _ (by rw [List.length_cons]; omega)
    rw [last_run s (P ++ D), ← hj]
    have hassoc : P ++ (X ++ (B₁ ++ y :: B₂)) = P ++ D ++ z :: y :: B₂ := by
      rw [← List.append_assoc X, hz]
      simp
    rw [hassoc]
  have hrun := @partition_stop_down _ _ h turns cmp p _
    ⟨i, j, X.length, X.length + (B₁ ++ y :: B₂).length - 1⟩ _ _ _ _ hscan (by dsimp only; omega)
    hdown (by rw [List.length_cons]; push_cast; omega)
  have hall : X ++ B₁ ++ [] ++ (y :: B₂ ++ C) = X ++ (B₁ ++ y :: B₂) ++ C := by simp
  refine ⟨_, h, X ++ B₁, [], y :: B₂ ++ C, hrun, ⟨?_, ⟨rfl, rfl, rfl⟩, ?_, ?_, hleft, ?_, ?_, rfl,
    ?_, ?_, ?_, Nat.zero_le 1⟩, ?_, List.cons_ne_nil y _⟩
  · rw [hall]
    exact hlist
  · rw [hall]
  · rw [hall]
  · exact fun d hd => absurd hd List.not_mem_nil
  · intro c hc
    rcases List.mem_append.mp hc with hc | hc
    · exact (hmore c hc).le
    · exact hsides.right_ge c hc
  · rw [hz, ← List.append_assoc]
    exact seen_last s (P ++ D) z
  · simp
  · have hX : ((X ++ B₁).length : ℤ) = X.length + B₁.length := by simp
    show (X.length + (B₁ ++ y :: B₂).length - 1 - (y :: B₂).length : ℤ) = (X ++ B₁).length - 1
    rw [hlength, hX, List.length_cons]
    push_cast
    ring
  · simp [hX]

/-- Both stop at the same element, which stays between the sides. -/
theorem parts_self (hlist : h.IsList s (P ++ (X ++ (B₁ ++ y :: E) ++ C) ++ Q))
    (hsides : Sides cmp p X (B₁ ++ y :: E) C)
    (hi : ((B₁ ++ y :: E ++ C).map Prod.fst ++ (Q.map Prod.fst ++ [s])).head? = some i)
    (hj : (s :: (P ++ (X ++ (B₁ ++ y :: E))).map Prod.fst).getLast? = some j)
    (hturns : (B₁ ++ y :: E).length < turns + 1) (hless : ∀ c ∈ B₁, cmp c.2 p < 0)
    (hy : cmp y.2 p = 0) (hmore : ∀ c ∈ E, 0 < cmp c.2 p) (hC : E ++ C ≠ []) :
    Parts cmp p h s P (X ++ (B₁ ++ y :: E) ++ C) Q
      (partition cmp p (turns + 1) ⟨i, j, X.length, X.length + (B₁ ++ y :: E).length - 1⟩ h) := by
  have hlength : ((B₁ ++ y :: E).length : ℤ) = B₁.length + 1 + E.length := by
    rw [List.length_append, List.length_cons]
    push_cast
    ring
  have hbound : B₁.length < turns + 1 := by omega
  have hscan := scanUp_middle hlist hi hbound hless hy.not_lt
  have hshape : P ++ (X ++ (B₁ ++ y :: E) ++ C) ++ Q = (P ++ (X ++ B₁)) ++ y :: (E ++ C ++ Q) := by
    simp
  have hdown : h.scanDown cmp p (turns + 1) j (X.length + (B₁ ++ y :: E).length - 1) =
      .ok (y.1, X.length + (B₁ ++ y :: E).length - 1 - E.length) := by
    have hrest := hlist
    have hassoc : P ++ (X ++ (B₁ ++ y :: E) ++ C) ++ Q = (P ++ (X ++ B₁)) ++ y :: E ++ (C ++ Q) := by
      simp
    rw [hassoc] at hrest
    refine hrest.scanDown hmore hy.not_gt ?_ _ (by omega)
    rw [last_run s (P ++ (X ++ B₁)), ← hj]
    have hassoc : P ++ (X ++ (B₁ ++ y :: E)) = P ++ (X ++ B₁) ++ y :: E := by simp
    rw [hassoc]
  have hright : ∀ c ∈ E ++ C, 0 ≤ cmp c.2 p := by
    intro c hc
    rcases List.mem_append.mp hc with hc | hc
    · exact (hmore c hc).le
    · exact hsides.right_ge c hc
  obtain ⟨c, C', hcons⟩ := List.exists_cons_of_ne_nil hC
  have hself := hlist
  rw [hshape] at hself
  obtain ⟨h', hswap, hlist', hsame⟩ := hself.swap_self
  rw [hcons] at hlist'
  have hnext : h'.next y.1 = .ok c.1 := (hlist'.neighbours).1
  obtain ⟨b, hb⟩ : ∃ b, (s :: (P ++ (X ++ B₁)).map Prod.fst).getLast? = some b :=
    ⟨_, List.getLast?_eq_some_getLast (List.cons_ne_nil _ _)⟩
  have hprev : h'.prev y.1 = .ok b := (hlist'.next_after hb rfl).2
  have hgo : ¬ (X.length + (B₁ ++ y :: E).length - 1 : ℤ) < X.length + B₁.length := by omega
  have hgo' : ¬ (X.length + (B₁ ++ y :: E).length - 1 - E.length : ℤ) < X.length + B₁.length := by
    omega
  have hrun := @partition_swap _ _ h h' turns cmp p _
    ⟨i, j, X.length, X.length + (B₁ ++ y :: E).length - 1⟩ _ _ _ _ _ _ hscan hgo hdown hgo' hswap
    hnext hprev
  -- the next round ends at once: `i` is on the right, and has passed `j`
  obtain ⟨turns, rfl⟩ : ∃ n, turns = n + 1 := by
    rw [List.length_append, List.length_cons] at hturns
    exact Nat.exists_eq_succ_of_ne_zero (by omega)
  have hstop : ¬ cmp c.2 p < 0 := not_lt.mpr (hright c (hcons ▸ List.mem_cons_self))
  have hlater : h'.scanUp cmp p (turns + 1) c.1 (X.length + B₁.length + 1) =
      .ok (c.1, X.length + B₁.length + 1 + (([] : List (A × O)).length : ℤ)) := by
    have hassoc : (P ++ (X ++ B₁)) ++ y :: (c :: C' ++ Q) =
        (P ++ (X ++ B₁) ++ [y]) ++ [] ++ c :: (C' ++ Q) := by simp
    rw [hassoc] at hlist'
    exact hlist'.scanUp (fun d hd => absurd hd List.not_mem_nil) hstop rfl _ (Nat.succ_pos turns)
  have hend := @partition_stop _ _ h' turns cmp p _
    ⟨c.1, b, X.length + B₁.length + 1, X.length + (B₁ ++ y :: E).length - 1 - E.length - 1⟩ _ _
    hlater (by rw [List.length_nil]; dsimp only; omega)
  have hall : X ++ B₁ ++ [y] ++ (E ++ C) = X ++ (B₁ ++ y :: E) ++ C := by simp
  refine ⟨_, h', X ++ B₁, [y], E ++ C, hrun.trans hend, ⟨?_, hsame, ?_, ?_, ?_, ?_, hright, ?_, hb,
    ?_, ?_, le_rfl⟩, by simp, List.cons_ne_nil y _⟩
  · rw [hall]
    rw [hcons.symm, ← hshape] at hlist'
    exact hlist'
  · rw [hall]
  · rw [hall]
  · intro d hd
    rcases List.mem_append.mp hd with hd | hd
    · exact hsides.left_le d hd
    · exact (hless d hd).le
  · intro d hd
    rw [List.mem_singleton.mp hd]
    exact hy
  · rw [hcons]
    rfl
  · simp
  · have hX : ((X ++ B₁).length : ℤ) = X.length + B₁.length := by simp
    show (X.length + (B₁ ++ y :: E).length - 1 - E.length - 1 : ℤ) = (X ++ B₁).length - 1
    rw [hlength, hX]
    ring

/-- Two elements are swapped, and the loop goes on between them. -/
theorem parts_swap {M : List (A × O)}
    (hlist : h.IsList s (P ++ (X ++ (B₁ ++ y :: (M ++ z :: E)) ++ C) ++ Q))
    (hsides : Sides cmp p X (B₁ ++ y :: (M ++ z :: E)) C)
    (hi : ((B₁ ++ y :: (M ++ z :: E) ++ C).map Prod.fst ++ (Q.map Prod.fst ++ [s])).head? = some i)
    (hj : (s :: (P ++ (X ++ (B₁ ++ y :: (M ++ z :: E)))).map Prod.fst).getLast? = some j)
    (hturns : (B₁ ++ y :: (M ++ z :: E)).length < turns + 1) (hless : ∀ c ∈ B₁, cmp c.2 p < 0)
    (hy : ¬ cmp y.2 p < 0) (hz : ¬ 0 < cmp z.2 p) (hmore : ∀ c ∈ E, 0 < cmp c.2 p) :
    ∃ h' i' j', partition cmp p (turns + 1)
        ⟨i, j, X.length, X.length + (B₁ ++ y :: (M ++ z :: E)).length - 1⟩ h =
      partition cmp p turns ⟨i', j', (X ++ B₁ ++ [(y.1, z.2)]).length,
        (X ++ B₁ ++ [(y.1, z.2)]).length + M.length - 1⟩ h' ∧
      h'.IsList s (P ++ (X ++ B₁ ++ [(y.1, z.2)] ++ M ++ ((z.1, y.2) :: E ++ C)) ++ Q) ∧
      SameLinks h h' ∧ Sides cmp p (X ++ B₁ ++ [(y.1, z.2)]) M ((z.1, y.2) :: E ++ C) ∧
      ((M ++ ((z.1, y.2) :: E ++ C)).map Prod.fst ++ (Q.map Prod.fst ++ [s])).head? = some i' ∧
      (s :: (P ++ (X ++ B₁ ++ [(y.1, z.2)] ++ M)).map Prod.fst).getLast? = some j' := by
  have hlength : ((B₁ ++ y :: (M ++ z :: E)).length : ℤ) =
      B₁.length + 1 + (M.length + 1 + E.length) := by
    rw [List.length_append, List.length_cons, List.length_append, List.length_cons]
    push_cast
    ring
  have hX : ((X ++ B₁ ++ [(y.1, z.2)]).length : ℤ) = X.length + B₁.length + 1 := by
    simp [add_assoc]
  have hturns' : B₁.length < turns + 1 ∧ E.length < turns + 1 := by omega
  have hscan := scanUp_middle hlist hi hturns'.1 hless hy
  have hdown : h.scanDown cmp p (turns + 1) j
      (X.length + (B₁ ++ y :: (M ++ z :: E)).length - 1) =
      .ok (z.1, X.length + (B₁ ++ y :: (M ++ z :: E)).length - 1 - E.length) := by
    have hrest := hlist
    have hassoc : P ++ (X ++ (B₁ ++ y :: (M ++ z :: E)) ++ C) ++ Q =
        (P ++ (X ++ (B₁ ++ y :: M))) ++ z :: E ++ (C ++ Q) := by simp
    rw [hassoc] at hrest
    refine hrest.scanDown hmore hz ?_ _ hturns'.2
    rw [last_run s (P ++ (X ++ (B₁ ++ y :: M))), ← hj]
    have hassoc : P ++ (X ++ (B₁ ++ y :: (M ++ z :: E))) =
        P ++ (X ++ (B₁ ++ y :: M)) ++ z :: E := by simp
    rw [hassoc]
  have hshape : P ++ (X ++ (B₁ ++ y :: (M ++ z :: E)) ++ C) ++ Q =
      (P ++ (X ++ B₁)) ++ y :: M ++ z :: (E ++ C ++ Q) := by simp
  have hpair := hlist
  rw [hshape] at hpair
  obtain ⟨h', hswap, hlist', hsame⟩ := hpair.swap
  -- the links next to the swapped ones, where the next round starts
  obtain ⟨i', hi'⟩ : ∃ i', ((M ++ ((z.1, y.2) :: E ++ C)).map Prod.fst ++
      (Q.map Prod.fst ++ [s])).head? = some i' :=
    ⟨_, List.head?_eq_some_head (by simp)⟩
  obtain ⟨j', hj'⟩ : ∃ j',
      (s :: (P ++ (X ++ B₁ ++ [(y.1, z.2)] ++ M)).map Prod.fst).getLast? = some j' :=
    ⟨_, List.getLast?_eq_some_getLast (List.cons_ne_nil _ _)⟩
  have hnext : h'.next y.1 = .ok i' := by
    have hassoc : (P ++ (X ++ B₁)) ++ (y.1, z.2) :: M ++ (z.1, y.2) :: (E ++ C ++ Q) =
        (P ++ (X ++ B₁)) ++ [(y.1, z.2)] ++ (M ++ ((z.1, y.2) :: E ++ C) ++ Q) := by simp
    have hlist₁ := hlist'
    rw [hassoc] at hlist₁
    refine (hlist₁.next_after (seen_last s _ (y.1, z.2)) ?_).1
    have hmap : (M ++ ((z.1, y.2) :: E ++ C) ++ Q).map Prod.fst ++ [s] =
        (M ++ ((z.1, y.2) :: E ++ C)).map Prod.fst ++ (Q.map Prod.fst ++ [s]) := by
      rw [List.map_append, List.append_assoc]
    rw [hmap]
    exact hi'
  have hprev : h'.prev z.1 = .ok j' := by
    have hassoc : (P ++ (X ++ B₁)) ++ (y.1, z.2) :: M ++ (z.1, y.2) :: (E ++ C ++ Q) =
        (P ++ (X ++ B₁ ++ [(y.1, z.2)] ++ M)) ++ (z.1, y.2) :: (E ++ C ++ Q) := by simp
    have hlist₁ := hlist'
    rw [hassoc] at hlist₁
    exact (hlist₁.next_after hj' rfl).2
  have hgo : ¬ (X.length + (B₁ ++ y :: (M ++ z :: E)).length - 1 : ℤ) < X.length + B₁.length := by
    omega
  have hgo' : ¬ (X.length + (B₁ ++ y :: (M ++ z :: E)).length - 1 - E.length : ℤ) <
      X.length + B₁.length := by
    omega
  have hrun := @partition_swap _ _ h h' turns cmp p _
    ⟨i, j, X.length, X.length + (B₁ ++ y :: (M ++ z :: E)).length - 1⟩ _ _ _ _ _ _ hscan hgo hdown
    hgo' hswap hnext hprev
  refine ⟨h', i', j', ?_, ?_, hsame, ⟨?_, ?_, Or.inl ⟨by simp, by simp⟩⟩, hi', hj'⟩
  · have hrp : (X.length + (B₁ ++ y :: (M ++ z :: E)).length - 1 - E.length - 1 : ℤ) =
        (X ++ B₁ ++ [(y.1, z.2)]).length + M.length - 1 := by
      rw [hX, hlength]
      ring
    rw [hrun, hrp, hX]
  · have hassoc : P ++ (X ++ B₁ ++ [(y.1, z.2)] ++ M ++ ((z.1, y.2) :: E ++ C)) ++ Q =
        (P ++ (X ++ B₁)) ++ (y.1, z.2) :: M ++ (z.1, y.2) :: (E ++ C ++ Q) := by simp
    rw [hassoc]
    exact hlist'
  · intro c hc
    rcases List.mem_append.mp hc with hc | hc
    · rcases List.mem_append.mp hc with hc | hc
      · exact hsides.left_le c hc
      · exact (hless c hc).le
    · rw [List.mem_singleton.mp hc]
      exact not_lt.mp hz
  · intro c hc
    rcases List.mem_append.mp hc with hc | hc
    · rcases List.mem_cons.mp hc with rfl | hc
      · exact not_lt.mp hy
      · exact (hmore c hc).le
    · exact hsides.right_ge c hc

/-- The sort loop from any of its rounds, by induction on the rounds: each takes the middle apart
where the two scans stop. -/
theorem IsList.partition (hlist : h.IsList s (P ++ (X ++ B ++ C) ++ Q))
    (hpivot : cmp p p = 0) (hsides : Sides cmp p X B C)
    (hi : ((B ++ C).map Prod.fst ++ (Q.map Prod.fst ++ [s])).head? = some i)
    (hj : (s :: (P ++ (X ++ B)).map Prod.fst).getLast? = some j)
    (hturns : B.length + 1 < turns) :
    Parts cmp p h s P (X ++ B ++ C) Q
      (ListHeap.partition cmp p turns ⟨i, j, X.length, X.length + B.length - 1⟩ h) := by
  induction turns generalizing h X B C i j with
  | zero => exact absurd hturns (Nat.not_lt_zero _)
  | succ turns ih =>
    obtain ⟨B₁, B₂, rfl, hless, hstops⟩ := exists_run (fun c : A × O => decide (cmp c.2 p < 0)) B
    have hless : ∀ c ∈ B₁, cmp c.2 p < 0 := fun c hc => of_decide_eq_true (hless c hc)
    -- an object that is not less than itself stops the scans
    have hstay : ∀ c ∈ B₁, c.2 ≠ p := by
      intro c hc heq
      have hlt := hless c hc
      rw [heq, hpivot] at hlt
      exact lt_irrefl _ hlt
    cases B₂ with
    | nil =>
      rw [List.append_nil] at *
      obtain ⟨hX, hC⟩ : X ≠ [] ∧ C ≠ [] := by
        rcases hsides.bounded with hboth | ⟨c, hc, heq⟩
        · exact hboth
        · exact absurd heq (hstay c (List.mem_of_mem_dropLast hc))
      exact parts_up hlist hsides hi hj (by omega) hless hX hC
    | cons y B₂ =>
      have hy : ¬ cmp y.2 p < 0 := of_decide_eq_false (hstops y rfl)
      obtain ⟨D, E, hDE, hmore, hback⟩ :=
        exists_run_back (fun c : A × O => decide (0 < cmp c.2 p)) (y :: B₂)
      have hmore : ∀ c ∈ E, 0 < cmp c.2 p := fun c hc => of_decide_eq_true (hmore c hc)
      have hstay' : ∀ c ∈ E, c.2 ≠ p := by
        intro c hc heq
        have hlt := hmore c hc
        rw [heq, hpivot] at hlt
        exact lt_irrefl _ hlt
      cases D with
      | nil =>
        obtain rfl : y :: B₂ = E := hDE
        have hX : X ≠ [] := by
          rcases hsides.bounded with hboth | ⟨c, hc, heq⟩
          · exact hboth.1
          · rcases List.mem_append.mp (List.mem_of_mem_dropLast hc) with hc | hc
            · exact absurd heq (hstay c hc)
            · exact absurd heq (hstay' c hc)
        exact parts_down hlist hsides hi hj (by omega) hless hmore hX
      | cons y' D =>
        rw [List.cons_append] at hDE
        obtain ⟨rfl, rfl⟩ := List.cons.inj hDE
        rcases List.eq_nil_or_concat' D with rfl | ⟨M, z, rfl⟩
        · have hstop : ¬ 0 < cmp y.2 p := of_decide_eq_false (hback y rfl)
          have hC : E ++ C ≠ [] := by
            intro hnil
            obtain ⟨rfl, rfl⟩ := List.append_eq_nil_iff.mp hnil
            rcases hsides.bounded with hboth | ⟨c, hc, heq⟩
            · exact hboth.2 rfl
            · rw [List.append_nil, List.dropLast_concat] at hc
              exact hstay c hc heq
          have hlength : (B₁ ++ y :: E).length + 1 < turns + 1 := hturns
          exact parts_self hlist hsides hi hj (by omega) hless
            (le_antisymm (not_lt.mp hstop) (not_lt.mp hy)) hmore hC
        · have hz : ¬ 0 < cmp z.2 p := by
            refine of_decide_eq_false (hback z ?_)
            rw [← List.cons_append]
            exact List.getLast?_concat
          have hmove : M ++ [z] ++ E = M ++ z :: E := by simp
          rw [hmove] at hlist hsides hi hj hturns ⊢
          obtain ⟨h', i', j', hrun, hlist', hsame, hsides', hi', hj'⟩ :=
            parts_swap hlist hsides hi hj (Nat.lt_of_succ_lt hturns) hless hy hz hmore
          rw [hrun]
          have hshorter : M.length + 1 < turns := by
            rw [List.length_append, List.length_cons, List.length_append, List.length_cons] at hturns
            omega
          refine (ih hlist' hsides' hi' hj' hshorter).of_perm hsame ?_ ?_
          · simp
          · have hmiddle := (swap_perm y.2 z.2 (M.map Prod.snd)).append_right (E.map Prod.snd)
            have hall := ((hmiddle.append_left ((X ++ B₁).map Prod.snd))).append_right
              (C.map Prod.snd)
            simpa using hall

end Partitions

section Sorting
variable {P Q M M' left mid right : List (A × O)} {l r : A}

theorem Compares.mono {xs ys : List O} (hcmp : Compares cmp xs) (hsub : ys ⊆ xs) :
    Compares cmp ys where
  flip a ha b hb := hcmp.flip a (hsub ha) b (hsub hb)
  trans a ha b hb c hc := hcmp.trans a (hsub ha) b (hsub hb) c (hsub hc)

theorem Compares.self {xs : List O} (hcmp : Compares cmp xs) (hp : p ∈ xs) : cmp p p = 0 := by
  have hflip := hcmp.flip p hp p hp
  omega

/-- What is not more than the pivot comes before what is not less. -/
theorem Compares.across {xs : List O} {x y : O} (hcmp : Compares cmp xs) (hp : p ∈ xs)
    (hx : x ∈ xs) (hy : y ∈ xs) (hxp : cmp x p ≤ 0) (hyp : 0 ≤ cmp y p) : cmp x y ≤ 0 := by
  have hflip := hcmp.flip y hy p hp
  exact hcmp.trans x hx p hp y hy hxp (by omega)

/-- A sublist has been sorted. -/
structure Sorted (cmp : O → O → ℤ) (h h' : ListHeap A O) (s : A) (P M M' Q : List (A × O)) :
    Prop where
  list : h'.IsList s (P ++ M' ++ Q)
  same : SameLinks h h'
  addrs : M'.map Prod.fst = M.map Prod.fst
  objs : (M'.map Prod.snd).Perm (M.map Prod.snd)
  sorted : (M'.map Prod.snd).Pairwise fun x y => cmp x y ≤ 0

/-- Nothing is left to do with less than two elements. -/
theorem Sorted.short (hlist : h.IsList s (P ++ M ++ Q)) (hshort : M.length ≤ 1) :
    Sorted cmp h h s P M M Q where
  list := hlist
  same := ⟨rfl, rfl, rfl⟩
  addrs := rfl
  objs := List.Perm.refl _
  sorted := by
    cases M with
    | nil => exact List.Pairwise.nil
    | cons c M =>
      obtain rfl : M = [] := List.length_eq_zero_iff.mp (Nat.le_zero.mp (Nat.le_of_succ_le_succ hshort))
      exact List.pairwise_singleton _ _

/-- Two sorted sides with the pivot between. -/
theorem pairwise_sides {xs ls ms rs : List O} (hcmp : Compares cmp xs) (hp : p ∈ xs)
    (hsub : ls ++ ms ++ rs ⊆ xs) (hls : ls.Pairwise fun x y => cmp x y ≤ 0)
    (hrs : rs.Pairwise fun x y => cmp x y ≤ 0) (hle : ∀ x ∈ ls, cmp x p ≤ 0)
    (heq : ∀ x ∈ ms, cmp x p = 0) (hge : ∀ x ∈ rs, 0 ≤ cmp x p) :
    (ls ++ ms ++ rs).Pairwise fun x y => cmp x y ≤ 0 := by
  have hacross (x y : O) (hx : x ∈ ls ++ ms ++ rs) (hy : y ∈ ls ++ ms ++ rs) (hxp : cmp x p ≤ 0)
      (hyp : 0 ≤ cmp y p) : cmp x y ≤ 0 :=
    hcmp.across hp (hsub hx) (hsub hy) hxp hyp
  have hms : ms.Pairwise fun x y => cmp x y ≤ 0 := by
    refine List.pairwise_of_forall_mem_list fun x hx y hy => ?_
    exact hacross x y (by simp [hx]) (by simp [hy]) (heq x hx).le (heq y hy).ge
  refine List.pairwise_append.mpr ⟨List.pairwise_append.mpr ⟨hls, hms, ?_⟩, hrs, ?_⟩
  · intro x hx y hy
    exact hacross x y (by simp [hx]) (by simp [hy]) (hle x hx) (heq y hy).ge
  · intro x hx y hy
    refine hacross x y (List.mem_append_left rs hx) (by simp [hy]) ?_ (hge y hy)
    rcases List.mem_append.mp hx with hx | hx
    · exact hle x hx
    · exact (heq x hx).le

/-- The element that gives the pivot: the one before the middle, never the last. -/
theorem IsList.pivot (hlist : h.IsList s (P ++ M ++ Q)) (hsize : 2 ≤ M.length)
    (hl : (M.map Prod.fst).head? = some l) :
    ∃ c ∈ M.dropLast, h.followNext ((M.length : ℤ).tdiv 2 - 1).toNat l = .ok c.1 := by
  have hk : ((M.length : ℤ).tdiv 2 - 1).toNat = M.length / 2 - 1 := by
    have hdiv : (M.length : ℤ).tdiv 2 = (M.length / 2 : ℕ) := rfl
    rw [hdiv]
    omega
  rw [hk]
  have hlt : M.length / 2 - 1 < M.dropLast.length := by
    rw [List.length_dropLast]
    omega
  refine ⟨M.dropLast[M.length / 2 - 1], List.getElem_mem hlt, ?_⟩
  have hpath : h.links.Path (s :: (P ++ M ++ Q).map Prod.fst ++ [s]) := hlist.ring.path
  -- the sublist starts after the sentinel and `P`
  have hplace (n : ℕ) (hn : n < M.length) :
      (s :: (P ++ M ++ Q).map Prod.fst ++ [s])[P.length + 1 + n]? = some M[n].1 := by
    have hshift : P.length + 1 + n = P.length + n + 1 := Nat.add_right_comm ..
    rw [hshift, List.cons_append, List.getElem?_cons_succ, List.getElem?_append_left (by simp; omega),
      List.getElem?_map, List.getElem?_append_left (by simp; omega),
      List.getElem?_append_right (Nat.le_add_right ..), Nat.add_sub_cancel_left,
      List.getElem?_eq_getElem hn]
    rfl
  have hfirst : M[0].1 = l := by
    rw [List.head?_eq_getElem?, List.getElem?_map, List.getElem?_eq_getElem (by omega)] at hl
    exact Option.some.inj hl
  rw [List.length_dropLast] at hlt
  have hwalk := @followNext_path _ _ h _ _ _ hpath hlist.live_path (M.length / 2 - 1) (P.length + 1)
    (hfirst ▸ hplace 0 (by omega)) (hplace _ (Nat.lt_of_lt_of_le hlt (Nat.sub_le ..)))
  rw [List.getElem_dropLast]
  exact hwalk

variable [DecidableEq A]

/-- A side is sorted if it has more than one element. -/
theorem sort_side (l r : A) {n : ℤ} (hlist : h.IsList s (P ++ M ++ Q)) (hn : n = M.length)
    (hlong : 2 ≤ M.length → ∃ h' M', quickSort cmp turns l r M.length h = .ok h' ∧
      Sorted cmp h h' s P M M' Q) :
    ∃ h' M', (if 1 < n then quickSort cmp turns l r n h else .ok h) = .ok h' ∧
      Sorted cmp h h' s P M M' Q := by
  by_cases hmore : 1 < n
  · rw [if_pos hmore, hn]
    exact hlong (by omega)
  · rw [if_neg hmore]
    exact ⟨h, M, rfl, Sorted.short hlist (by omega)⟩

/-- The sort loop from its start, with a pivot that is not the last object. -/
theorem IsList.partition_start (hlist : h.IsList s (P ++ M ++ Q)) (hpivot : cmp p p = 0)
    (hc : c ∈ M.dropLast) (hcp : c.2 = p) (hl : (M.map Prod.fst).head? = some l)
    (hr : (M.map Prod.fst).getLast? = some r) (hturns : M.length + 1 < turns) :
    Parts cmp p h s P M Q (ListHeap.partition cmp p turns ⟨l, r, 0, M.length - 1⟩ h) := by
  have hsides : Sides cmp p [] M [] :=
    { left_le := fun d hd => absurd hd List.not_mem_nil
      right_ge := fun d hd => absurd hd List.not_mem_nil
      bounded := Or.inr ⟨c, hc, hcp⟩ }
  have hi : ((M ++ []).map Prod.fst ++ (Q.map Prod.fst ++ [s])).head? = some l := by
    rw [List.append_nil, List.head?_append, hl]
    rfl
  have hj : (s :: (P ++ ([] ++ M)).map Prod.fst).getLast? = some r := by
    rw [List.nil_append, List.map_append, List.getLast?_cons, List.getLast?_append, hr]
    rfl
  have hwhole : h.IsList s (P ++ ([] ++ M ++ []) ++ Q) := by
    rw [List.nil_append, List.append_nil]
    exact hlist
  have hparts := hwhole.partition hpivot hsides hi hj hturns
  rwa [List.nil_append, List.append_nil, List.length_nil, Nat.cast_zero, zero_add] at hparts

/-- By induction on the calls: each side is shorter than the sublist. -/
theorem IsList.quickSort (hlist : h.IsList s (P ++ M ++ Q)) (hcmp : Compares cmp (M.map Prod.snd))
    (hl : (M.map Prod.fst).head? = some l) (hr : (M.map Prod.fst).getLast? = some r)
    (hsize : 2 ≤ M.length) (hturns : M.length + 1 < turns) :
    ∃ h' M', ListHeap.quickSort cmp turns l r M.length h = .ok h' ∧
      Sorted cmp h h' s P M M' Q := by
  induction turns generalizing h P M Q l r with
  | zero => exact absurd hturns (Nat.not_lt_zero _)
  | succ turns ih =>
    obtain ⟨c, hc, hwalk⟩ := hlist.pivot hsize hl
    have hcM : c ∈ M := List.mem_of_mem_dropLast hc
    have hobj : h.object c.1 = .ok c.2 := hlist.object_ok (by simp [hcM])
    have hp : c.2 ∈ M.map Prod.snd := List.mem_map_of_mem hcM
    obtain ⟨b, h₁, left, mid, right, hrun, hparted, hleft, hright⟩ :=
      hlist.partition_start (hcmp.self hp) hc rfl hl hr hturns
    have hlength : M.length = left.length + mid.length + right.length := by
      rw [← List.length_map Prod.fst, ← hparted.addrs]
      simp [add_assoc]
    have hsub : (left ++ mid ++ right).map Prod.snd ⊆ M.map Prod.snd := hparted.objs.subset
    rw [List.map_append, List.map_append] at hsub
    -- the left side
    have hrp : b.rp + 1 = left.length := by
      rw [hparted.rp]
      ring
    have hlist₁ : h₁.IsList s (P ++ left ++ (mid ++ right ++ Q)) := by
      have hassoc : P ++ left ++ (mid ++ right ++ Q) = P ++ (left ++ mid ++ right) ++ Q := by simp
      rw [hassoc]
      exact hparted.list
    obtain ⟨h₂, left', hcall, hsorted⟩ := sort_side l b.j hlist₁ hrp fun hlong => by
      have hne : left ≠ [] := fun hnil => by simp [hnil] at hlong
      have hshorter : left.length + 1 < turns := by
        have hpos : 0 < (mid ++ right).length := List.length_pos_of_ne_nil hright
        rw [List.length_append] at hpos
        omega
      have hxs : left.map Prod.snd ⊆ M.map Prod.snd := fun x hx =>
        hsub (List.mem_append_left _ (List.mem_append_left _ hx))
      refine ih hlist₁ (hcmp.mono hxs) ?_ ?_ hlong hshorter
      · have hhead := hparted.addrs ▸ hl
        rwa [List.append_assoc, List.map_append, List.head?_append_of_ne_nil _ (by simp [hne])] at hhead
      · obtain ⟨left, d, rfl⟩ := (List.eq_nil_or_concat' left).resolve_left hne
        have hlast := hparted.j
        rw [← List.append_assoc, seen_last] at hlast
        rw [List.map_append, ← hlast]
        exact List.getLast?_concat
    -- the right side
    have hlp : (M.length : ℤ) - b.lp = right.length := by
      rw [hparted.lp, hlength]
      push_cast
      ring
    have hlist₂ : h₂.IsList s (P ++ left' ++ mid ++ right ++ Q) := by
      have hassoc : P ++ left' ++ mid ++ right ++ Q = P ++ left' ++ (mid ++ right ++ Q) := by simp
      rw [hassoc]
      exact hsorted.list
    obtain ⟨h₃, right', hcall', hsorted'⟩ := sort_side b.i r hlist₂ hlp fun hlong => by
      have hne : right ≠ [] := fun hnil => by simp [hnil] at hlong
      have hshorter : right.length + 1 < turns := by
        have hpos : 0 < (left ++ mid).length := List.length_pos_of_ne_nil hleft
        rw [List.length_append] at hpos
        omega
      have hxs : right.map Prod.snd ⊆ M.map Prod.snd := fun x hx =>
        hsub (List.mem_append_right _ hx)
      refine ih hlist₂ (hcmp.mono hxs) ?_ ?_ hlong hshorter
      · have hhead := hparted.i
        rwa [List.head?_append_of_ne_nil _ (by simp [hne])] at hhead
      · have hlast := hparted.addrs ▸ hr
        rwa [List.map_append, List.getLast?_append_of_ne_nil _ (by simp [hne])] at hlast
    refine ⟨h₃, left' ++ mid ++ right', ?_, ?_, ?_, ?_, ?_, ?_⟩
    · unfold ListHeap.quickSort
      rw [hwalk, call_bind_apply, hobj, call_bind_apply, hrun, call_bind_apply]
      dsimp only
      rw [hcall, call_bind_apply]
      exact hcall'
    · have hassoc : P ++ (left' ++ mid ++ right') ++ Q = P ++ left' ++ mid ++ right' ++ Q := by simp
      rw [hassoc]
      exact hsorted'.list
    · exact (hparted.same.trans hsorted.same).trans hsorted'.same
    · rw [List.map_append, List.map_append, hsorted.addrs, hsorted'.addrs]
      simpa using hparted.addrs
    · rw [List.map_append, List.map_append]
      have hperm := ((hsorted.objs.append_right (mid.map Prod.snd)).append hsorted'.objs)
      refine hperm.trans ?_
      simpa using hparted.objs
    · rw [List.map_append, List.map_append]
      refine pairwise_sides hcmp hp (fun x hx => hsub ?_) hsorted.sorted hsorted'.sorted ?_ ?_ ?_
      · exact ((hsorted.objs.append_right (mid.map Prod.snd)).append hsorted'.objs).subset hx
      · intro x hx
        obtain ⟨d, hd, rfl⟩ := List.mem_map.mp (hsorted.objs.subset hx)
        exact hparted.left_le d hd
      · intro x hx
        obtain ⟨d, hd, rfl⟩ := List.mem_map.mp hx
        exact hparted.mid_eq d hd
      · intro x hx
        obtain ⟨d, hd, rfl⟩ := List.mem_map.mp (hsorted'.objs.subset hx)
        exact hparted.right_ge d hd

end Sorting

/-- The sort succeeds on every list, so it reaches no null object, and leaves the objects in order
at the same links. -/
theorem llSort_sorts [DecidableEq A] (hlist : h.IsList s cells)
    (hcmp : Compares cmp (cells.map Prod.snd)) (hturns : cells.length + 1 < turns) :
    ∃ h' cells', h.llSort cmp turns (some s) = .ok h' ∧ h'.IsList s cells' ∧ SameLinks h h' ∧
      cells'.map Prod.fst = cells.map Prod.fst ∧
      (cells'.map Prod.snd).Perm (cells.map Prod.snd) ∧
      (cells'.map Prod.snd).Pairwise fun x y => cmp x y ≤ 0 := by
  have hlive := hlist.live s List.mem_cons_self
  have hwhole : h.IsList s ([] ++ cells ++ []) := by
    rw [List.nil_append, List.append_nil]
    exact hlist
  obtain ⟨h', cells', hcall, hsorted⟩ : ∃ h' cells', h.llSort cmp turns (some s) = .ok h' ∧
      Sorted cmp h h' s [] cells cells' [] := by
    unfold llSort
    dsimp only
    rw [read_ok hlive, call_bind_apply, hlist.size]
    by_cases hshort : (cells.length : ℤ) ≤ 1
    · rw [if_pos hshort]
      exact ⟨h, cells, rfl, Sorted.short hwhole (by omega)⟩
    · rw [if_neg hshort]
      have hne : cells ≠ [] := fun hnil => by simp [hnil] at hshort
      obtain ⟨l, hl⟩ : ∃ l, (cells.map Prod.fst).head? = some l :=
        ⟨_, List.head?_eq_some_head (by simp [hne])⟩
      obtain ⟨r, hr⟩ : ∃ r, (cells.map Prod.fst).getLast? = some r :=
        ⟨_, List.getLast?_eq_some_getLast (by simp [hne])⟩
      have hnext : h.next s = .ok l := by
        refine (IsList.next_after (L := []) hlist rfl ?_).1
        rw [List.head?_append, hl]
        rfl
      have hprev : h.prev s = .ok r := by
        have hend : h.IsList s (cells ++ []) := by rwa [List.append_nil]
        refine (hend.next_after ?_ rfl).2
        rw [List.getLast?_cons, hr]
        rfl
      rw [hnext, call_bind_apply, hprev, call_bind_apply]
      exact hwhole.quickSort hcmp hl hr (by omega) hturns
  have hend := hsorted.list
  rw [List.nil_append, List.append_nil] at hend
  exact ⟨h', cells', hcall, hend, hsorted.same, hsorted.addrs, hsorted.objs, hsorted.sorted⟩

/-- The two objects at 0 from the greatest down. -/
theorem llSort_sorts_down : ∃ (h : ListHeap ℕ ℕ) (cells : List (ℕ × ℕ)),
    threeLists.llSort (fun a b => (b : ℤ) - a) 4 (some 0) = .ok h ∧ h.IsList 0 cells ∧
      SameLinks threeLists h ∧ cells.map Prod.fst = [1, 2] ∧
      (cells.map Prod.snd).Perm [10, 20] ∧
      (cells.map Prod.snd).Pairwise fun (x y : ℕ) => (y : ℤ) - x ≤ 0 := by
  have hcmp : Compares (fun a b : ℕ => (b : ℤ) - a) [10, 20] :=
    { flip := fun a _ b _ => by omega
      trans := fun a _ b _ c _ => by omega }
  have hturns : [(1, 10), (2, 20)].length + 1 < 4 := by decide
  exact llSort_sorts threeLists_two hcmp hturns

end ListHeap
end ConvertBinaryC
