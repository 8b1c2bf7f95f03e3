import Mathlib.Logic.Function.Basic
import Mathlib.Data.List.Basic
import Mathlib.Tactic.Common

/-! Rules for memory that only grows. An arena hands out the addresses in order, and a table keeps
the first value that is stored under a key. What a loop that copies objects leaves is then known from
the list of the copies alone. -/
namespace ArenaRules

variable {α β κ : Type}

/-- The objects that were made are those below the count. -/
structure Arena (α : Type) where
  get : ℕ → α
  count : ℕ

namespace Arena

variable {m : Arena α}

def alloc (m : Arena α) (x : α) : Arena α := ⟨Function.update m.get m.count x, m.count + 1⟩

def allocs (m : Arena α) (xs : List α) : Arena α := xs.foldl alloc m

def set (m : Arena α) (i : ℕ) (x : α) : Arena α := { m with get := Function.update m.get i x }

/-- The addresses that the next objects get. -/
def fresh (m : Arena α) (n : ℕ) : List ℕ := List.range' m.count n

@[simp] theorem alloc_count (m : Arena α) (x : α) : (m.alloc x).count = m.count + 1 := rfl

@[simp] theorem set_count (m : Arena α) (i : ℕ) (x : α) : (m.set i x).count = m.count := rfl

@[simp] theorem set_get_self (m : Arena α) (i : ℕ) (x : α) : (m.set i x).get i = x :=
  Function.update_self ..

theorem set_get_of_ne (m : Arena α) {i j : ℕ} (x : α) (h : j ≠ i) : (m.set i x).get j = m.get j :=
  Function.update_of_ne h ..

theorem alloc_get_old {x : α} {i : ℕ} (hi : i < m.count) : (m.alloc x).get i = m.get i :=
  Function.update_of_ne (Nat.ne_of_lt hi) ..

theorem alloc_get_new (m : Arena α) (x : α) : (m.alloc x).get m.count = x := Function.update_self ..

@[simp] theorem allocs_count (m : Arena α) (xs : List α) : (m.allocs xs).count = m.count + xs.length := by
  induction xs generalizing m with
  | nil => rfl
  | cons x xs ih =>
    calc ((m.alloc x).allocs xs).count
      _ = m.count + 1 + xs.length := ih (m.alloc x)
      _ = m.count + (xs.length + 1) := by omega

theorem allocs_append (m : Arena α) (xs ys : List α) :
    m.allocs (xs ++ ys) = (m.allocs xs).allocs ys := List.foldl_append

/-- What was made before stays. -/
theorem allocs_get_old {i : ℕ} (xs : List α) (hi : i < m.count) : (m.allocs xs).get i = m.get i := by
  induction xs generalizing m with
  | nil => rfl
  | cons x xs ih =>
    calc ((m.alloc x).allocs xs).get i
      _ = (m.alloc x).get i := ih (Nat.lt_succ_of_lt hi)
      _ = m.get i := alloc_get_old hi

theorem allocs_get_new (m : Arena α) {xs : List α} {k : ℕ} (hk : k < xs.length) :
    (m.allocs xs).get (m.count + k) = xs[k] := by
  induction xs generalizing m k with
  | nil => exact absurd hk (Nat.not_lt_zero k)
  | cons x xs ih =>
    cases k with
    | zero =>
      calc ((m.alloc x).allocs xs).get m.count
        _ = (m.alloc x).get m.count := allocs_get_old xs (Nat.lt_succ_self _)
        _ = x := alloc_get_new m x
    | succ k =>
      have hrest := ih (m.alloc x) (Nat.lt_of_succ_lt_succ hk)
      have haddress : m.count + (k + 1) = (m.alloc x).count + k := by
        rw [alloc_count]
        omega
      rw [haddress]
      exact hrest

@[simp] theorem length_fresh (m : Arena α) (n : ℕ) : (m.fresh n).length = n := List.length_range' ..

end Arena

namespace Arena
variable {m : Arena α}

theorem fresh_add (m : Arena α) (xs : List α) (n : ℕ) :
    m.fresh (xs.length + n) = m.fresh xs.length ++ (m.allocs xs).fresh n := by
  have hsplit : List.range' m.count xs.length 1 ++ List.range' (m.count + 1 * xs.length) n 1 =
      List.range' m.count (xs.length + n) 1 := List.range'_append
  rw [Nat.one_mul] at hsplit
  rw [fresh, fresh, fresh, allocs_count]
  exact hsplit.symm

/-- The addresses of copies that are made in the order of a list, one after the other. -/
theorem map_split {l l' : List β} {xs : List α} {f : β → ℕ} (hlength : xs.length = l.length)
    (h : (l ++ l').map f = m.fresh (l ++ l').length) :
    l.map f = m.fresh xs.length ∧ l'.map f = (m.allocs xs).fresh l'.length := by
  rw [List.map_append, List.length_append, ← hlength, fresh_add] at h
  apply List.append_inj h
  rw [List.length_map, length_fresh, hlength]

/-- The object at each address of the list is replaced. -/
def update (m : Arena α) (l : List ℕ) (g : α → α) : Arena α :=
  ⟨fun i => if i ∈ l then g (m.get i) else m.get i, m.count⟩

theorem update_nil (m : Arena α) (g : α → α) : m.update [] g = m := by
  have hget : (fun i => if i ∈ ([] : List ℕ) then g (m.get i) else m.get i) = m.get :=
    funext fun i => if_neg List.not_mem_nil
  rw [update, hget]

theorem update_get_of_mem {l : List ℕ} {i : ℕ} (g : α → α) (hi : i ∈ l) :
    (m.update l g).get i = g (m.get i) := if_pos hi

theorem update_get_of_notMem {l : List ℕ} {i : ℕ} (g : α → α) (hi : i ∉ l) :
    (m.update l g).get i = m.get i := if_neg hi

/-- No address is replaced twice. -/
theorem update_cons {l : List ℕ} {i : ℕ} (g : α → α) (hi : i ∉ l) :
    (m.set i (g (m.get i))).update l g = m.update (i :: l) g := by
  have hget : ((m.set i (g (m.get i))).update l g).get = (m.update (i :: l) g).get := by
    funext j
    by_cases hj : j = i
    · subst hj
      rw [update_get_of_notMem g hi, set_get_self, update_get_of_mem g List.mem_cons_self]
    · by_cases hl : j ∈ l
      · rw [update_get_of_mem g hl, set_get_of_ne m _ hj,
          update_get_of_mem g (List.mem_cons_of_mem i hl)]
      · have hne : j ∉ i :: l := fun h => (List.mem_cons.mp h).elim hj hl
        rw [update_get_of_notMem g hl, set_get_of_ne m _ hj, update_get_of_notMem g hne]
  calc (m.set i (g (m.get i))).update l g
    _ = ⟨((m.set i (g (m.get i))).update l g).get, m.count⟩ := rfl
    _ = m.update (i :: l) g := by rw [hget]; rfl

theorem update_append {l l' : List ℕ} (g : α → α) (h : l.Disjoint l') :
    (m.update l g).update l' g = m.update (l ++ l') g := by
  have hget : ((m.update l g).update l' g).get = (m.update (l ++ l') g).get := by
    funext j
    by_cases hj : j ∈ l'
    · have hl : j ∉ l := fun hl => h hl hj
      rw [update_get_of_mem g hj, update_get_of_notMem g hl,
        update_get_of_mem g (List.mem_append_right l hj)]
    · rw [update_get_of_notMem g hj]
      by_cases hl : j ∈ l
      · rw [update_get_of_mem g hl, update_get_of_mem g (List.mem_append_left l' hl)]
      · have hnone : j ∉ l ++ l' := fun hmem => (List.mem_append.mp hmem).elim hl hj
        rw [update_get_of_notMem g hl, update_get_of_notMem g hnone]
  calc (m.update l g).update l' g
    _ = ⟨((m.update l g).update l' g).get, m.count⟩ := rfl
    _ = m.update (l ++ l') g := by rw [hget]; rfl

end Arena

/-- The place of each element, counted from an address on. -/
theorem map_idxOf [DecidableEq β] {l : List β} (b : ℕ) (h : l.Nodup) :
    l.map (fun x => b + l.idxOf x) = List.range' b l.length := by
  apply List.ext_getElem
  · rw [List.length_map, List.length_range']
  · intro k hk hk'
    have hget : (List.range' b l.length)[k] = b + 1 * k := List.getElem_range' hk'
    rw [List.getElem_map, h.idxOf_getElem, hget, Nat.one_mul]

namespace Arena
variable {m : Arena α} {g : α → α}

theorem allocs_get_idxOf [DecidableEq β] {l : List β} (f : β → α) {x : β} (hx : x ∈ l) :
    (m.allocs (l.map f)).get (m.count + l.idxOf x) = f x := by
  have hk : l.idxOf x < (l.map f).length := by
    rw [List.length_map]
    exact List.idxOf_lt_length_of_mem hx
  rw [allocs_get_new m hk, List.getElem_map, List.getElem_idxOf]

theorem update_congr {l : List ℕ} {g' : α → α} (h : ∀ i ∈ l, g (m.get i) = g' (m.get i)) :
    m.update l g = m.update l g' := by
  have hget : (m.update l g).get = (m.update l g').get := by
    funext i
    by_cases hi : i ∈ l
    · rw [update_get_of_mem g hi, update_get_of_mem g' hi, h i hi]
    · rw [update_get_of_notMem g hi, update_get_of_notMem g' hi]
  calc m.update l g
    _ = ⟨(m.update l g).get, m.count⟩ := rfl
    _ = m.update l g' := by rw [hget]; rfl

theorem get_set_of_mem {l : List ℕ} {i : ℕ} (x : α) (hi : i ∉ l) {j : ℕ} (hj : j ∈ l) :
    (m.set i x).get j = m.get j := by
  apply set_get_of_ne
  rintro rfl
  exact hi hj

/-- A loop that replaces the objects one after the other. -/
theorem foldl_set {l : List ℕ} (hl : l.Nodup) :
    l.foldl (fun m i => m.set i (g (m.get i))) m = m.update l g := by
  induction l generalizing m with
  | nil => exact (update_nil m g).symm
  | cons i l ih =>
    obtain ⟨hi, hl⟩ := List.nodup_cons.mp hl
    calc l.foldl (fun m i => m.set i (g (m.get i))) (m.set i (g (m.get i)))
      _ = (m.set i (g (m.get i))).update l g := ih hl
      _ = m.update (i :: l) g := update_cons g hi

/-- The same with replacements that may fail. -/
theorem foldlM_set {ε : Type} {f : α → Except ε α} {l : List ℕ} (hl : l.Nodup)
    (hf : ∀ i ∈ l, f (m.get i) = .ok (g (m.get i))) :
    l.foldlM (fun m i => f (m.get i) >>= fun x => .ok (m.set i x)) m = .ok (m.update l g) := by
  induction l generalizing m with
  | nil => rw [update_nil]; rfl
  | cons i l ih =>
    obtain ⟨hi, hl⟩ := List.nodup_cons.mp hl
    have hrest : ∀ j ∈ l, f ((m.set i (g (m.get i))).get j) = .ok (g ((m.set i (g (m.get i))).get j)) := by
      intro j hj
      rw [get_set_of_mem _ hi hj]
      exact hf j (List.mem_cons_of_mem i hj)
    rw [List.foldlM_cons, hf i List.mem_cons_self]
    exact (ih hl hrest).trans (congrArg Except.ok (update_cons g hi))

end Arena

section Tables
variable [DecidableEq κ]

/-- A key that is there already keeps its value. -/
def store (m : κ → Option α) (k : κ) (v : α) : κ → Option α :=
  if m k = none then Function.update m k (some v) else m

def stores (m : κ → Option α) (l : List (κ × α)) : κ → Option α := l.foldl (fun m e => store m e.1 e.2) m

theorem store_apply (m : κ → Option α) (k n : κ) (v : α) :
    store m k v n = (m n).or (if k = n then some v else none) := by
  unfold store
  by_cases hk : k = n
  · subst hk
    rw [if_pos rfl]
    cases hm : m k with
    | none => rw [if_pos rfl, Function.update_self, Option.none_or]
    | some w => rw [if_neg (Option.some_ne_none w), hm, Option.some_or]
  · rw [if_neg hk, Option.or_none]
    split_ifs
    · exact Function.update_of_ne (Ne.symm hk) ..
    · rfl

/-- The first value that is stored under a key is found. -/
theorem stores_apply (m : κ → Option α) (l : List (κ × α)) (n : κ) :
    stores m l n = (m n).or ((l.find? fun e => e.1 = n).map Prod.snd) := by
  induction l generalizing m with
  | nil => exact (Option.or_none).symm
  | cons e l ih =>
    have hfirst : (if e.1 = n then some e.2 else none).or ((l.find? fun e => e.1 = n).map Prod.snd) =
        ((e :: l).find? fun e => e.1 = n).map Prod.snd := by
      rw [List.find?_cons]
      by_cases he : e.1 = n
      · rw [if_pos he, Option.some_or, decide_eq_true he]
        rfl
      · rw [if_neg he, Option.none_or, decide_eq_false he]
    calc stores (store m e.1 e.2) l n
      _ = (store m e.1 e.2 n).or ((l.find? fun e => e.1 = n).map Prod.snd) := ih (store m e.1 e.2)
      _ = (m n).or ((if e.1 = n then some e.2 else none).or
            ((l.find? fun e => e.1 = n).map Prod.snd)) := by rw [store_apply, Option.or_assoc]
      _ = (m n).or (((e :: l).find? fun e => e.1 = n).map Prod.snd) := by rw [hfirst]

theorem stores_append (m : κ → Option α) (l l' : List (κ × α)) :
    stores m (l ++ l') = stores (stores m l) l' := List.foldl_append

/-- The entries for the elements of a list, found by the element. -/
theorem stores_of_mem {m : κ → Option α} {l : List β} {key : β → κ} {v : β → α} {x : β} (hx : x ∈ l)
    (hinj : ∀ y ∈ l, key y = key x → y = x) (hm : m (key x) = none) :
    stores m (l.map fun y => (key y, v y)) (key x) = some (v x) := by
  have hfind : (l.map fun y => (key y, v y)).find? (fun e => e.1 = key x) = some (key x, v x) := by
    obtain ⟨y, hy⟩ : ∃ y, l.find? (fun y => key y = key x) = some y := by
      apply Option.isSome_iff_exists.mp
      exact List.find?_isSome.mpr ⟨x, hx, by simp⟩
    have hkey : key y = key x := by simpa using List.find?_some hy
    obtain rfl : y = x := hinj y (List.mem_of_find?_eq_some hy) hkey
    calc (l.map fun y => (key y, v y)).find? (fun e => e.1 = key y)
      _ = (l.find? fun z => key z = key y).map fun z => (key z, v z) := by rw [List.find?_map]; rfl
      _ = some (key y, v y) := by rw [hy]; rfl
  rw [stores_apply, hfind, hm]
  rfl

end Tables
end ArenaRules
