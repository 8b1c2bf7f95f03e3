import Mathlib.Data.Set.Function

/-! Trees over leaves that stand for parts of a memory. -/
namespace TreeRules

inductive Tree (K L : Type) where
  | leaf (l : L)
  | array (elems : List (Tree K L))
  | record (members : List (K × Tree K L))

variable {K L V : Type}

section Fold
variable (leaf : L → V) (array : List V → V) (record : List (K × V) → V)

mutual

/-- The value of a tree, from values for its leaves. -/
def Tree.fold : Tree K L → V
  | .leaf l => leaf l
  | .array elems => array (foldElems elems)
  | .record members => record (foldMembers members)

def foldElems : List (Tree K L) → List V
  | [] => []
  | t :: ts => t.fold :: foldElems ts

def foldMembers : List (K × Tree K L) → List (K × V)
  | [] => []
  | m :: ms => (m.1, m.2.fold) :: foldMembers ms

end

theorem foldElems_eq (elems : List (Tree K L)) :
    foldElems leaf array record elems = elems.map (Tree.fold leaf array record) := by
  induction elems with
  | nil => rfl
  | cons t ts ih => rw [foldElems, ih, List.map_cons]

theorem foldMembers_eq (members : List (K × Tree K L)) :
    foldMembers leaf array record members =
      members.map fun m => (m.1, m.2.fold leaf array record) := by
  induction members with
  | nil => rfl
  | cons m ms ih => rw [foldMembers, ih, List.map_cons]

@[simp] theorem fold_leaf (l : L) : (Tree.leaf l : Tree K L).fold leaf array record = leaf l := rfl

@[simp] theorem fold_array (elems : List (Tree K L)) :
    (Tree.array elems).fold leaf array record =
      array (elems.map (Tree.fold leaf array record)) := by
  rw [Tree.fold, foldElems_eq]

@[simp] theorem fold_record (members : List (K × Tree K L)) :
    (Tree.record members).fold leaf array record =
      record (members.map fun m => (m.1, m.2.fold leaf array record)) := by
  rw [Tree.fold, foldMembers_eq]

end Fold

/-- Induction over a tree, with the hypothesis for all its children. -/
theorem Tree.induct {P : Tree K L → Prop} (leaf : ∀ l, P (.leaf l))
    (array : ∀ elems, (∀ t ∈ elems, P t) → P (.array elems))
    (record : ∀ members, (∀ m ∈ members, P m.2) → P (.record members)) (t : Tree K L) : P t := by
  induction ht : sizeOf t using Nat.strong_induction_on generalizing t with
  | h n ih =>
    subst ht
    cases t with
    | leaf l => exact leaf l
    | array elems =>
      apply array
      intro t ht
      have hsize := List.sizeOf_lt_of_mem ht
      exact ih _ (by simp; omega) t rfl
    | record members =>
      apply record
      rintro ⟨k, t⟩ ht
      have hsize := List.sizeOf_lt_of_mem ht
      exact ih _ (by simp at hsize ⊢; omega) t rfl

/-- The leaves, from left to right. -/
def Tree.leaves : Tree K L → List L :=
  Tree.fold (fun l => [l]) List.flatten fun members => (members.map Prod.snd).flatten

/-- The lengths of all arrays. -/
def Tree.widths : Tree K L → List ℕ :=
  Tree.fold (fun _ => []) (fun widths => widths.length :: widths.flatten) fun members =>
    (members.map Prod.snd).flatten

@[simp] theorem leaves_leaf (l : L) : (Tree.leaf l : Tree K L).leaves = [l] := rfl

theorem mem_leaves_array {elems : List (Tree K L)} {l : L} :
    l ∈ (Tree.array elems).leaves ↔ ∃ t ∈ elems, l ∈ t.leaves := by
  simp [Tree.leaves]

theorem mem_leaves_record {members : List (K × Tree K L)} {l : L} :
    l ∈ (Tree.record members).leaves ↔ ∃ m ∈ members, l ∈ m.2.leaves := by
  simp [Tree.leaves]

theorem mem_widths_array {elems : List (Tree K L)} {n : ℕ} :
    n ∈ (Tree.array elems).widths ↔ n = elems.length ∨ ∃ t ∈ elems, n ∈ t.widths := by
  simp [Tree.widths]

theorem mem_widths_record {members : List (K × Tree K L)} {n : ℕ} :
    n ∈ (Tree.record members).widths ↔ ∃ m ∈ members, n ∈ m.2.widths := by
  simp [Tree.widths]

/-- The value of a tree depends on the values for its leaves only. -/
theorem fold_congr {array : List V → V} {record : List (K × V) → V} {f g : L → V} {t : Tree K L}
    (h : ∀ l ∈ t.leaves, f l = g l) : t.fold f array record = t.fold g array record := by
  induction t using Tree.induct with
  | leaf l => exact h l List.mem_cons_self
  | array elems ih =>
    rw [fold_array, fold_array]
    have hsame (t : Tree K L) (ht : t ∈ elems) : t.fold f array record = t.fold g array record :=
      ih t ht fun l hl => h l (mem_leaves_array.mpr ⟨t, ht, hl⟩)
    rw [List.map_congr_left hsame]
  | record members ih =>
    rw [fold_record, fold_record]
    have hsame (m : K × Tree K L) (hm : m ∈ members) :
        (m.1, m.2.fold f array record) = (m.1, m.2.fold g array record) := by
      rw [ih m hm fun l hl => h l (mem_leaves_record.mpr ⟨m, hm, hl⟩)]
    rw [List.map_congr_left hsame]

/-- A relation between what comes before a step and what comes after it holds for all steps. -/
theorem foldlM_rel {γ δ : Type} {step : γ → δ → Option γ} {R : γ → γ → Prop} (hrefl : ∀ c, R c c)
    (htrans : ∀ {c d e : γ}, R c d → R d e → R c e) {l : List δ}
    (hstep : ∀ x ∈ l, ∀ c c', step c x = some c' → R c c') {c c' : γ}
    (h : l.foldlM step c = some c') : R c c' := by
  induction l generalizing c with
  | nil =>
    cases h
    exact hrefl _
  | cons x l ih =>
    rw [List.foldlM_cons] at h
    obtain ⟨d, hd, h⟩ := Option.bind_eq_some_iff.mp h
    have hfirst := hstep x List.mem_cons_self c d hd
    exact htrans hfirst (ih (fun y hy => hstep y (List.mem_cons_of_mem x hy)) h)

theorem mapM_length_eq {α β : Type} {f : α → Option β} {l : List α} {bs : List β}
    (h : l.mapM f = some bs) : bs.length = l.length := by
  induction l generalizing bs with
  | nil =>
    rw [List.mapM_nil] at h
    cases h
    rfl
  | cons a l ih =>
    rw [List.mapM_cons] at h
    obtain ⟨b, _, h⟩ := Option.bind_eq_some_iff.mp h
    obtain ⟨cs, hcs, h⟩ := Option.bind_eq_some_iff.mp h
    cases h
    rw [List.length_cons, List.length_cons, ih hcs]

/-- The results of a list of computations, one by one. -/
theorem mapM_get {α β : Type} {f : α → Option β} {l : List α} {bs : List β} (h : l.mapM f = some bs)
    {i : ℕ} {a : α} (ha : l[i]? = some a) : f a = bs[i]? := by
  induction l generalizing bs i with
  | nil => exact absurd ha (by simp)
  | cons a' l ih =>
    rw [List.mapM_cons] at h
    obtain ⟨b, hb, h⟩ := Option.bind_eq_some_iff.mp h
    obtain ⟨cs, hcs, h⟩ := Option.bind_eq_some_iff.mp h
    cases h
    cases i with
    | zero =>
      cases ha
      exact hb
    | succ i => exact ih hcs ha

section Footprint
variable {α : Type}

/-- What all leaves of a tree stand for. -/
def Tree.footprint (foot : L → Set α) (t : Tree K L) : Set α := {a | ∃ l ∈ t.leaves, a ∈ foot l}

variable {foot : L → Set α}

theorem mem_footprint {t : Tree K L} {l : L} {a : α} (hl : l ∈ t.leaves) (ha : a ∈ foot l) :
    a ∈ t.footprint foot := ⟨l, hl, ha⟩

theorem footprint_leaf (l : L) : (Tree.leaf l : Tree K L).footprint foot = foot l := by
  ext a
  simp [Tree.footprint]

theorem mem_footprint_array {elems : List (Tree K L)} {a : α} :
    a ∈ (Tree.array elems).footprint foot ↔ ∃ t ∈ elems, a ∈ t.footprint foot := by
  constructor
  · rintro ⟨l, hl, ha⟩
    obtain ⟨t, ht, hl⟩ := mem_leaves_array.mp hl
    exact ⟨t, ht, l, hl, ha⟩
  · rintro ⟨t, ht, l, hl, ha⟩
    exact ⟨l, mem_leaves_array.mpr ⟨t, ht, hl⟩, ha⟩

theorem mem_footprint_record {members : List (K × Tree K L)} {a : α} :
    a ∈ (Tree.record members).footprint foot ↔ ∃ m ∈ members, a ∈ m.2.footprint foot := by
  constructor
  · rintro ⟨l, hl, ha⟩
    obtain ⟨m, hm, hl⟩ := mem_leaves_record.mp hl
    exact ⟨m, hm, l, hl, ha⟩
  · rintro ⟨m, hm, l, hl, ha⟩
    exact ⟨l, mem_leaves_record.mpr ⟨m, hm, hl⟩, ha⟩

end Footprint

end TreeRules
