import Mathlib.Data.Finmap
import ConvertBinaryC.RunRules
import ConvertBinaryC.UtilHashResize

/-! A hash table is a finite map from byte strings to object pointers: what each call
answers and leaves behind, for every sequence of calls. -/
namespace ConvertBinaryC

open ChainRules

variable {V : Type}

theorem HashTable.rechain_root_self (t : HashTable V) (b : ℕ) (count : ℤ)
    (chain : List (HashNode V)) : (t.rechain b count chain).root b = chain :=
  Function.update_self ..

theorem HashTable.rechain_root_of_ne (t : HashTable V) {b c : ℕ} (h : c ≠ b) (count : ℤ)
    (chain : List (HashNode V)) : (t.rechain b count chain).root c = t.root c :=
  Function.update_of_ne h ..

section Ordered

variable {t : HashTable V} (ht : t.Ordered)

include ht

omit ht in
theorem walk_advances (hash : UInt64) (key : List UInt8) (y : HashNode V) :
    decide (0 < entryCmp hash key y) = true ↔ y.rank < hashRank hash key := by
  rw [decide_eq_true_eq]
  exact (entryCmp_sign hash key y).1

omit ht in
theorem HashTable.found_eq_some {hash : UInt64} {key : List UInt8} {n : HashNode V} :
    t.found hash key = some n ↔
      ∃ rest, t.walk hash key = n :: rest ∧ n.rank = hashRank hash key := by
  rw [HashTable.found, Option.filter_eq_some_iff, List.head?_eq_some_iff]
  rw [decide_eq_true_eq, (entryCmp_sign hash key n).2]
  constructor
  · rintro ⟨⟨rest, hrest⟩, hrank⟩
    exact ⟨rest, hrest, hrank⟩
  · rintro ⟨rest, hrest, hrank⟩
    exact ⟨⟨rest, hrest⟩, hrank⟩

/-- The walk may stop early because the chains are sorted. -/
theorem HashTable.Ordered.found_iff (hash : UInt64) (key : List UInt8) (n : HashNode V) :
    t.found hash key = some n ↔ n ∈ t.nodes ∧ n.rank = hashRank hash key := by
  have hsorted := ht.sorted _ (ht.bucket_lt hash)
  have hadvance : ∀ y ∈ t.root (t.bucket hash),
      decide (0 < entryCmp hash key y) = true ↔ y.rank < hashRank hash key :=
    fun y _ => walk_advances hash key y
  constructor
  · intro h
    obtain ⟨rest, hwalk, hrank⟩ := HashTable.found_eq_some.mp h
    have hmem : n ∈ t.root (t.bucket hash) := by
      apply (List.dropWhile_sublist _).subset
      rw [← HashTable.walk, hwalk]
      exact List.mem_cons_self
    exact ⟨HashTable.mem_nodes.mpr ⟨_, ht.bucket_lt hash, hmem⟩, hrank⟩
  · rintro ⟨hn, hrank⟩
    have hhash : n.hash = hash := (hashRank_inj.mp hrank).1
    rw [ht.mem_nodes, hhash] at hn
    by_contra hnone
    refine hsorted.absent hadvance ?_ n hn hrank
    intro y rest hrest hy
    have hmem : y ∈ t.root (t.bucket hash) := by
      apply (List.dropWhile_sublist _).subset
      rw [hrest]
      exact List.mem_cons_self
    have heq : y = n := hsorted.eq_of_rank hmem hn (hy.trans hrank.symm)
    subst heq
    exact hnone (HashTable.found_eq_some.mpr ⟨rest, hrest, hrank⟩)

theorem HashTable.Ordered.found_none {hash : UInt64} {key : List UInt8}
    (h : t.found hash key = none) : ∀ n ∈ t.nodes, n.rank ≠ hashRank hash key := by
  intro n hn hrank
  have hsome := (ht.found_iff hash key n).mpr ⟨hn, hrank⟩
  rw [h] at hsome
  cases hsome

theorem HashTable.Ordered.rechain {b : ℕ} (hb : b < 2 ^ t.size) (count : ℤ)
    {chain : List (HashNode V)} (hsorted : Sorted HashNode.rank chain)
    (hplaced : ∀ n ∈ chain, t.bucket n.hash = b) : (t.rechain b count chain).Ordered := by
  refine ⟨ht.size_pos, ht.size_le, ht.bmask, ?_, ?_⟩
  · intro c hc
    by_cases hcb : c = b
    · subst hcb
      rwa [t.rechain_root_self]
    · rw [t.rechain_root_of_ne hcb]
      exact ht.sorted c hc
  · intro c hc n hn
    by_cases hcb : c = b
    · subst hcb
      rw [t.rechain_root_self] at hn
      exact hplaced n hn
    · rw [t.rechain_root_of_ne hcb] at hn
      exact ht.placed c hc n hn

theorem HashTable.Ordered.mem_rechain {b : ℕ} (hb : b < 2 ^ t.size) {count : ℤ}
    {chain : List (HashNode V)} (hsorted : Sorted HashNode.rank chain)
    (hplaced : ∀ n ∈ chain, t.bucket n.hash = b) {n : HashNode V} :
    n ∈ (t.rechain b count chain).nodes ↔ n ∈ chain ∨ n ∈ t.nodes ∧ t.bucket n.hash ≠ b := by
  have hbucket : (t.rechain b count chain).bucket n.hash = t.bucket n.hash := rfl
  rw [(ht.rechain hb count hsorted hplaced).mem_nodes, hbucket, ht.mem_nodes]
  by_cases hn : t.bucket n.hash = b
  · rw [hn, t.rechain_root_self]
    tauto
  · rw [t.rechain_root_of_ne hn]
    constructor
    · exact fun h => Or.inr ⟨h, hn⟩
    · rintro (h | h)
      · exact absurd (hplaced n h) hn
      · exact h.1

omit ht in
theorem HashTable.link_found {node n : HashNode V} (h : t.found node.hash node.key = some n) :
    t.link node = (0, t) := by
  rw [HashTable.link, h]

omit ht in
theorem HashTable.link_new {node : HashNode V} (h : t.found node.hash node.key = none) :
    t.link node = (t.count + 1, t.rechain (t.bucket node.hash) (t.count + 1)
      (t.passed node.hash node.key ++ node :: t.walk node.hash node.key)) := by
  rw [HashTable.link, h]

/-- Linking a node with a new key adds this node. -/
theorem HashTable.Ordered.link {node : HashNode V} (h : t.found node.hash node.key = none) :
    (t.link node).2.Ordered ∧ ∀ n, n ∈ (t.link node).2.nodes ↔ n = node ∨ n ∈ t.nodes := by
  have hb := ht.bucket_lt node.hash
  have habsent : ∀ y ∈ t.root (t.bucket node.hash), y.rank ≠ node.rank := fun y hy =>
    ht.found_none h y (HashTable.mem_nodes.mpr ⟨_, hb, hy⟩)
  have hchain : Sorted HashNode.rank
      (t.passed node.hash node.key ++ node :: t.walk node.hash node.key) :=
    (ht.sorted _ hb).insert (fun y _ => walk_advances node.hash node.key y) habsent
  have hplaced : ∀ n ∈ t.passed node.hash node.key ++ node :: t.walk node.hash node.key,
      t.bucket n.hash = t.bucket node.hash := by
    intro n hn
    rcases mem_insert.mp hn with rfl | hn
    · rfl
    · exact ht.placed _ hb n hn
  rw [HashTable.link_new h]
  refine ⟨ht.rechain hb _ hchain hplaced, ?_⟩
  intro n
  rw [ht.mem_rechain hb hchain hplaced]
  have hmem : n ∈ t.passed node.hash node.key ++ node :: t.walk node.hash node.key ↔
      n = node ∨ n ∈ t.root (t.bucket node.hash) := mem_insert
  rw [hmem, ht.mem_nodes]
  by_cases hn : t.bucket n.hash = t.bucket node.hash
  · rw [hn]
    tauto
  · have hother : n ∉ t.root (t.bucket node.hash) := fun hmem => hn (ht.placed _ hb n hmem)
    tauto

/-- Taking one node out of its chain takes it out of the table. -/
theorem HashTable.Ordered.remove {x : HashNode V} {chain : List (HashNode V)} (count : ℤ)
    (hsub : chain.Sublist (t.root (t.bucket x.hash)))
    (hmem : ∀ n, n ∈ chain ↔ n ∈ t.root (t.bucket x.hash) ∧ n ≠ x) :
    (t.rechain (t.bucket x.hash) count chain).Ordered ∧
      ∀ n, n ∈ (t.rechain (t.bucket x.hash) count chain).nodes ↔ n ∈ t.nodes ∧ n ≠ x := by
  have hb := ht.bucket_lt x.hash
  have hsorted : Sorted HashNode.rank chain := List.Pairwise.sublist hsub (ht.sorted _ hb)
  have hplaced : ∀ n ∈ chain, t.bucket n.hash = t.bucket x.hash :=
    fun n hn => ht.placed _ hb n (hsub.subset hn)
  refine ⟨ht.rechain hb count hsorted hplaced, ?_⟩
  intro n
  rw [ht.mem_rechain hb hsorted hplaced, hmem, ht.mem_nodes]
  by_cases hn : t.bucket n.hash = t.bucket x.hash
  · rw [hn]
    tauto
  · have hother : n ∉ t.root (t.bucket x.hash) := fun hmem => hn (ht.placed _ hb n hmem)
    have hne : n ≠ x := fun heq => hn (by rw [heq])
    tauto

end Ordered

/-- The finite maps that tables stand for. -/
abbrev HashMap (V : Type) := Finmap fun _ : List UInt8 => Option V

/-- A table that stands for a map, when the hash sum of a key is `hashOf` of it. -/
structure HashTable.Represents (hashOf : List UInt8 → UInt64) (t : HashTable V)
    (m : HashMap V) : Prop where
  ordered : t.Ordered
  hashed : ∀ n ∈ t.nodes, n.hash = hashOf n.key
  lookup : ∀ k v, m.lookup k = some v ↔ ∃ n ∈ t.nodes, n.key = k ∧ n.pObj = v
  count : t.count = m.keys.card

section Represents

variable {hashOf : List UInt8 → UInt64} {t : HashTable V} {m : HashMap V}

theorem HashTable.Represents.congr (h : t.Represents hashOf m) {t' : HashTable V}
    (hordered : t'.Ordered) (hnodes : ∀ n, n ∈ t'.nodes ↔ n ∈ t.nodes)
    (hcount : t'.count = t.count) : t'.Represents hashOf m := by
  refine ⟨hordered, ?_, ?_, hcount.trans h.count⟩
  · intro n hn
    exact h.hashed n ((hnodes n).mp hn)
  · intro k v
    rw [h.lookup]
    simp only [hnodes]

variable (h : t.Represents hashOf m)

include h

/-- The node of a key, if there is one, is what the walk for the key finds. -/
theorem HashTable.Represents.found_iff (key : List UInt8) (n : HashNode V) :
    t.found (hashOf key) key = some n ↔ n ∈ t.nodes ∧ n.key = key := by
  rw [h.ordered.found_iff, HashNode.rank, hashRank_inj]
  constructor
  · rintro ⟨hn, -, hkey⟩
    exact ⟨hn, hkey⟩
  · rintro ⟨hn, hkey⟩
    exact ⟨hn, by rw [h.hashed n hn, hkey], hkey⟩

theorem HashTable.Represents.lookup_eq (key : List UInt8) :
    m.lookup key = (t.found (hashOf key) key).map HashNode.pObj := by
  cases hfound : t.found (hashOf key) key with
  | some n => exact (h.lookup key n.pObj).mpr ⟨n, ((h.found_iff key n).mp hfound).1,
      ((h.found_iff key n).mp hfound).2, rfl⟩
  | none =>
    rw [Option.map_none, Option.eq_none_iff_forall_ne_some]
    intro v hv
    obtain ⟨n, hn, hkey, -⟩ := (h.lookup key v).mp hv
    rw [(h.found_iff key n).mpr ⟨hn, hkey⟩] at hfound
    cases hfound

theorem HashTable.Represents.count_nonneg : 0 ≤ t.count := by
  rw [h.count]
  exact Int.natCast_nonneg _

/-- A table that counts no entries has none. -/
theorem HashTable.Represents.empty (hcount : t.count = 0) : m = ∅ := by
  have hcard : m.keys.card = 0 := by
    have := h.count
    omega
  apply Finmap.ext_lookup
  intro k
  rw [Finmap.lookup_empty, Finmap.lookup_eq_none, ← Finmap.mem_keys, Finset.card_eq_zero.mp hcard]
  exact Finset.notMem_empty k

/-- The growing test is always defined, and growing changes no entry. -/
theorem HashTable.Represents.checkAutogrow :
    ∃ t', t.checkAutogrow = .ok t' ∧ t'.Represents hashOf m ∧ ∀ n, n ∈ t'.nodes ↔ n ∈ t.nodes := by
  unfold HashTable.checkAutogrow
  have hstay : ∃ t', (Except.ok t : Call (HashTable V)) = .ok t' ∧ t'.Represents hashOf m ∧
      ∀ n, n ∈ t'.nodes ↔ n ∈ t.nodes := ⟨t, rfl, h, fun _ => Iff.rfl⟩
  split_ifs with hflag hsize
  · have hshift : shiftCount t.count (t.size + autosizeDyades) =
        .ok (t.count / 2 ^ (t.size + autosizeDyades).toNat) := by
      apply if_pos
      unfold maxHashTableSize at hsize
      unfold autosizeDyades
      omega
    rw [hshift, call_bind_apply]
    split_ifs with hload
    · have hordered := h.ordered.grow (Nat.le_succ t.size) hsize
      have hnodes := fun n => h.ordered.mem_grow (n := n) (Nat.le_succ t.size) hsize
      exact ⟨_, rfl, h.congr hordered hnodes rfl, hnodes⟩
    · exact hstay
  · exact hstay
  · exact hstay

/-- The shrinking test shifts by a negative amount in a table of size 2, and is defined
in all others. -/
theorem HashTable.Represents.checkAutoshrink :
    if t.flags &&& htAutoshrink ≠ 0 ∧ t.size = 2 then
      t.checkAutoshrink = .error .undefinedBehaviour
    else ∃ t', t.checkAutoshrink = .ok t' ∧ t'.Represents hashOf m ∧
      ∀ n, n ∈ t'.nodes ↔ n ∈ t.nodes := by
  unfold HashTable.checkAutoshrink
  have hstay : ∃ t', (Except.ok t : Call (HashTable V)) = .ok t' ∧ t'.Represents hashOf m ∧
      ∀ n, n ∈ t'.nodes ↔ n ∈ t.nodes := ⟨t, rfl, h, fun _ => Iff.rfl⟩
  by_cases hflag : t.flags &&& htAutoshrink ≠ 0
  · rw [if_pos hflag]
    by_cases hsize : t.size > 1
    · rw [if_pos hsize]
      by_cases htwo : t.size = 2
      · rw [if_pos ⟨hflag, htwo⟩]
        have hshift : shiftCount t.count (t.size - autosizeDyades) = .error .undefinedBehaviour := by
          apply if_neg
          unfold autosizeDyades
          omega
        rw [hshift, call_bind_error]
      · rw [if_neg fun hboth => htwo hboth.2]
        have hle := h.ordered.size_le
        have hshift : shiftCount t.count (t.size - autosizeDyades) =
            .ok (t.count / 2 ^ (t.size - autosizeDyades).toNat) := by
          apply if_pos
          unfold maxHashTableSize at hle
          unfold autosizeDyades
          omega
        rw [hshift, call_bind_apply]
        split_ifs with hload
        · have hold : t.size - 1 ≤ t.size := Nat.sub_le ..
          have hordered := h.ordered.shrink (by omega) hold
          have hnodes := fun n => h.ordered.mem_shrink (n := n) hold
          exact ⟨_, rfl, h.congr hordered hnodes rfl, hnodes⟩
        · exact hstay
    · rw [if_neg hsize, if_neg fun hboth => hsize (by omega)]
      exact hstay
  · rw [if_neg hflag, if_neg fun hboth => hflag hboth.1]
    exact hstay

theorem HashTable.Represents.mem_iff (key : List UInt8) : key ∈ m ↔ ∃ n ∈ t.nodes, n.key = key := by
  rw [Finmap.mem_iff]
  constructor
  · rintro ⟨v, hv⟩
    obtain ⟨n, hn, hkey, -⟩ := (h.lookup key v).mp hv
    exact ⟨n, hn, hkey⟩
  · rintro ⟨n, hn, hkey⟩
    exact ⟨n.pObj, (h.lookup key n.pObj).mpr ⟨n, hn, hkey, rfl⟩⟩

/-- One key has one node. -/
theorem HashTable.Represents.eq_of_key {x n : HashNode V} (hx : x ∈ t.nodes) (hn : n ∈ t.nodes)
    (hkey : n.key = x.key) : n = x := by
  apply h.ordered.eq_of_rank hn hx
  rw [HashNode.rank, HashNode.rank, h.hashed n hn, h.hashed x hx, hkey]

/-- Linking a node whose key is present changes nothing. -/
theorem HashTable.Represents.link_present {node : HashNode V} (hhash : node.hash = hashOf node.key)
    (hkey : node.key ∈ m) : t.link node = (0, t) := by
  obtain ⟨n, hn, hnkey⟩ := (h.mem_iff node.key).mp hkey
  apply HashTable.link_found
  rw [hhash]
  exact (h.found_iff node.key n).mpr ⟨hn, hnkey⟩

/-- Linking a node with a new key inserts its object. -/
theorem HashTable.Represents.link_insert {node : HashNode V} (hhash : node.hash = hashOf node.key)
    (hkey : node.key ∉ m) :
    (t.link node).2.Represents hashOf (m.insert node.key node.pObj) ∧
      (t.link node).1 = (m.insert node.key node.pObj).keys.card ∧
      ∀ n, n ∈ (t.link node).2.nodes ↔ n = node ∨ n ∈ t.nodes := by
  have hnone : t.found node.hash node.key = none := by
    rw [hhash, Option.eq_none_iff_forall_ne_some]
    intro n hn
    exact hkey ((h.mem_iff node.key).mpr ⟨n, (h.found_iff node.key n).mp hn⟩)
  have hkeys : (m.insert node.key node.pObj).keys = insert node.key m.keys := by
    ext k
    rw [Finmap.mem_keys, Finmap.mem_insert, Finset.mem_insert, Finmap.mem_keys]
  have hcard : ((m.insert node.key node.pObj).keys.card : ℤ) = t.count + 1 := by
    rw [hkeys, Finset.card_insert_of_notMem (Finmap.mem_keys.not.mpr hkey), h.count]
    push_cast
    rfl
  obtain ⟨hordered, hnodes⟩ := h.ordered.link hnone
  have hlink := HashTable.link_new hnone
  refine ⟨⟨hordered, ?_, ?_, ?_⟩, ?_, hnodes⟩
  · intro n hn
    rcases (hnodes n).mp hn with rfl | hn
    · exact hhash
    · exact h.hashed n hn
  · intro k v
    by_cases hk : k = node.key
    · subst hk
      rw [Finmap.lookup_insert, Option.some_inj]
      constructor
      · rintro rfl
        exact ⟨node, (hnodes node).mpr (Or.inl rfl), rfl, rfl⟩
      · rintro ⟨n, hn, hnkey, hv⟩
        rcases (hnodes n).mp hn with rfl | hn
        · exact hv
        · exact absurd ((h.mem_iff node.key).mpr ⟨n, hn, hnkey⟩) hkey
    · rw [Finmap.lookup_insert_of_ne m hk, h.lookup]
      constructor
      · rintro ⟨n, hn, hrest⟩
        exact ⟨n, (hnodes n).mpr (Or.inr hn), hrest⟩
      · rintro ⟨n, hn, hnkey, hv⟩
        rcases (hnodes n).mp hn with rfl | hn
        · exact absurd hnkey.symm hk
        · exact ⟨n, hn, hnkey, hv⟩
  · rw [hlink, hcard]
    rfl
  · rw [hlink, hcard]

/-- Taking the node of a key out of its chain erases the key. -/
theorem HashTable.Represents.remove {x : HashNode V} (hx : x ∈ t.nodes)
    {chain : List (HashNode V)} (hsub : chain.Sublist (t.root (t.bucket x.hash)))
    (hmem : ∀ n, n ∈ chain ↔ n ∈ t.root (t.bucket x.hash) ∧ n ≠ x) :
    (t.rechain (t.bucket x.hash) (t.count - 1) chain).Represents hashOf (m.erase x.key) ∧
      ∀ n, n ∈ (t.rechain (t.bucket x.hash) (t.count - 1) chain).nodes ↔ n ∈ t.nodes ∧ n ≠ x := by
  obtain ⟨hordered, hnodes⟩ := h.ordered.remove (t.count - 1) hsub hmem
  have hkey : x.key ∈ m.keys := Finmap.mem_keys.mpr ((h.mem_iff x.key).mpr ⟨x, hx, rfl⟩)
  refine ⟨⟨hordered, ?_, ?_, ?_⟩, hnodes⟩
  · intro n hn
    exact h.hashed n ((hnodes n).mp hn).1
  · intro k v
    by_cases hk : k = x.key
    · subst hk
      rw [Finmap.lookup_erase]
      constructor
      · intro habsurd
        cases habsurd
      · rintro ⟨n, hn, hnkey, -⟩
        exact absurd (h.eq_of_key hx ((hnodes n).mp hn).1 hnkey) ((hnodes n).mp hn).2
    · rw [Finmap.lookup_erase_ne hk, h.lookup]
      constructor
      · rintro ⟨n, hn, hnkey, hv⟩
        refine ⟨n, (hnodes n).mpr ⟨hn, ?_⟩, hnkey, hv⟩
        rintro rfl
        exact hk hnkey.symm
      · rintro ⟨n, hn, hrest⟩
        exact ⟨n, ((hnodes n).mp hn).1, hrest⟩
  · have hpos := Finset.card_pos.mpr ⟨_, hkey⟩
    have hcount := h.count
    rw [Finmap.keys_erase, Finset.card_erase_of_mem hkey]
    simp only [HashTable.rechain]
    omega

end Represents

section Iteration

variable {t : HashTable V}

/-- The nodes that repeated calls of `HI_next` return. -/
inductive Visits (t : HashTable V) : HashIterator V → List (HashNode V) → Prop
  | done {it : HashIterator V} (h : t.next it = none) : Visits t it []
  | node {it it' : HashIterator V} {n : HashNode V} {ns : List (HashNode V)}
      (h : t.next it = some (n, it')) (hrest : Visits t it' ns) : Visits t it (n :: ns)

theorem Visits.congr {it it' : HashIterator V} {ns : List (HashNode V)}
    (h : t.next it = t.next it') (hvisits : Visits t it' ns) : Visits t it ns := by
  cases hvisits with
  | done hnext => exact .done (h.trans hnext)
  | node hnext hrest => exact .node (h.trans hnext) hrest

theorem Visits.chain {pBucket remain : ℕ} {ns : List (HashNode V)}
    (h : Visits t ⟨[], pBucket, remain + 1⟩ ns) (chain : List (HashNode V)) :
    Visits t ⟨chain, pBucket, remain + 1⟩ (chain ++ ns) := by
  induction chain with
  | nil => exact h
  | cons n rest ih => exact .node rfl ih

theorem visits_from (remain pBucket : ℕ) (chain : List (HashNode V)) :
    Visits t ⟨chain, pBucket, remain + 1⟩
      (chain ++ (List.range' pBucket remain).flatMap t.root) := by
  induction remain generalizing pBucket chain with
  | zero => exact Visits.chain (.done rfl) chain
  | succ remain ih =>
    apply Visits.chain
    rw [List.range'_succ, List.flatMap_cons]
    refine Visits.congr ?_ (ih (pBucket + 1) (t.root pBucket))
    change (if remain + 1 > 0 then _ else none) = _
    rw [if_pos (Nat.succ_pos remain)]
    rfl

/-- The iteration goes through the buckets in order. -/
theorem HashTable.visits (t : HashTable V) : Visits t t.iterator t.nodes := by
  obtain ⟨remain, hremain⟩ := Nat.exists_eq_add_of_lt (Nat.two_pow_pos t.size)
  rw [zero_add] at hremain
  have hnodes : t.nodes = t.root 0 ++ (List.range' 1 remain).flatMap t.root := by
    rw [HashTable.nodes, hremain, List.range_eq_range', List.range'_succ, List.flatMap_cons]
  rw [hnodes, HashTable.iterator, hremain]
  exact visits_from remain 1 (t.root 0)

theorem HashTable.Ordered.nodup (ht : t.Ordered) : t.nodes.Nodup := by
  rw [HashTable.nodes, List.nodup_flatMap]
  refine ⟨fun b hb => (ht.sorted b (List.mem_range.mp hb)).nodup, ?_⟩
  apply List.Nodup.pairwise_of_forall_ne List.nodup_range
  intro b hb c hc hbc n hnb hnc
  have hplaced := ht.placed b (List.mem_range.mp hb) n hnb
  rw [ht.placed c (List.mem_range.mp hc) n hnc] at hplaced
  exact hbc hplaced.symm

/-- Every key is visited once. -/
theorem HashTable.Represents.visited_once {hashOf : List UInt8 → UInt64} {m : HashMap V}
    (h : t.Represents hashOf m) : (t.nodes.map HashNode.key).Nodup := by
  apply h.ordered.nodup.map_on
  intro n hn x hx hkey
  exact h.eq_of_key hx hn hkey

end Iteration

end ConvertBinaryC
