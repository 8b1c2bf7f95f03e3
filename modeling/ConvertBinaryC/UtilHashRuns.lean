import ConvertBinaryC.UtilHashMap

/-! Runs of calls on one hash table, with the nodes that its user holds. -/
namespace ConvertBinaryC

variable {V : Type} {hashOf : List UInt8 → UInt64}

/-- A table that stands for a map, beside nodes outside the table: every node is held once. -/
structure HashState.Represents (hashOf : List UInt8 → UInt64) (s : HashState V)
    (m : HashMap V) : Prop where
  table : s.table.Represents hashOf m
  loose : ∀ n ∈ s.loose, n.hash = hashOf n.key
  apart : ∀ n ∈ s.loose, ∀ x ∈ s.table.nodes, n.address ≠ x.address
  looseOnce : ∀ n ∈ s.loose, ∀ x ∈ s.loose, n.address = x.address → n = x
  tableOnce : ∀ n ∈ s.table.nodes, ∀ x ∈ s.table.nodes, n.address = x.address → n = x
  fresh : ∀ n ∈ s.held, n.address < s.fresh

/-- What the documentation asks of a call: a hash sum that is passed, or computed, is the
sum of the key, and a node that is passed is live. -/
def HashCall.Honest (hashOf : List UInt8 → UInt64) (s : HashState V) : HashCall V → Prop
  | .newNode key keylen hash | .store key keylen hash _ | .fetch key keylen hash
  | .get key keylen hash | .exists key keylen hash =>
    (hashArgs key keylen hash).1 = hashOf (hashArgs key keylen hash).2
  | .storenode node _ | .fetchnode node | .rmnode node => ∃ n ∈ s.held, n.address = node
  | .resize _ | .flush | .clone _ => True

/-- The call takes an entry out of the table one by one. -/
def HashCall.Removes (s : HashState V) : HashCall V → Prop
  | .fetch key keylen hash => ∃ n ∈ s.table.nodes, n.key = (hashArgs key keylen hash).2
  | .fetchnode node | .rmnode node => ∃ n ∈ s.table.nodes, n.address = node
  | _ => False

/-- The shrinking test is defined: the table does not shrink by itself, or its size is
not 2 when an entry is removed. -/
def HashCall.ShiftsDefined (s : HashState V) (call : HashCall V) : Prop :=
  call.Removes s → s.table.flags &&& htAutoshrink ≠ 0 → s.table.size ≠ 2

def HashState.next (s : HashState V) (call : HashCall V) : Option (HashState V) :=
  (s.step call).toOption.map Prod.snd

/-- Storing an object in a map: a present key keeps its object. -/
def Stores (m : HashMap V) (key : List UInt8) (pObj : Option V) (r : HashResult V)
    (m' : HashMap V) : Prop :=
  (key ∈ m → r = .int 0 ∧ m' = m) ∧
    (key ∉ m → m' = m.insert key pObj ∧ r = .int m'.keys.card)

/-- What a call answers and makes of the map. -/
def HashAnswers (hashOf : List UInt8 → UInt64) (s : HashState V) (m : HashMap V) :
    HashCall V → HashResult V → HashMap V → Prop
  | .newNode _ _ _, r, m' => r = .node s.fresh ∧ m' = m
  | .store key keylen hash pObj, r, m' => Stores m (hashArgs key keylen hash).2 pObj r m'
  | .storenode node pObj, r, m' => ∃ n ∈ s.held, n.address = node ∧ Stores m n.key pObj r m'
  | .fetchnode node, r, m' | .rmnode node, r, m' =>
    (∀ n ∈ s.table.nodes, n.address = node →
      m.lookup n.key = some n.pObj ∧ r = .ptr n.pObj ∧ m' = m.erase n.key) ∧
    ((∀ n ∈ s.table.nodes, n.address ≠ node) → r = .ptr none ∧ m' = m)
  | .fetch key keylen hash, r, m' =>
    r = .ptr (m.lookup (hashArgs key keylen hash).2).join ∧
      m' = m.erase (hashArgs key keylen hash).2
  | .get key keylen hash, r, m' =>
    r = .ptr (m.lookup (hashArgs key keylen hash).2).join ∧ m' = m
  | .exists key keylen hash, r, m' =>
    r = .int (if (hashArgs key keylen hash).2 ∈ m then 1 else 0) ∧ m' = m
  | .resize size, r, m' =>
    r = .int (if 0 < size ∧ size ≤ maxHashTableSize ∧ size ≠ s.table.size then 1 else 0) ∧ m' = m
  | .flush, r, m' => r = .destroyed (s.table.nodes.map HashNode.pObj) ∧ m' = ∅
  | .clone func, r, m' => m' = m ∧ ∃ t mc, r = .table (some t) ∧
      (∀ k, mc.lookup k = (m.lookup k).map (func.getD id)) ∧
      (⟨t, [], 2 * s.fresh⟩ : HashState V).Represents hashOf mc

/-- In this state the table stands for the map, and an iteration visits each of its keys
once. -/
def HashState.Faithful (hashOf : List UInt8 → UInt64) (s : HashState V) (m : HashMap V) : Prop :=
  s.Represents hashOf m ∧ ∃ visited, Visits s.table s.table.iterator visited ∧
    (visited.map HashNode.key).Nodup ∧
    ∀ k v, m.lookup k = some v ↔ ∃ n ∈ visited, n.key = k ∧ n.pObj = v

/-- Every call of the sequence returns, and does to the table what it does to the map. -/
def BehavesAsMap (hashOf : List UInt8 → UInt64) :
    HashState V → HashMap V → List (HashCall V) → Prop
  | s, m, [] => s.Faithful hashOf m
  | s, m, call :: calls => s.Faithful hashOf m ∧ ∃ r s' m', s.step call = .ok (r, s') ∧
      HashAnswers hashOf s m call r m' ∧ BehavesAsMap hashOf s' m' calls

theorem erase_of_lookup_none {m : HashMap V} {key : List UInt8} (h : m.lookup key = none) :
    m.erase key = m := by
  apply Finmap.ext_lookup
  intro k
  by_cases hk : k = key
  · rw [hk, Finmap.lookup_erase, h]
  · exact Finmap.lookup_erase_ne hk

theorem HashState.Represents.faithful {s : HashState V} {m : HashMap V}
    (h : s.Represents hashOf m) : s.Faithful hashOf m :=
  ⟨h, s.table.nodes, s.table.visits, h.table.visited_once, h.table.lookup⟩

section Represents

variable {s : HashState V} {m : HashMap V} (h : s.Represents hashOf m)

include h

/-- The table may change its entries as long as they stay apart from the loose nodes. -/
theorem HashState.Represents.retable {t : HashTable V} {m' : HashMap V}
    (ht : t.Represents hashOf m') (hsub : ∀ n ∈ t.nodes, n ∈ s.table.nodes) :
    ({ s with table := t } : HashState V).Represents hashOf m' := by
  refine ⟨ht, h.loose, ?_, h.looseOnce, ?_, ?_⟩
  · exact fun n hn x hx => h.apart n hn x (hsub x hx)
  · exact fun n hn x hx => h.tableOnce n (hsub n hn) x (hsub x hx)
  · intro n hn
    apply h.fresh
    rcases List.mem_append.mp hn with hn | hn
    · exact List.mem_append_left _ hn
    · exact List.mem_append_right _ (hsub n hn)

theorem HashState.Represents.fresh_loose {n : HashNode V} (hn : n ∈ s.loose) :
    n.address < s.fresh :=
  h.fresh n (List.mem_append_left _ hn)

theorem HashState.Represents.fresh_table {n : HashNode V} (hn : n ∈ s.table.nodes) :
    n.address < s.fresh :=
  h.fresh n (List.mem_append_right _ hn)

theorem HashState.Represents.newNode {key : List UInt8} {keylen : ℕ} {hash : UInt64}
    (hhonest : (hashArgs key keylen hash).1 = hashOf (hashArgs key keylen hash).2) :
    ∃ r s' m', s.step (.newNode key keylen hash) = .ok (r, s') ∧
      HashAnswers hashOf s m (.newNode key keylen hash) r m' ∧ s'.Represents hashOf m' := by
  refine ⟨_, _, m, rfl, ⟨rfl, rfl⟩, h.table, ?_, ?_, ?_, h.tableOnce, ?_⟩
  · intro n hn
    rcases List.mem_cons.mp hn with rfl | hn
    · exact hhonest
    · exact h.loose n hn
  · intro n hn x hx
    have hxfresh := h.fresh_table hx
    rcases List.mem_cons.mp hn with rfl | hn
    · exact hxfresh.ne'
    · exact h.apart n hn x hx
  · intro n hn x hx heq
    rcases List.mem_cons.mp hn with rfl | hn <;> rcases List.mem_cons.mp hx with rfl | hx
    · rfl
    · exact absurd heq (h.fresh_loose hx).ne'
    · exact absurd heq (h.fresh_loose hn).ne
    · exact h.looseOnce n hn x hx heq
  · intro n hn
    rcases List.mem_append.mp hn with hn | hn
    · rcases List.mem_cons.mp hn with rfl | hn
      · exact Nat.lt_succ_self _
      · exact Nat.lt_succ_of_lt (h.fresh_loose hn)
    · exact Nat.lt_succ_of_lt (h.fresh_table hn)

omit h in
theorem HashState.deref_ok {node : ℕ} (hlive : ∃ n ∈ s.held, n.address = node) :
    ∃ n ∈ s.held, n.address = node ∧ s.deref node = .ok n := by
  cases hfind : s.held.find? fun n => decide (n.address = node) with
  | none =>
    obtain ⟨n, hn, haddress⟩ := hlive
    have hmiss := List.find?_eq_none.mp hfind n hn
    simp [haddress] at hmiss
  | some n =>
    have haddress := List.find?_some hfind
    rw [decide_eq_true_eq] at haddress
    refine ⟨n, List.mem_of_find?_eq_some hfind, haddress, ?_⟩
    rw [HashState.deref, hfind]

theorem HashState.Represents.allocated {fresh : ℕ} (hfresh : s.fresh ≤ fresh) :
    ({ s with fresh := fresh } : HashState V).Represents hashOf m :=
  { h with fresh := fun n hn => lt_of_lt_of_le (h.fresh n hn) hfresh }

/-- A node enters the table, and the loose nodes with its address are no longer held. -/
theorem HashState.Represents.linked {t : HashTable V} {m' : HashMap V}
    (ht : t.Represents hashOf m') (node : HashNode V) {loose : List (HashNode V)} {fresh : ℕ}
    (hnodes : ∀ n ∈ t.nodes, n = node ∨ n ∈ s.table.nodes)
    (hloose : ∀ n ∈ loose, n ∈ s.loose ∧ n.address ≠ node.address)
    (hnew : ∀ n ∈ s.table.nodes, n.address ≠ node.address)
    (hfresh : s.fresh ≤ fresh) (hnode : node.address < fresh) :
    (⟨t, loose, fresh⟩ : HashState V).Represents hashOf m' := by
  constructor
  · exact ht
  · exact fun n hn => h.loose n (hloose n hn).1
  · intro n hn x hx
    rcases hnodes x hx with rfl | hx
    · exact (hloose n hn).2
    · exact h.apart n (hloose n hn).1 x hx
  · exact fun n hn x hx => h.looseOnce n (hloose n hn).1 x (hloose x hx).1
  · intro n hn x hx heq
    rcases hnodes n hn with rfl | hn <;> rcases hnodes x hx with rfl | hx
    · rfl
    · exact absurd heq.symm (hnew x hx)
    · exact absurd heq (hnew n hn)
    · exact h.tableOnce n hn x hx heq
  · intro n hn
    rcases List.mem_append.mp hn with hn | hn
    · exact lt_of_lt_of_le (h.fresh_loose (hloose n hn).1) hfresh
    · rcases hnodes n hn with rfl | hn
      · exact hnode
      · exact lt_of_lt_of_le (h.fresh_table hn) hfresh

theorem HashState.Represents.store {key : List UInt8} {keylen : ℕ} {hash : UInt64}
    {pObj : Option V}
    (hhonest : (hashArgs key keylen hash).1 = hashOf (hashArgs key keylen hash).2) :
    ∃ r s' m', s.step (.store key keylen hash pObj) = .ok (r, s') ∧
      HashAnswers hashOf s m (.store key keylen hash pObj) r m' ∧ s'.Represents hashOf m' := by
  obtain ⟨t, hgrow, ht, hnodes⟩ := h.table.checkAutogrow
  let node : HashNode V := ⟨s.fresh, (hashArgs key keylen hash).1, (hashArgs key keylen hash).2, pObj⟩
  have hstep : s.step (.store key keylen hash pObj) = .ok (.int (t.link node).1,
      { s with table := (t.link node).2, fresh := s.fresh + 1 }) := by
    simp only [HashState.step, HashTable.store, hgrow, call_bind_apply, node]
  by_cases hkey : node.key ∈ m
  · have hlink := ht.link_present hhonest hkey
    rw [hlink] at hstep
    refine ⟨_, _, m, hstep, ⟨fun _ => ⟨rfl, rfl⟩, fun hne => absurd hkey hne⟩, ?_⟩
    exact (h.allocated (Nat.le_succ _)).retable ht fun n hn => (hnodes n).mp hn
  · obtain ⟨hlinked, hr, hmem⟩ := ht.link_insert hhonest hkey
    refine ⟨_, _, _, hstep, ⟨fun hin => absurd hin hkey, fun _ => ⟨rfl, congrArg _ hr⟩⟩, ?_⟩
    apply h.linked hlinked node
    · intro n hn
      rw [hmem, hnodes] at hn
      exact hn
    · exact fun n hn => ⟨hn, (h.fresh_loose hn).ne⟩
    · exact fun n hn => (h.fresh_table hn).ne
    · exact Nat.le_succ _
    · exact Nat.lt_succ_self _

/-- The hash sum of a held node is the sum of its key. -/
theorem HashState.Represents.held_hash {n : HashNode V} (hn : n ∈ s.held) :
    n.hash = hashOf n.key := by
  rcases List.mem_append.mp hn with hn | hn
  · exact h.loose n hn
  · exact h.table.hashed n hn

theorem HashState.Represents.storenode {node : ℕ} {pObj : Option V}
    (hlive : ∃ n ∈ s.held, n.address = node) :
    ∃ r s' m', s.step (.storenode node pObj) = .ok (r, s') ∧
      HashAnswers hashOf s m (.storenode node pObj) r m' ∧ s'.Represents hashOf m' := by
  obtain ⟨n, hn, haddress, hderef⟩ := HashState.deref_ok hlive
  obtain ⟨t, hgrow, ht, hnodes⟩ := h.table.checkAutogrow
  let filled : HashNode V := { n with pObj := pObj }
  have hsum : n.hash = hashOf n.key := h.held_hash hn
  have hhash : filled.hash = hashOf filled.key := hsum
  have hstep : s.step (.storenode node pObj) = .ok (.int (t.link filled).1,
      { s with
        table := (t.link filled).2
        loose := if (t.link filled).1 = 0 then s.loose
          else s.loose.filter fun m => m.address ≠ node }) := by
    simp only [HashState.step, HashTable.storenode, hderef, hgrow, call_bind_apply, filled]
  by_cases hkey : filled.key ∈ m
  · rw [ht.link_present hhash hkey] at hstep
    refine ⟨_, _, m, hstep, ⟨n, hn, haddress, fun _ => ⟨rfl, rfl⟩, fun hne => absurd hkey hne⟩, ?_⟩
    exact h.retable ht fun n hn => (hnodes n).mp hn
  · obtain ⟨hlinked, hr, hmem⟩ := ht.link_insert hhash hkey
    have hloose : n ∈ s.loose := by
      rcases List.mem_append.mp hn with hloose | htable
      · exact hloose
      · exact absurd ((h.table.mem_iff n.key).mpr ⟨n, htable, rfl⟩) hkey
    have hcount : (t.link filled).1 ≠ 0 := by
      have hmember : filled.key ∈ (m.insert filled.key filled.pObj).keys :=
        Finmap.mem_keys.mpr ((Finmap.mem_insert).mpr (Or.inl rfl))
      have hpos := Finset.card_pos.mpr ⟨_, hmember⟩
      rw [hr]
      omega
    refine ⟨_, _, _, hstep, ⟨n, hn, haddress, fun hin => absurd hin hkey,
      fun _ => ⟨rfl, congrArg _ hr⟩⟩, ?_⟩
    rw [if_neg hcount]
    apply h.linked hlinked filled
    · intro x hx
      rw [hmem, hnodes] at hx
      exact hx
    · intro x hx
      rw [List.mem_filter, decide_eq_true_eq, ← haddress] at hx
      exact hx
    · exact fun x hx => (h.apart n hloose x hx).symm
    · exact le_rfl
    · have hfresh : n.address < s.fresh := h.fresh_loose hloose
      exact hfresh

/-- The call is undefined when its shrinking test is, and does what it should otherwise. -/
def HashState.Does (hashOf : List UInt8 → UInt64) (s : HashState V) (m : HashMap V)
    (call : HashCall V) : Prop :=
  (call.ShiftsDefined s → ∃ r s' m', s.step call = .ok (r, s') ∧ HashAnswers hashOf s m call r m' ∧
    s'.Represents hashOf m') ∧
  (¬call.ShiftsDefined s → s.step call = .error .undefinedBehaviour)

omit h in
theorem HashState.does_of_ok {call : HashCall V} (hkeep : ¬call.Removes s)
    (hok : ∃ r s' m', s.step call = .ok (r, s') ∧ HashAnswers hashOf s m call r m' ∧
      s'.Represents hashOf m') : s.Does hashOf m call :=
  ⟨fun _ => hok, fun hbad => absurd (fun hremoves => absurd hremoves hkeep) hbad⟩

/-- What is left of a chain without one of its nodes, as `HT_fetch` leaves it. -/
theorem HashState.Represents.rest {hash : UInt64} {key : List UInt8} {n : HashNode V}
    (hfound : s.table.found hash key = some n) :
    (s.table.passed hash key ++ (s.table.walk hash key).tail).Sublist
        (s.table.root (s.table.bucket n.hash)) ∧
      ∀ x, x ∈ s.table.passed hash key ++ (s.table.walk hash key).tail ↔
        x ∈ s.table.root (s.table.bucket n.hash) ∧ x ≠ n := by
  obtain ⟨rest, hwalk, hrank⟩ := HashTable.found_eq_some.mp hfound
  have hhash : n.hash = hash := (hashRank_inj.mp hrank).1
  have hsplit : s.table.root (s.table.bucket n.hash) = s.table.passed hash key ++ n :: rest := by
    rw [hhash, ← hwalk]
    exact List.takeWhile_append_dropWhile.symm
  have hnodup := (h.table.ordered.sorted _ (h.table.ordered.bucket_lt n.hash)).nodup
  rw [hwalk, List.tail_cons, hsplit]
  rw [hsplit] at hnodup
  refine ⟨(List.sublist_cons_self n rest).append_left _, ?_⟩
  intro x
  obtain ⟨-, hnrest, hdisjoint⟩ := List.nodup_append.mp hnodup
  have hn := (List.nodup_cons.mp hnrest).1
  rw [List.mem_append, List.mem_append, List.mem_cons]
  constructor
  · rintro (hx | hx)
    · exact ⟨Or.inl hx, hdisjoint x hx n List.mem_cons_self⟩
    · exact ⟨Or.inr (Or.inr hx), fun heq => hn (heq ▸ hx)⟩
  · rintro ⟨hx | hx | hx, hne⟩
    · exact Or.inl hx
    · exact absurd hx hne
    · exact Or.inr hx

theorem HashState.Represents.fetch {key : List UInt8} {keylen : ℕ} {hash : UInt64}
    (hhonest : (hashArgs key keylen hash).1 = hashOf (hashArgs key keylen hash).2) :
    s.Does hashOf m (.fetch key keylen hash) := by
  rcases hargs : hashArgs key keylen hash with ⟨hash', key'⟩
  rw [hargs] at hhonest
  dsimp only at hhonest
  subst hhonest
  have hremoves : HashCall.Removes s (.fetch key keylen hash) ↔
      ∃ n ∈ s.table.nodes, n.key = key' := by rw [HashCall.Removes, hargs]
  have hlookup := h.table.lookup_eq key'
  cases hfound : s.table.found (hashOf key') key' with
  | none =>
    have hnone : ¬HashCall.Removes s (.fetch key keylen hash) := by
      rw [hremoves]
      rintro ⟨n, hn, hkey⟩
      rw [(h.table.found_iff key' n).mpr ⟨hn, hkey⟩] at hfound
      cases hfound
    have habsent : m.lookup key' = none := by rw [hlookup, hfound, Option.map_none]
    have hstep : s.step (.fetch key keylen hash) = .ok (.ptr none, s) := by
      simp [HashState.step, HashTable.fetch, hargs, hfound]
    refine HashState.does_of_ok hnone ⟨_, s, m, hstep, ⟨?_, ?_⟩, h⟩
    · rw [hargs, habsent, Option.join_none]
    · rw [hargs]
      exact (erase_of_lookup_none habsent).symm
  | some n =>
    obtain ⟨hn, hkey⟩ := (h.table.found_iff key' n).mp hfound
    have hhash : n.hash = hashOf key' := by rw [h.table.hashed n hn, hkey]
    obtain ⟨hsub, hmem⟩ := h.rest hfound
    obtain ⟨hremoved, hnodes⟩ := h.table.remove hn hsub hmem
    have hcount : s.table.count ≠ 0 := by
      intro hzero
      have hin := (h.table.mem_iff key').mpr ⟨n, hn, hkey⟩
      rw [h.table.empty hzero] at hin
      exact Finmap.notMem_empty hin
    rw [hhash] at hremoved hnodes
    have hshrink := hremoved.checkAutoshrink
    have hyes : HashCall.Removes s (.fetch key keylen hash) := hremoves.mpr ⟨n, hn, hkey⟩
    change if s.table.flags &&& htAutoshrink ≠ 0 ∧ s.table.size = 2 then _ else _ at hshrink
    by_cases hbad : s.table.flags &&& htAutoshrink ≠ 0 ∧ s.table.size = 2
    · rw [if_pos hbad] at hshrink
      refine ⟨fun hdefined => absurd hbad.2 (hdefined hyes hbad.1), fun _ => ?_⟩
      simp only [HashState.step, HashTable.fetch, hargs, hfound, if_neg hcount, hshrink, call_bind_error]
    · rw [if_neg hbad] at hshrink
      obtain ⟨t, hok, ht, htnodes⟩ := hshrink
      have hstep : s.step (.fetch key keylen hash) = .ok (.ptr n.pObj, { s with table := t }) := by
        simp only [HashState.step, HashTable.fetch, hargs, hfound, if_neg hcount, hok, call_bind_apply]
      refine ⟨fun _ => ⟨_, _, m.erase key', hstep, ⟨?_, ?_⟩, ?_⟩,
        fun hundef => absurd (fun _ hflag hsize => hbad ⟨hflag, hsize⟩) hundef⟩
      · rw [hargs, hlookup, hfound, Option.map_some, Option.join_some]
      · rw [hargs]
      · rw [← hkey]
        exact h.retable ht fun x hx => ((hnodes x).mp ((htnodes x).mp hx)).1

/-- What the search for a held node by its address finds in its bucket. -/
theorem HashState.Represents.searched {n : HashNode V} (hn : n ∈ s.held) :
    ((s.table.root (s.table.bucket n.hash)).any fun x => decide (x.address = n.address)) = true ↔
      n ∈ s.table.nodes := by
  rw [List.any_eq_true]
  constructor
  · rintro ⟨x, hx, haddress⟩
    rw [decide_eq_true_eq] at haddress
    have hxnodes : x ∈ s.table.nodes :=
      HashTable.mem_nodes.mpr ⟨_, h.table.ordered.bucket_lt n.hash, hx⟩
    rcases List.mem_append.mp hn with hloose | htable
    · exact absurd haddress.symm (h.apart n hloose x hxnodes)
    · exact htable
  · intro htable
    exact ⟨n, h.table.ordered.mem_nodes.mp htable, decide_eq_true rfl⟩

/-- Unlinking a held node: it leaves the table, or was not there. -/
theorem HashState.Represents.unlink {n : HashNode V} (hn : n ∈ s.held) :
    (n ∉ s.table.nodes → s.table.unlink n = .ok (none, s.table)) ∧
    (n ∈ s.table.nodes →
      if s.table.flags &&& htAutoshrink ≠ 0 ∧ s.table.size = 2 then
        s.table.unlink n = .error .undefinedBehaviour
      else ∃ t, s.table.unlink n = .ok (n.pObj, t) ∧ t.Represents hashOf (m.erase n.key) ∧
        ∀ x, x ∈ t.nodes ↔ x ∈ s.table.nodes ∧ x ≠ n) := by
  have hsearch := h.searched hn
  constructor
  · intro habsent
    rw [HashTable.unlink, if_neg (hsearch.not.mpr habsent)]
  · intro htable
    have hsorted := h.table.ordered.sorted _ (h.table.ordered.bucket_lt n.hash)
    have hunique : ∀ x ∈ s.table.root (s.table.bucket n.hash),
        decide (x.address = n.address) = true ↔ x = n := by
      intro x hx
      rw [decide_eq_true_eq]
      constructor
      · have hxnodes : x ∈ s.table.nodes :=
          HashTable.mem_nodes.mpr ⟨_, h.table.ordered.bucket_lt n.hash, hx⟩
        exact h.tableOnce x hxnodes n htable
      · rintro rfl
        rfl
    have hsub : ((s.table.root (s.table.bucket n.hash)).eraseP
        fun x => decide (x.address = n.address)).Sublist
          (s.table.root (s.table.bucket n.hash)) := List.eraseP_sublist
    obtain ⟨hremoved, hnodes⟩ := h.table.remove htable hsub
      fun x => ChainRules.mem_eraseP hsorted.nodup hunique
    have hshrink := hremoved.checkAutoshrink
    change if s.table.flags &&& htAutoshrink ≠ 0 ∧ s.table.size = 2 then _ else _ at hshrink
    rw [HashTable.unlink, if_pos (hsearch.mpr htable)]
    split_ifs at hshrink ⊢ with hbad
    · rw [hshrink, call_bind_error]
    · obtain ⟨t, hok, ht, htnodes⟩ := hshrink
      refine ⟨t, ?_, ht, fun x => (htnodes x).trans (hnodes x)⟩
      rw [hok, call_bind_apply]

/-- A held node that is in the table is the one with its address there. -/
theorem HashState.Represents.table_iff {n : HashNode V} (hn : n ∈ s.held) :
    (∃ x ∈ s.table.nodes, x.address = n.address) ↔ n ∈ s.table.nodes := by
  constructor
  · rintro ⟨x, hx, haddress⟩
    rcases List.mem_append.mp hn with hloose | htable
    · exact absurd haddress.symm (h.apart n hloose x hx)
    · exact htable
  · exact fun htable => ⟨n, htable, rfl⟩

theorem HashState.Represents.rmnode {node : ℕ} (hlive : ∃ n ∈ s.held, n.address = node) :
    s.Does hashOf m (.rmnode node) := by
  obtain ⟨n, hn, haddress, hderef⟩ := HashState.deref_ok hlive
  obtain ⟨habsent, hpresent⟩ := h.unlink hn
  have hremoves : HashCall.Removes s (.rmnode node) ↔ n ∈ s.table.nodes := by
    rw [HashCall.Removes, ← haddress, h.table_iff hn]
  by_cases htable : n ∈ s.table.nodes
  · have hunlink := hpresent htable
    split_ifs at hunlink with hbad
    · refine ⟨fun hdefined => absurd hbad.2 (hdefined (hremoves.mpr htable) hbad.1), fun _ => ?_⟩
      simp only [HashState.step, hderef, hunlink, call_bind_apply, call_bind_error]
    · obtain ⟨t, hok, ht, hnodes⟩ := hunlink
      have hstep : s.step (.rmnode node) = .ok (.ptr n.pObj, { s with table := t }) := by
        simp only [HashState.step, hderef, hok, call_bind_apply]
      refine ⟨fun _ => ⟨_, _, m.erase n.key, hstep, ⟨?_, ?_⟩, ?_⟩,
        fun hundef => absurd (fun _ hflag hsize => hbad ⟨hflag, hsize⟩) hundef⟩
      · intro x hx hxaddress
        obtain rfl : x = n := h.tableOnce x hx n htable (hxaddress.trans haddress.symm)
        exact ⟨(h.table.lookup _ _).mpr ⟨x, hx, rfl, rfl⟩, rfl, rfl⟩
      · exact fun hnone => absurd haddress (hnone n htable)
      · exact h.retable ht fun x hx => ((hnodes x).mp hx).1
  · have hstep : s.step (.rmnode node) = .ok (.ptr none, s) := by
      simp only [HashState.step, hderef, habsent htable, call_bind_apply]
    refine HashState.does_of_ok (hremoves.not.mpr htable)
      ⟨_, s, m, hstep, ⟨?_, fun _ => ⟨rfl, rfl⟩⟩, h⟩
    intro x hx hxaddress
    exact absurd ((h.table_iff hn).mp ⟨x, hx, hxaddress.trans haddress.symm⟩) htable

/-- The fetched node is loose afterwards, without its object. -/
theorem HashState.Represents.fetchnode {node : ℕ} (hlive : ∃ n ∈ s.held, n.address = node) :
    s.Does hashOf m (.fetchnode node) := by
  obtain ⟨n, hn, haddress, hderef⟩ := HashState.deref_ok hlive
  obtain ⟨habsent, hpresent⟩ := h.unlink hn
  have hremoves : HashCall.Removes s (.fetchnode node) ↔ n ∈ s.table.nodes := by
    rw [HashCall.Removes, ← haddress, h.table_iff hn]
  by_cases htable : n ∈ s.table.nodes
  · have hunlink := hpresent htable
    have hsearch := (h.searched hn).mpr htable
    rw [haddress] at hsearch
    split_ifs at hunlink with hbad
    · refine ⟨fun hdefined => absurd hbad.2 (hdefined (hremoves.mpr htable) hbad.1), fun _ => ?_⟩
      simp only [HashState.step, hderef, hunlink, call_bind_apply, call_bind_error]
    · obtain ⟨t, hok, ht, hnodes⟩ := hunlink
      have hstep : s.step (.fetchnode node) = .ok (.ptr n.pObj,
          { s with table := t, loose := { n with pObj := none } :: s.loose }) := by
        simp only [HashState.step, hderef, hok, call_bind_apply, hsearch, if_true]
      refine ⟨fun _ => ⟨_, _, m.erase n.key, hstep, ⟨?_, ?_⟩, ?_⟩,
        fun hundef => absurd (fun _ hflag hsize => hbad ⟨hflag, hsize⟩) hundef⟩
      · intro x hx hxaddress
        obtain rfl : x = n := h.tableOnce x hx n htable (hxaddress.trans haddress.symm)
        exact ⟨(h.table.lookup _ _).mpr ⟨x, hx, rfl, rfl⟩, rfl, rfl⟩
      · exact fun hnone => absurd haddress (hnone n htable)
      · have hkept := h.retable ht fun x hx => ((hnodes x).mp hx).1
        refine ⟨ht, ?_, ?_, ?_, hkept.tableOnce, ?_⟩
        · intro x hx
          rcases List.mem_cons.mp hx with rfl | hx
          · have hsum : n.hash = hashOf n.key := h.held_hash hn
            exact hsum
          · exact h.loose x hx
        · intro x hx y hy
          obtain ⟨hytable, hyn⟩ := (hnodes y).mp hy
          rcases List.mem_cons.mp hx with rfl | hx
          · exact fun heq => hyn (h.tableOnce y hytable n htable heq.symm)
          · exact h.apart x hx y hytable
        · intro x hx y hy heq
          rcases List.mem_cons.mp hx with rfl | hx <;> rcases List.mem_cons.mp hy with rfl | hy
          · rfl
          · exact absurd heq.symm (h.apart y hy n htable)
          · exact absurd heq (h.apart x hx n htable)
          · exact h.looseOnce x hx y hy heq
        · intro x hx
          rcases List.mem_append.mp hx with hx | hx
          · rcases List.mem_cons.mp hx with rfl | hx
            · have hfresh : n.address < s.fresh := h.fresh n hn
              exact hfresh
            · exact h.fresh_loose hx
          · exact h.fresh_table ((hnodes x).mp hx).1
  · have hsearch := (h.searched hn).not.mpr htable
    rw [haddress] at hsearch
    have hstep : s.step (.fetchnode node) = .ok (.ptr none, s) := by
      simp only [HashState.step, hderef, habsent htable, call_bind_apply, hsearch,
        Bool.false_eq_true, if_false]
    refine HashState.does_of_ok (hremoves.not.mpr htable)
      ⟨_, s, m, hstep, ⟨?_, fun _ => ⟨rfl, rfl⟩⟩, h⟩
    intro x hx hxaddress
    exact absurd ((h.table_iff hn).mp ⟨x, hx, hxaddress.trans haddress.symm⟩) htable

theorem HashState.Represents.get_eq {key : List UInt8} {keylen : ℕ} {hash : UInt64}
    (hhonest : (hashArgs key keylen hash).1 = hashOf (hashArgs key keylen hash).2) :
    s.table.get key keylen hash = (m.lookup (hashArgs key keylen hash).2).join := by
  rcases hargs : hashArgs key keylen hash with ⟨hash', key'⟩
  rw [hargs] at hhonest
  dsimp only at hhonest ⊢
  subst hhonest
  by_cases hcount : s.table.count = 0
  · rw [HashTable.get, if_pos hcount, h.table.empty hcount, Finmap.lookup_empty, Option.join_none]
  · simp only [HashTable.get, if_neg hcount, hargs, h.table.lookup_eq key']
    cases s.table.found (hashOf key') key' with
    | none => rfl
    | some n => rfl

theorem HashState.Represents.exists_eq {key : List UInt8} {keylen : ℕ} {hash : UInt64}
    (hhonest : (hashArgs key keylen hash).1 = hashOf (hashArgs key keylen hash).2) :
    s.table.exists key keylen hash = if (hashArgs key keylen hash).2 ∈ m then 1 else 0 := by
  rcases hargs : hashArgs key keylen hash with ⟨hash', key'⟩
  rw [hargs] at hhonest
  dsimp only at hhonest ⊢
  subst hhonest
  by_cases hcount : s.table.count = 0
  · rw [HashTable.exists, if_pos hcount, h.table.empty hcount, if_neg Finmap.notMem_empty]
  · have hlookup := h.table.lookup_eq key'
    simp only [HashTable.exists, if_neg hcount, hargs]
    cases hfound : s.table.found (hashOf key') key' with
    | none =>
      rw [hfound, Option.map_none, Finmap.lookup_eq_none] at hlookup
      rw [if_neg hlookup]
    | some n =>
      rw [hfound, Option.map_some] at hlookup
      rw [if_pos (Finmap.mem_iff.mpr ⟨_, hlookup⟩)]

theorem HashState.Represents.resize (size : ℤ) :
    ∃ r s' m', s.step (.resize size) = .ok (r, s') ∧
      HashAnswers hashOf s m (.resize size) r m' ∧ s'.Represents hashOf m' := by
  have hordered := h.table.ordered
  have hanswer (r : ℤ) (t : HashTable V) (hresize : s.table.resize size = (r, t))
      (hr : r = if 0 < size ∧ size ≤ maxHashTableSize ∧ size ≠ s.table.size then 1 else 0)
      (ht : t.Ordered) (hnodes : ∀ n, n ∈ t.nodes ↔ n ∈ s.table.nodes)
      (hcount : t.count = s.table.count) : ∃ r s' m', s.step (.resize size) = .ok (r, s') ∧
        HashAnswers hashOf s m (.resize size) r m' ∧ s'.Represents hashOf m' := by
    refine ⟨.int r, { s with table := t }, m, ?_, ⟨by rw [hr], rfl⟩, ?_⟩
    · rw [HashState.step, hresize]
    · exact h.retable (h.table.congr ht hnodes hcount) fun n hn => (hnodes n).mp hn
  by_cases hrange : size ≤ 0 ∨ size > maxHashTableSize
  · exact hanswer 0 s.table (if_pos hrange) (by rw [if_neg (by omega)]) hordered
      (fun _ => Iff.rfl) rfl
  · obtain ⟨n, rfl⟩ := Int.eq_ofNat_of_zero_le (show 0 ≤ size by omega)
    by_cases hsame : (n : ℤ) = s.table.size
    · have hresize : s.table.resize n = (0, s.table) := by
        rw [HashTable.resize, if_neg hrange, if_pos hsame]
      exact hanswer 0 s.table hresize (by rw [if_neg (by tauto)]) hordered (fun _ => Iff.rfl) rfl
    · have hr : (1 : ℤ) =
          if 0 < (n : ℤ) ∧ (n : ℤ) ≤ maxHashTableSize ∧ (n : ℤ) ≠ s.table.size then 1 else 0 := by
        rw [if_pos ⟨by omega, by omega, hsame⟩]
      by_cases hgrow : (n : ℤ) > s.table.size
      · have hresize : s.table.resize n = (1, s.table.grow n) := by
          rw [HashTable.resize, if_neg hrange, if_neg hsame, if_pos hgrow, Int.toNat_natCast]
        have hold : s.table.size ≤ n := by omega
        have hsize : n ≤ maxHashTableSize := by omega
        exact hanswer 1 _ hresize hr (hordered.grow hold hsize)
          (fun _ => hordered.mem_grow hold hsize) rfl
      · have hresize : s.table.resize n = (1, s.table.shrink n) := by
          rw [HashTable.resize, if_neg hrange, if_neg hsame, if_neg hgrow, Int.toNat_natCast]
        have hold : n ≤ s.table.size := by omega
        exact hanswer 1 _ hresize hr (hordered.shrink (by omega) hold)
          (fun _ => hordered.mem_shrink hold) rfl

omit h in
/-- A table without nodes stands for the empty map. -/
theorem HashTable.Ordered.represents_empty {t : HashTable V} (ht : t.Ordered)
    (hnodes : ∀ n, n ∉ t.nodes) (hcount : t.count = 0) : t.Represents hashOf ∅ := by
  refine ⟨ht, fun n hn => absurd hn (hnodes n), ?_, ?_⟩
  · intro k v
    rw [Finmap.lookup_empty]
    constructor
    · intro habsurd
      cases habsurd
    · rintro ⟨n, hn, -⟩
      exact absurd hn (hnodes n)
  · rw [hcount, Finmap.keys_empty, Finset.card_empty]
    rfl

theorem HashState.Represents.flush :
    ∃ r s' m', s.step .flush = .ok (r, s') ∧
      HashAnswers hashOf s m .flush r m' ∧ s'.Represents hashOf m' := by
  have hordered := h.table.ordered
  by_cases hcount : s.table.count = 0
  · have hempty := h.table.empty hcount
    have hnodes : s.table.nodes = [] := by
      rw [List.eq_nil_iff_forall_not_mem]
      intro n hn
      have hin := (h.table.mem_iff n.key).mpr ⟨n, hn, rfl⟩
      rw [hempty] at hin
      exact Finmap.notMem_empty hin
    have hstep : s.step .flush = .ok (.destroyed [], s) := by
      rw [HashState.step, HashTable.flush, if_pos hcount]
    refine ⟨_, s, ∅, hstep, ⟨?_, rfl⟩, hempty ▸ h⟩
    rw [hnodes, List.map_nil]
  · have hroot (b : ℕ) (hb : b < 2 ^ s.table.size) :
        (s.table.flush.2).root b = [] := by
      rw [HashTable.flush, if_neg hcount]
      exact if_pos hb
    have hsize : s.table.flush.2.size = s.table.size := by
      rw [HashTable.flush, if_neg hcount]
    have hflushed : s.table.flush.2.Ordered := by
      refine ⟨?_, ?_, ?_, ?_, ?_⟩
      · rw [hsize]
        exact hordered.size_pos
      · rw [hsize]
        exact hordered.size_le
      · rw [hsize, HashTable.flush, if_neg hcount]
        exact hordered.bmask
      · intro b hb
        rw [hroot b (hsize ▸ hb)]
        exact List.Pairwise.nil
      · intro b hb n hn
        rw [hroot b (hsize ▸ hb)] at hn
        exact absurd hn List.not_mem_nil
    have hnone : ∀ n, n ∉ s.table.flush.2.nodes := by
      intro n hn
      obtain ⟨b, hb, hn⟩ := HashTable.mem_nodes.mp hn
      rw [hroot b (hsize ▸ hb)] at hn
      exact absurd hn List.not_mem_nil
    have hzero : s.table.flush.2.count = 0 := by
      rw [HashTable.flush, if_neg hcount]
    have hobjects : s.table.flush.1 = s.table.nodes.map HashNode.pObj := by
      rw [HashTable.flush, if_neg hcount]
    refine ⟨_, _, ∅, rfl, ⟨congrArg _ hobjects, rfl⟩, ?_⟩
    exact h.retable (hflushed.represents_empty hnone hzero) fun n hn => absurd hn (hnone n)

omit h in
/-- The map with every object cloned. -/
theorem exists_mapped (m : HashMap V) (f : Option V → Option V) :
    ∃ mc : HashMap V, (∀ k, mc.lookup k = (m.lookup k).map f) ∧ mc.keys = m.keys := by
  let values : Finset (List UInt8) × (List UInt8 → Option (Option V)) :=
    (m.keys, fun k => (m.lookup k).map f)
  have hvalues : ∀ k, (values.2 k).isSome ↔ k ∈ values.1 := by
    intro k
    rw [Option.isSome_map, Finmap.lookup_isSome, Finmap.mem_keys]
  refine ⟨Finmap.keysLookupEquiv.symm ⟨values, hvalues⟩, ?_, ?_⟩
  · exact fun k => Finmap.keysLookupEquiv_symm_apply_lookup _ k
  · exact Finmap.keysLookupEquiv_symm_apply_keys _

/-- The copy of a node in a clone. -/
def HashNode.copy (n : HashNode V) (fresh : ℕ) (func : Option (Option V → Option V)) :
    HashNode V :=
  { n with address := fresh + n.address, pObj := (func.getD id) n.pObj }

omit h in
theorem HashTable.Ordered.clone {t : HashTable V} (ht : t.Ordered) (hcount : t.count ≥ 0)
    (hempty : t.count = 0 → t.nodes = []) (fresh : ℕ) (func : Option (Option V → Option V)) :
    ∃ t', t.clone fresh func = some t' ∧ t'.Ordered ∧ t'.count = t.count ∧
      ∀ x, x ∈ t'.nodes ↔ ∃ n ∈ t.nodes, n.copy fresh func = x := by
  have hnew : HashTable.new (V := V) t.size t.flags = some
      { count := 0, size := t.size, flags := t.flags, bmask := bucketMask t.size
        root := fun _ => [] } := by
    have hpos := ht.size_pos
    have hle := ht.size_le
    rw [HashTable.new, if_neg (by omega), Int.toNat_natCast]
  rw [HashTable.clone, hnew]
  by_cases hpos : t.count > 0
  · simp only [Option.map_some, if_pos hpos]
    have hordered : HashTable.Ordered (V := V)
        { count := t.count, size := t.size, flags := t.flags, bmask := bucketMask t.size
          root := fun b => if b < 2 ^ t.size
            then (t.root b).map fun n => n.copy fresh func else [] } := by
      refine ⟨ht.size_pos, ht.size_le, rfl, ?_, ?_⟩
      · intro b hb
        dsimp only at hb ⊢
        rw [if_pos hb]
        exact List.pairwise_map.mpr (ht.sorted b hb)
      · intro b hb x hx
        dsimp only at hb hx
        rw [if_pos hb] at hx
        obtain ⟨n, hn, rfl⟩ := List.mem_map.mp hx
        have hplaced := ht.placed b hb n hn
        rw [HashTable.bucket, ht.bmask] at hplaced
        exact hplaced
    refine ⟨_, rfl, hordered, rfl, ?_⟩
    intro x
    rw [HashTable.mem_nodes]
    constructor
    · rintro ⟨b, hb, hx⟩
      dsimp only at hb hx
      rw [if_pos hb] at hx
      obtain ⟨n, hn, rfl⟩ := List.mem_map.mp hx
      exact ⟨n, HashTable.mem_nodes.mpr ⟨b, hb, hn⟩, rfl⟩
    · rintro ⟨n, hn, rfl⟩
      obtain ⟨b, hb, hn⟩ := HashTable.mem_nodes.mp hn
      refine ⟨b, hb, ?_⟩
      dsimp only
      rw [if_pos hb]
      exact List.mem_map_of_mem hn
  · have hzero : t.count = 0 := by omega
    simp only [Option.map_some, if_neg hpos]
    refine ⟨_, rfl, ⟨ht.size_pos, ht.size_le, rfl, ?_, ?_⟩, hzero.symm, ?_⟩
    · exact fun b _ => List.Pairwise.nil
    · exact fun b _ n hn => absurd hn List.not_mem_nil
    · intro x
      rw [HashTable.mem_nodes, hempty hzero]
      constructor
      · rintro ⟨b, -, hx⟩
        exact absurd hx List.not_mem_nil
      · rintro ⟨n, hn, -⟩
        exact absurd hn List.not_mem_nil

theorem HashState.Represents.clone (func : Option (Option V → Option V)) :
    ∃ r s' m', s.step (.clone func) = .ok (r, s') ∧
      HashAnswers hashOf s m (.clone func) r m' ∧ s'.Represents hashOf m' := by
  have hempty : s.table.count = 0 → s.table.nodes = [] := by
    intro hcount
    rw [List.eq_nil_iff_forall_not_mem]
    intro n hn
    have hin := (h.table.mem_iff n.key).mpr ⟨n, hn, rfl⟩
    rw [h.table.empty hcount] at hin
    exact Finmap.notMem_empty hin
  obtain ⟨t, hclone, hordered, hcount, hnodes⟩ :=
    h.table.ordered.clone h.table.count_nonneg hempty s.fresh func
  obtain ⟨mc, hlookup, hkeys⟩ := exists_mapped m (func.getD id)
  have ht : t.Represents hashOf mc := by
    refine ⟨hordered, ?_, ?_, ?_⟩
    · intro x hx
      obtain ⟨n, hn, rfl⟩ := (hnodes x).mp hx
      have hsum : n.hash = hashOf n.key := h.table.hashed n hn
      exact hsum
    · intro k v
      rw [hlookup, Option.map_eq_some_iff]
      constructor
      · rintro ⟨w, hw, rfl⟩
        obtain ⟨n, hn, hkey, rfl⟩ := (h.table.lookup k w).mp hw
        exact ⟨n.copy s.fresh func, (hnodes _).mpr ⟨n, hn, rfl⟩, hkey, rfl⟩
      · rintro ⟨x, hx, hkey, rfl⟩
        obtain ⟨n, hn, rfl⟩ := (hnodes x).mp hx
        exact ⟨n.pObj, (h.table.lookup k n.pObj).mpr ⟨n, hn, hkey, rfl⟩, rfl⟩
    · rw [hcount, hkeys, h.table.count]
  have hloose : ∀ x : HashNode V, x ∉ ([] : List (HashNode V)) := fun _ => List.not_mem_nil
  have hstate : (⟨t, [], 2 * s.fresh⟩ : HashState V).Represents hashOf mc := by
    refine ⟨ht, fun x hx => absurd hx (hloose x), fun x hx => absurd hx (hloose x),
      fun x hx => absurd hx (hloose x), ?_, ?_⟩
    · intro x hx y hy heq
      obtain ⟨n, hn, rfl⟩ := (hnodes x).mp hx
      obtain ⟨k, hk, rfl⟩ := (hnodes y).mp hy
      have haddress : s.fresh + n.address = s.fresh + k.address := heq
      rw [h.tableOnce n hn k hk (by omega)]
    · intro x hx
      obtain ⟨n, hn, rfl⟩ := (hnodes x).mp hx
      have hfresh := h.fresh_table hn
      change s.fresh + n.address < 2 * s.fresh
      omega
  refine ⟨_, _, m, rfl, ⟨rfl, t, mc, ?_, hlookup, hstate⟩, h.allocated (by omega)⟩
  rw [hclone]

/-- Every honest call does what it should, unless its shrinking test is undefined. -/
theorem HashState.Represents.does {call : HashCall V} (hhonest : call.Honest hashOf s) :
    s.Does hashOf m call := by
  cases call with
  | newNode key keylen hash => exact HashState.does_of_ok id (h.newNode hhonest)
  | store key keylen hash pObj => exact HashState.does_of_ok id (h.store hhonest)
  | storenode node pObj => exact HashState.does_of_ok id (h.storenode hhonest)
  | fetchnode node => exact h.fetchnode hhonest
  | rmnode node => exact h.rmnode hhonest
  | fetch key keylen hash => exact h.fetch hhonest
  | get key keylen hash =>
    exact HashState.does_of_ok id ⟨_, s, m, rfl, ⟨congrArg _ (h.get_eq hhonest), rfl⟩, h⟩
  | «exists» key keylen hash =>
    exact HashState.does_of_ok id ⟨_, s, m, rfl, ⟨congrArg _ (h.exists_eq hhonest), rfl⟩, h⟩
  | resize size => exact HashState.does_of_ok id (h.resize size)
  | flush => exact HashState.does_of_ok id h.flush
  | clone func => exact HashState.does_of_ok id (h.clone func)

end Represents

/-- A new table and no nodes. -/
theorem HashTable.new_represents {size : ℤ} {flags : UInt64} {t : HashTable V}
    (hnew : HashTable.new size flags = some t) :
    (⟨t, [], 0⟩ : HashState V).Represents hashOf ∅ := by
  unfold HashTable.new at hnew
  split_ifs at hnew with hrange
  obtain rfl := Option.some.inj hnew
  have hnodes : ∀ n, n ∉ HashTable.nodes (V := V)
      { count := 0, size := size.toNat, flags := flags, bmask := bucketMask size.toNat
        root := fun _ => [] } := by
    intro n hn
    obtain ⟨b, -, hn⟩ := HashTable.mem_nodes.mp hn
    exact absurd hn List.not_mem_nil
  have hordered : HashTable.Ordered (V := V)
      { count := 0, size := size.toNat, flags := flags, bmask := bucketMask size.toNat
        root := fun _ => [] } := by
    refine ⟨?_, ?_, rfl, fun _ _ => List.Pairwise.nil, fun _ _ n hn => absurd hn List.not_mem_nil⟩
    · dsimp only
      omega
    · dsimp only
      omega
  have hloose : ∀ x : HashNode V, x ∉ ([] : List (HashNode V)) := fun _ => List.not_mem_nil
  refine ⟨hordered.represents_empty hnodes rfl, fun x hx => absurd hx (hloose x),
    fun x hx => absurd hx (hloose x), fun x hx => absurd hx (hloose x),
    fun x hx => absurd hx (hnodes x), ?_⟩
  intro x hx
  rcases List.mem_append.mp hx with hx | hx
  · exact absurd hx (hloose x)
  · exact absurd hx (hnodes x)

theorem BehavesAsMap.represents {s : HashState V} {m : HashMap V} {calls : List (HashCall V)}
    (h : BehavesAsMap hashOf s m calls) : s.Represents hashOf m := by
  cases calls with
  | nil => exact h.1
  | cons call calls => exact h.1.1

theorem HashState.next_of_step {s s' : HashState V} {call : HashCall V} {r : HashResult V}
    (hstep : s.step call = .ok (r, s')) : s.next call = some s' := by
  rw [HashState.next, hstep]
  rfl

/-- A sequence of honest calls behaves as calls on a finite map if and only if no call
removes an entry from a table of size 2 that shrinks by itself. -/
theorem table_behaves_as_map_iff {s : HashState V} {m : HashMap V} (h : s.Represents hashOf m)
    {calls : List (HashCall V)}
    (hhonest : RunRules.Along HashState.next (fun s call => call.Honest hashOf s) s calls) :
    BehavesAsMap hashOf s m calls ↔
      RunRules.Along HashState.next (fun s call => call.ShiftsDefined s) s calls := by
  induction calls generalizing s m with
  | nil => exact ⟨fun _ => trivial, fun _ => h.faithful⟩
  | cons call calls ih =>
    obtain ⟨hdefined, hundefined⟩ := h.does hhonest.1
    constructor
    · rintro ⟨-, r, s', m', hstep, -, hrest⟩
      have hshift : call.ShiftsDefined s := by
        by_contra hbad
        rw [hundefined hbad] at hstep
        cases hstep
      have hnext := HashState.next_of_step hstep
      refine ⟨hshift, fun t ht => ?_⟩
      obtain rfl := Option.some.inj (hnext.symm.trans ht)
      exact (ih hrest.represents (hhonest.2 s' hnext)).mp hrest
    · rintro ⟨hshift, hrest⟩
      obtain ⟨r, s', m', hstep, hanswers, hrep⟩ := hdefined hshift
      have hnext := HashState.next_of_step hstep
      exact ⟨h.faithful, r, s', m', hstep, hanswers,
        (ih hrep (hhonest.2 s' hnext)).mpr (hrest s' hnext)⟩

/-- A new table that shrinks by itself. -/
def autoshrinking (size : ℕ) : HashTable Unit where
  count := 0
  size := size
  flags := htAutoshrink
  bmask := bucketMask size
  root _ := []

def storeAndFetch : List (HashCall Unit) := [.store [97] 1 7 none, .fetch [97] 1 7]

/-- A table of size 2 that shrinks by itself shifts by a negative amount when its only entry
is fetched. -/
theorem autoshrink_undefined :
    HashTable.new 2 htAutoshrink = some (autoshrinking 2) ∧
      RunRules.Along HashState.next (fun s call => call.Honest (fun _ => 7) s)
        ⟨autoshrinking 2, [], 0⟩ storeAndFetch ∧
      ¬BehavesAsMap (fun _ => 7) ⟨autoshrinking 2, [], 0⟩ ∅ storeAndFetch := by
  refine ⟨rfl, ⟨rfl, fun s hs => ⟨rfl, fun _ _ => trivial⟩⟩, ?_⟩
  rintro ⟨-, r, s, m, hstore, -, -, r', s', m', hfetch, -⟩
  cases hstore
  cases hfetch

/-- The same calls on a table of size 3. -/
theorem table_behaves_as_map_iff_small :
    BehavesAsMap (fun _ => 7) ⟨autoshrinking 3, [], 0⟩ ∅ storeAndFetch ↔
      RunRules.Along HashState.next (fun s call => call.ShiftsDefined s)
        ⟨autoshrinking 3, [], 0⟩ storeAndFetch := by
  have hnew : HashTable.new 3 htAutoshrink = some (autoshrinking 3) := rfl
  apply table_behaves_as_map_iff
  · exact HashTable.new_represents hnew
  · exact ⟨rfl, fun s hs => ⟨rfl, fun _ _ => trivial⟩⟩

end ConvertBinaryC
