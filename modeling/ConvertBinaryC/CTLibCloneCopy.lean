import ConvertBinaryC.CTLibClone

/-! The loops of `clone_parse_info`. Each is described by the renaming that it is going to make: the
copies are at the addresses that the renaming gives. -/
namespace ConvertBinaryC
open ArenaRules FoldRules

section Tags

/-- The entry for an object, unless it is tagless. -/
def tagEntry (identifier : String) (v : ℕ) : List (String × ℕ) :=
  if identifier = "" then [] else [(identifier, v)]

theorem storeTag_eq (ht : String → Option ℕ) (identifier : String) (v : ℕ) :
    storeTag ht identifier v = stores ht (tagEntry identifier v) := by
  unfold storeTag tagEntry
  split_ifs
  · rfl
  · rfl

/-- Tagless objects are not in the way of a name. -/
theorem find_tagEntries {l : List ℕ} {name : ℕ → String} {v : ℕ → ℕ} {n : String} (hn : n ≠ "") :
    ((l.flatMap fun i => tagEntry (name i) (v i)).find? fun e => e.1 = n).map Prod.snd =
      (l.find? fun i => name i = n).map v := by
  induction l with
  | nil => rfl
  | cons i l ih =>
    rw [List.flatMap_cons, List.find?_append, List.find?_cons]
    by_cases hi : name i = n
    · have hentry : tagEntry (name i) (v i) = [(name i, v i)] := if_neg fun h => hn (hi ▸ h)
      rw [hentry, decide_eq_true hi]
      simp [hi]
    · have hentry : (tagEntry (name i) (v i)).find? (fun e => e.1 = n) = none := by
        unfold tagEntry
        split_ifs
        · rfl
        · simp [hi]
      rw [hentry, Option.none_or, decide_eq_false hi]
      exact ih

end Tags

section Loops
variable {ρ : ParserObject → ℕ}

/-- The state after the enums of a list were copied. -/
def CloneState.withEnums (st : CloneState) (ρ : ParserObject → ℕ) (l : List ℕ) : CloneState where
  mem := { st.mem with
    enumerators := st.mem.enumerators.allocs
      ((l.flatMap fun i => (st.mem.enums.get i).ids).map st.mem.enumerators.get)
    enums := st.mem.enums.allocs (l.map fun i => (st.mem.enums.get i).rename ρ) }
  dest := { st.dest with
    enums := st.dest.enums ++ l.map fun i => ρ (.enumSpecifier i)
    htEnums := stores st.dest.htEnums
      (l.flatMap fun i => tagEntry (st.mem.enums.get i).spec.identifier (ρ (.enumSpecifier i)))
    htEnumerators := stores st.dest.htEnumerators
      ((l.flatMap fun i => (st.mem.enums.get i).ids).map fun e =>
        ((st.mem.enumerators.get e).identifier, ρ (.enumerator e))) }
  ptrmap := stores st.ptrmap (l.map fun i => (.enumSpecifier i, ρ (.enumSpecifier i)))

theorem cloneEnum_eq {st : CloneState} {i : ℕ} (haddress : ρ (.enumSpecifier i) = st.mem.enums.count)
    (hids : (st.mem.enums.get i).ids.map (fun e => ρ (.enumerator e)) =
      st.mem.enumerators.fresh (st.mem.enums.get i).ids.length) :
    cloneEnum st i = st.withEnums ρ [i] := by
  have hnew : st.mem.enumerators.fresh ((st.mem.enums.get i).ids.map st.mem.enumerators.get).length =
      (st.mem.enums.get i).ids.map fun e => ρ (.enumerator e) := by rw [List.length_map, hids]
  have hentries : (((st.mem.enums.get i).ids.map st.mem.enumerators.get).map Enumerator.identifier).zip
      ((st.mem.enums.get i).ids.map fun e => ρ (.enumerator e)) =
        (st.mem.enums.get i).ids.map fun e =>
          ((st.mem.enumerators.get e).identifier, ρ (.enumerator e)) := by
    rw [List.map_map, List.zip_map']
    rfl
  unfold cloneEnum
  dsimp only
  rw [hnew, hentries, storeTag_eq, ← haddress]
  unfold CloneState.withEnums
  simp only [List.flatMap_cons, List.flatMap_nil, List.append_nil, List.map_cons, List.map_nil]
  rw [haddress]
  rfl

/-- The old enums and enumerators are still there for the rest of a list. -/
theorem withEnums_cons {st : CloneState} {i : ℕ} {l : List ℕ}
    (hl : ∀ j ∈ l, j < st.mem.enums.count)
    (hids : ∀ e ∈ l.flatMap fun j => (st.mem.enums.get j).ids, e < st.mem.enumerators.count) :
    (st.withEnums ρ [i]).withEnums ρ l = st.withEnums ρ (i :: l) := by
  have hget (j : ℕ) (hj : j ∈ l) : (st.withEnums ρ [i]).mem.enums.get j = st.mem.enums.get j :=
    Arena.allocs_get_old _ (hl j hj)
  have hflat : (l.flatMap fun j => ((st.withEnums ρ [i]).mem.enums.get j).ids) =
      l.flatMap fun j => (st.mem.enums.get j).ids :=
    List.flatMap_congr fun j hj => by rw [hget j hj]
  have hread (e : ℕ) (he : e ∈ l.flatMap fun j => (st.mem.enums.get j).ids) :
      (st.withEnums ρ [i]).mem.enumerators.get e = st.mem.enumerators.get e :=
    Arena.allocs_get_old _ (hids e he)
  have hcopies : (l.flatMap fun j => (st.mem.enums.get j).ids).map
      (st.withEnums ρ [i]).mem.enumerators.get =
        (l.flatMap fun j => (st.mem.enums.get j).ids).map st.mem.enumerators.get :=
    List.map_congr_left hread
  have hobjects : l.map (fun j => ((st.withEnums ρ [i]).mem.enums.get j).rename ρ) =
      l.map fun j => (st.mem.enums.get j).rename ρ :=
    List.map_congr_left fun j hj => by rw [hget j hj]
  have htags : (l.flatMap fun j => tagEntry ((st.withEnums ρ [i]).mem.enums.get j).spec.identifier
      (ρ (.enumSpecifier j))) =
        l.flatMap fun j => tagEntry (st.mem.enums.get j).spec.identifier (ρ (.enumSpecifier j)) :=
    List.flatMap_congr fun j hj => by rw [hget j hj]
  have hnames : (l.flatMap fun j => (st.mem.enums.get j).ids).map (fun e =>
      (((st.withEnums ρ [i]).mem.enumerators.get e).identifier, ρ (.enumerator e))) =
        (l.flatMap fun j => (st.mem.enums.get j).ids).map fun e =>
          ((st.mem.enumerators.get e).identifier, ρ (.enumerator e)) :=
    List.map_congr_left fun e he => by rw [hread e he]
  rw [CloneState.withEnums.eq_def (st.withEnums ρ [i]), hflat, hcopies, hobjects, htags, hnames]
  simp only [CloneState.withEnums, List.flatMap_cons, List.flatMap_nil, List.append_nil,
    List.map_cons, List.map_nil, List.map_append, Arena.allocs_append, stores_append,
    List.append_assoc, List.singleton_append]
  rfl

/-- The loop over the enums. -/
theorem foldl_cloneEnum {st : CloneState} {l : List ℕ} (hl : ∀ i ∈ l, i < st.mem.enums.count)
    (hids : ∀ e ∈ l.flatMap fun i => (st.mem.enums.get i).ids, e < st.mem.enumerators.count)
    (haddresses : l.map (fun i => ρ (.enumSpecifier i)) = st.mem.enums.fresh l.length)
    (hnew : (l.flatMap fun i => (st.mem.enums.get i).ids).map (fun e => ρ (.enumerator e)) =
      st.mem.enumerators.fresh (l.flatMap fun i => (st.mem.enums.get i).ids).length) :
    l.foldl cloneEnum st = st.withEnums ρ l := by
  induction l generalizing st with
  | nil => simp [CloneState.withEnums, Arena.allocs, stores]
  | cons i l ih =>
    have hl' (j : ℕ) (hj : j ∈ l) : j < st.mem.enums.count := hl j (List.mem_cons_of_mem i hj)
    rw [List.flatMap_cons] at hids hnew
    have hids' (e : ℕ) (he : e ∈ l.flatMap fun j => (st.mem.enums.get j).ids) :
        e < st.mem.enumerators.count := hids e (List.mem_append_right _ he)
    -- the addresses of the first enum and of its enumerators, and those of the others
    have hone : [(st.mem.enums.get i).rename ρ].length = [i].length := rfl
    obtain ⟨hfirst, hrest⟩ := Arena.map_split hone haddresses
    obtain ⟨hids₁, hidsRest⟩ := Arena.map_split (List.length_map _) hnew
    rw [List.length_map] at hids₁
    have haddress : ρ (.enumSpecifier i) = st.mem.enums.count := (List.cons.inj hfirst).1
    have hstep : cloneEnum st i = st.withEnums ρ [i] := cloneEnum_eq haddress hids₁
    have hget (j : ℕ) (hj : j ∈ l) : (st.withEnums ρ [i]).mem.enums.get j = st.mem.enums.get j :=
      Arena.allocs_get_old _ (hl' j hj)
    have hflat : (l.flatMap fun j => ((st.withEnums ρ [i]).mem.enums.get j).ids) =
        l.flatMap fun j => (st.mem.enums.get j).ids :=
      List.flatMap_congr fun j hj => by rw [hget j hj]
    have hcopies : (st.withEnums ρ [i]).mem.enumerators =
        st.mem.enumerators.allocs ((st.mem.enums.get i).ids.map st.mem.enumerators.get) := by
      simp only [CloneState.withEnums, List.flatMap_cons, List.flatMap_nil, List.append_nil]
    calc (i :: l).foldl cloneEnum st
      _ = l.foldl cloneEnum (st.withEnums ρ [i]) := by rw [List.foldl_cons, hstep]
      _ = (st.withEnums ρ [i]).withEnums ρ l := by
        apply ih
        · intro j hj
          exact Nat.lt_of_lt_of_le (hl' j hj) (by simp [CloneState.withEnums])
        · intro e he
          rw [hflat] at he
          exact Nat.lt_of_lt_of_le (hids' e he) (by simp [CloneState.withEnums])
        · exact hrest
        · rw [hflat, hcopies]
          exact hidsRest
      _ = st.withEnums ρ (i :: l) := withEnums_cons hl' hids'

/-- The state after the compounds of a list were copied. -/
def CloneState.withStructs (st : CloneState) (ρ : ParserObject → ℕ) (l : List ℕ) : CloneState where
  mem := { st.mem with structs := st.mem.structs.allocs (l.map st.mem.structs.get) }
  dest := { st.dest with
    structs := st.dest.structs ++ l.map fun s => ρ (.struct s)
    htStructs := stores st.dest.htStructs
      (l.flatMap fun s => tagEntry (st.mem.structs.get s).identifier (ρ (.struct s))) }
  ptrmap := stores st.ptrmap (l.map fun s => (.struct s, ρ (.struct s)))

theorem cloneStruct_eq {st : CloneState} {s : ℕ} (haddress : ρ (.struct s) = st.mem.structs.count) :
    cloneStruct st s = st.withStructs ρ [s] := by
  unfold cloneStruct
  dsimp only
  rw [storeTag_eq, ← haddress]
  unfold CloneState.withStructs
  simp only [List.flatMap_cons, List.flatMap_nil, List.append_nil, List.map_cons, List.map_nil]
  rfl

theorem withStructs_cons {st : CloneState} {s : ℕ} {l : List ℕ}
    (hl : ∀ j ∈ l, j < st.mem.structs.count) :
    (st.withStructs ρ [s]).withStructs ρ l = st.withStructs ρ (s :: l) := by
  have hget (j : ℕ) (hj : j ∈ l) : (st.withStructs ρ [s]).mem.structs.get j = st.mem.structs.get j :=
    Arena.allocs_get_old _ (hl j hj)
  have hcopies : l.map (st.withStructs ρ [s]).mem.structs.get = l.map st.mem.structs.get :=
    List.map_congr_left hget
  have htags : (l.flatMap fun j => tagEntry ((st.withStructs ρ [s]).mem.structs.get j).identifier
      (ρ (.struct j))) =
        l.flatMap fun j => tagEntry (st.mem.structs.get j).identifier (ρ (.struct j)) :=
    List.flatMap_congr fun j hj => by rw [hget j hj]
  rw [CloneState.withStructs.eq_def (st.withStructs ρ [s]), hcopies, htags]
  simp only [CloneState.withStructs, List.flatMap_cons, List.flatMap_nil, List.append_nil,
    List.map_cons, List.map_nil, stores_append, List.append_assoc, List.singleton_append]
  rfl

/-- The loop over the compounds. -/
theorem foldl_cloneStruct {st : CloneState} {l : List ℕ} (hl : ∀ s ∈ l, s < st.mem.structs.count)
    (haddresses : l.map (fun s => ρ (.struct s)) = st.mem.structs.fresh l.length) :
    l.foldl cloneStruct st = st.withStructs ρ l := by
  induction l generalizing st with
  | nil => simp [CloneState.withStructs, Arena.allocs, stores]
  | cons s l ih =>
    have hl' (j : ℕ) (hj : j ∈ l) : j < st.mem.structs.count := hl j (List.mem_cons_of_mem s hj)
    have hone : [st.mem.structs.get s].length = [s].length := rfl
    obtain ⟨hfirst, hrest⟩ := Arena.map_split hone haddresses
    have hstep : cloneStruct st s = st.withStructs ρ [s] := cloneStruct_eq (List.cons.inj hfirst).1
    calc (s :: l).foldl cloneStruct st
      _ = l.foldl cloneStruct (st.withStructs ρ [s]) := by rw [List.foldl_cons, hstep]
      _ = (st.withStructs ρ [s]).withStructs ρ l := by
        apply ih
        · intro j hj
          exact Nat.lt_of_lt_of_le (hl' j hj) (by simp [CloneState.withStructs])
        · exact hrest
      _ = st.withStructs ρ (s :: l) := withStructs_cons hl'

/-- The typedefs of a list, with the type of the list. -/
def listTypedefs (st : CloneState) (list : TypedefList) : List Typedef :=
  list.typedefs.map fun t => { st.mem.typedefs.get t with type := list.type }

/-- The state after the typedefs of some lists were copied; their types are still those of the
source. -/
def CloneState.withTypedefs (st : CloneState) (ρ : ParserObject → ℕ) (lists : List TypedefList) :
    CloneState where
  mem := { st.mem with typedefs := st.mem.typedefs.allocs (lists.flatMap (listTypedefs st)) }
  dest := { st.dest with
    typedef_lists := st.dest.typedef_lists ++
      lists.map fun list => ⟨list.type, list.typedefs.map fun t => ρ (.typedef t)⟩
    htTypedefs := stores st.dest.htTypedefs
      ((lists.flatMap TypedefList.typedefs).map fun t =>
        ((st.mem.typedefs.get t).decl.identifier, ρ (.typedef t))) }
  ptrmap := stores st.ptrmap
    ((lists.flatMap TypedefList.typedefs).map fun t => (.typedef t, ρ (.typedef t)))

theorem cloneTypedefList_eq {st : CloneState} {list : TypedefList}
    (haddresses : list.typedefs.map (fun t => ρ (.typedef t)) =
      st.mem.typedefs.fresh list.typedefs.length) :
    cloneTypedefList st list = st.withTypedefs ρ [list] := by
  have hnew : st.mem.typedefs.fresh (listTypedefs st list).length =
      list.typedefs.map fun t => ρ (.typedef t) := by rw [listTypedefs, List.length_map, haddresses]
  have hnames : ((listTypedefs st list).map fun td => td.decl.identifier).zip
      (list.typedefs.map fun t => ρ (.typedef t)) =
        list.typedefs.map fun t => ((st.mem.typedefs.get t).decl.identifier, ρ (.typedef t)) := by
    rw [listTypedefs, List.map_map, List.zip_map']
    rfl
  have hpointers : (list.typedefs.map ParserObject.typedef).zip
      (list.typedefs.map fun t => ρ (.typedef t)) =
        list.typedefs.map fun t => (ParserObject.typedef t, ρ (.typedef t)) := List.zip_map' ..
  unfold cloneTypedefList
  change (⟨_, { st.dest with
      typedef_lists := _ ++ [⟨list.type, st.mem.typedefs.fresh (listTypedefs st list).length⟩]
      htTypedefs := stores _ (((listTypedefs st list).map fun td => td.decl.identifier).zip
        (st.mem.typedefs.fresh (listTypedefs st list).length)) },
    stores _ ((list.typedefs.map ParserObject.typedef).zip
      (st.mem.typedefs.fresh (listTypedefs st list).length))⟩ : CloneState) = _
  rw [hnew, hnames, hpointers]
  unfold CloneState.withTypedefs
  simp only [List.flatMap_cons, List.flatMap_nil, List.append_nil, List.map_cons, List.map_nil]
  rfl

theorem withTypedefs_cons {st : CloneState} {list : TypedefList} {lists : List TypedefList}
    (hl : ∀ t ∈ lists.flatMap TypedefList.typedefs, t < st.mem.typedefs.count) :
    (st.withTypedefs ρ [list]).withTypedefs ρ lists = st.withTypedefs ρ (list :: lists) := by
  have hget (t : ℕ) (ht : t ∈ lists.flatMap TypedefList.typedefs) :
      (st.withTypedefs ρ [list]).mem.typedefs.get t = st.mem.typedefs.get t :=
    Arena.allocs_get_old _ (hl t ht)
  have hcopies : lists.flatMap (listTypedefs (st.withTypedefs ρ [list])) =
      lists.flatMap (listTypedefs st) := by
    apply List.flatMap_congr
    intro l hmem
    apply List.map_congr_left
    intro t ht
    rw [hget t (List.mem_flatMap.mpr ⟨l, hmem, ht⟩)]
  have hnames : (lists.flatMap TypedefList.typedefs).map (fun t =>
      (((st.withTypedefs ρ [list]).mem.typedefs.get t).decl.identifier, ρ (.typedef t))) =
        (lists.flatMap TypedefList.typedefs).map fun t =>
          ((st.mem.typedefs.get t).decl.identifier, ρ (.typedef t)) :=
    List.map_congr_left fun t ht => by rw [hget t ht]
  rw [CloneState.withTypedefs.eq_def (st.withTypedefs ρ [list]), hcopies, hnames]
  simp only [CloneState.withTypedefs, List.flatMap_cons, List.flatMap_nil, List.append_nil,
    List.map_cons, List.map_nil, List.map_append, Arena.allocs_append, stores_append,
    List.append_assoc, List.singleton_append]

/-- The loop over the typedef lists. -/
theorem foldl_cloneTypedefList {st : CloneState} {lists : List TypedefList}
    (hl : ∀ t ∈ lists.flatMap TypedefList.typedefs, t < st.mem.typedefs.count)
    (haddresses : (lists.flatMap TypedefList.typedefs).map (fun t => ρ (.typedef t)) =
      st.mem.typedefs.fresh (lists.flatMap TypedefList.typedefs).length) :
    lists.foldl cloneTypedefList st = st.withTypedefs ρ lists := by
  induction lists generalizing st with
  | nil => simp [CloneState.withTypedefs, Arena.allocs, stores]
  | cons list lists ih =>
    rw [List.flatMap_cons] at hl haddresses
    have hl' (t : ℕ) (ht : t ∈ lists.flatMap TypedefList.typedefs) : t < st.mem.typedefs.count :=
      hl t (List.mem_append_right _ ht)
    have hlength : (listTypedefs st list).length = list.typedefs.length := List.length_map _
    obtain ⟨hfirst, hrest⟩ := Arena.map_split hlength haddresses
    rw [hlength] at hfirst
    have hstep : cloneTypedefList st list = st.withTypedefs ρ [list] := cloneTypedefList_eq hfirst
    have hcopies : (st.withTypedefs ρ [list]).mem.typedefs =
        st.mem.typedefs.allocs (listTypedefs st list) := by
      simp only [CloneState.withTypedefs, List.flatMap_cons, List.flatMap_nil, List.append_nil]
    calc (list :: lists).foldl cloneTypedefList st
      _ = lists.foldl cloneTypedefList (st.withTypedefs ρ [list]) := by rw [List.foldl_cons, hstep]
      _ = (st.withTypedefs ρ [list]).withTypedefs ρ lists := by
        apply ih
        · intro t ht
          exact Nat.lt_of_lt_of_le (hl' t ht) (by simp [CloneState.withTypedefs])
        · rw [hcopies]
          exact hrest
      _ = st.withTypedefs ρ (list :: lists) := withTypedefs_cons hl'

end Loops
end ConvertBinaryC
