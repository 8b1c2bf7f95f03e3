import ConvertBinaryC.CTLibCloneCopy

/-! `clone_parse_info` makes a clone of every sound database: all pointers are found, and the clone is
sound again. -/
namespace ConvertBinaryC
open ArenaRules FoldRules

section Remap
variable {ρ : ParserObject → ℕ} {ptrmap : PtrMap}

theorem mapM_pure {α β : Type} {f : α → Call β} {g : α → β} {l : List α}
    (h : ∀ a ∈ l, f a = .ok (g a)) : l.mapM f = .ok (l.map g) := by
  induction l with
  | nil => rfl
  | cons a l ih =>
    have hrest := ih fun b hb => h b (List.mem_cons_of_mem a hb)
    rw [List.mapM_cons, h a List.mem_cons_self, hrest]
    rfl

theorem remapPtr_ok {spec : TypeSpec} (target : String)
    (h : ∀ o, spec.object = some o → ptrmap o = some (ρ o)) :
    remapPtr ptrmap target spec = .ok (spec.rename ρ) := by
  cases spec with
  | basic tflags => rfl
  | enum pES =>
    rw [remapPtr, h _ rfl]
    rfl
  | compound kind pStruct =>
    rw [remapPtr, h _ rfl]
    rfl
  | typedef pTypedef =>
    rw [remapPtr, h _ rfl]
    rfl

theorem remapDeclarations_ok {s : Struct} (h : ∀ list, s.declarations = some list → ∀ sd ∈ list,
    ∀ o, sd.type.object = some o → ptrmap o = some (ρ o)) :
    remapDeclarations ptrmap s = .ok (s.rename ρ) := by
  unfold remapDeclarations Struct.rename
  cases hlist : s.declarations with
  | none =>
    dsimp only
    rw [Option.map_none, ← hlist]
  | some list =>
    have hmembers (sd : StructDeclaration) (hsd : sd ∈ list) :
        remapDeclaration ptrmap sd = .ok (sd.rename ρ) := by
      unfold remapDeclaration
      rw [remapPtr_ok _ (h list hlist sd hsd)]
      rfl
    dsimp only
    rw [mapM_pure hmembers]
    rfl

/-- The loop over the compounds. -/
theorem foldlM_remapStruct {structs : Arena Struct} {l : List ℕ} (hl : l.Nodup)
    (h : ∀ p ∈ l, ∀ list, (structs.get p).declarations = some list → ∀ sd ∈ list,
      ∀ o, sd.type.object = some o → ptrmap o = some (ρ o)) :
    l.foldlM (remapStruct ptrmap) structs = .ok (structs.update l (Struct.rename ρ)) :=
  Arena.foldlM_set hl fun p hp => remapDeclarations_ok (h p hp)

theorem remapTypedefList_ok {typedefs : Arena Typedef} {list : TypedefList}
    (hl : list.typedefs.Nodup) (hobject : ∀ o, list.type.object = some o → ptrmap o = some (ρ o))
    (htype : ∀ p ∈ list.typedefs, (typedefs.get p).type = list.type) :
    remapTypedefList ptrmap typedefs list =
      .ok (typedefs.update list.typedefs (Typedef.rename ρ), { list with type := list.type.rename ρ }) := by
  have hset : list.typedefs.foldl
      (fun tds t => tds.set t { tds.get t with type := list.type.rename ρ }) typedefs =
        typedefs.update list.typedefs (Typedef.rename ρ) := by
    calc list.typedefs.foldl (fun tds t => tds.set t { tds.get t with type := list.type.rename ρ }) typedefs
      _ = typedefs.update list.typedefs fun td => { td with type := list.type.rename ρ } :=
        @Arena.foldl_set _ typedefs (fun td => { td with type := list.type.rename ρ }) _ hl
      _ = typedefs.update list.typedefs (Typedef.rename ρ) := by
        apply Arena.update_congr
        intro p hp
        rw [Typedef.rename, htype p hp]
  unfold remapTypedefList
  rw [remapPtr_ok _ hobject]
  exact congrArg (fun tds => Except.ok (tds, { list with type := list.type.rename ρ })) hset

/-- The loop over the typedef lists. -/
theorem mapAccumM_remapTypedefList {typedefs : Arena Typedef} {lists : List TypedefList}
    (hl : (lists.flatMap TypedefList.typedefs).Nodup)
    (hobject : ∀ list ∈ lists, ∀ o, list.type.object = some o → ptrmap o = some (ρ o))
    (htype : ∀ list ∈ lists, ∀ p ∈ list.typedefs, (typedefs.get p).type = list.type) :
    mapAccumM (remapTypedefList ptrmap) typedefs lists =
      .ok (typedefs.update (lists.flatMap TypedefList.typedefs) (Typedef.rename ρ),
        lists.map fun list => { list with type := list.type.rename ρ }) := by
  induction lists generalizing typedefs with
  | nil =>
    rw [List.flatMap_nil, Arena.update_nil]
    rfl
  | cons list lists ih =>
    rw [List.flatMap_cons, List.nodup_append] at hl
    obtain ⟨hfirst, hrest, hapart⟩ := hl
    have hdisjoint : list.typedefs.Disjoint (lists.flatMap TypedefList.typedefs) :=
      fun p hp hp' => hapart p hp p hp' rfl
    have hstep := remapTypedefList_ok hfirst (hobject list List.mem_cons_self)
      (htype list List.mem_cons_self)
    have htypes : ∀ l ∈ lists, ∀ p ∈ l.typedefs,
        ((typedefs.update list.typedefs (Typedef.rename ρ)).get p).type = l.type := by
      intro l hmem p hp
      have hnot : p ∉ list.typedefs := fun h => hdisjoint h (List.mem_flatMap.mpr ⟨l, hmem, hp⟩)
      rw [Arena.update_get_of_notMem _ hnot]
      exact htype l (List.mem_cons_of_mem list hmem) p hp
    have hloop := ih hrest (fun l hmem => hobject l (List.mem_cons_of_mem list hmem)) htypes
    rw [Arena.update_append _ hdisjoint] at hloop
    exact mapAccumM_cons_ok hstep hloop

end Remap

section Addresses
variable (mem : TypeMemory) (src : ParseTables)

/-- Where the clone of an object of the lists is: the copies are made in the order of the lists. -/
def ParseTables.cloneAddress : ParserObject → ℕ
  | .enumerator e => mem.enumerators.count + (src.enumerators mem).idxOf e
  | .enumSpecifier i => mem.enums.count + src.enums.idxOf i
  | .struct s => mem.structs.count + src.structs.idxOf s
  | .typedef t => mem.typedefs.count + src.typedefs.idxOf t

/-- The state before the pointers are renamed. -/
def copiedState : CloneState :=
  ((CloneState.withEnums ⟨mem, .empty, fun _ => none⟩ (src.cloneAddress mem) src.enums).withStructs
    (src.cloneAddress mem) src.structs).withTypedefs (src.cloneAddress mem) src.typedef_lists

variable {mem src} (h : src.Sound mem)
include h

theorem ParseTables.Sound.enum_addresses :
    src.enums.map (fun i => src.cloneAddress mem (.enumSpecifier i)) =
      mem.enums.fresh src.enums.length := map_idxOf _ h.enums_nodup

theorem ParseTables.Sound.enumerator_addresses :
    (src.enumerators mem).map (fun e => src.cloneAddress mem (.enumerator e)) =
      mem.enumerators.fresh (src.enumerators mem).length := map_idxOf _ h.enumerators_nodup

theorem ParseTables.Sound.struct_addresses :
    src.structs.map (fun s => src.cloneAddress mem (.struct s)) =
      mem.structs.fresh src.structs.length := map_idxOf _ h.structs_nodup

theorem ParseTables.Sound.typedef_addresses :
    src.typedefs.map (fun t => src.cloneAddress mem (.typedef t)) =
      mem.typedefs.fresh src.typedefs.length := map_idxOf _ h.typedefs_nodup

/-- The loops that copy. -/
theorem ParseTables.Sound.copied :
    src.typedef_lists.foldl cloneTypedefList (src.structs.foldl cloneStruct
      (src.enums.foldl cloneEnum ⟨mem, .empty, fun _ => none⟩)) = copiedState mem src := by
  have henums : src.enums.foldl cloneEnum ⟨mem, .empty, fun _ => none⟩ =
      CloneState.withEnums ⟨mem, .empty, fun _ => none⟩ (src.cloneAddress mem) src.enums :=
    foldl_cloneEnum (fun i hi => h.made (.enumSpecifier i) hi) (fun e he => h.made (.enumerator e) he)
      h.enum_addresses h.enumerator_addresses
  have hstructs := @foldl_cloneStruct (src.cloneAddress mem)
    (CloneState.withEnums ⟨mem, .empty, fun _ => none⟩ (src.cloneAddress mem) src.enums) src.structs
    (fun s hs => h.made (.struct s) hs) h.struct_addresses
  rw [henums, hstructs]
  exact foldl_cloneTypedefList (fun t ht => h.made (.typedef t) ht) h.typedef_addresses

omit h in
theorem copiedState_ptrmap : (copiedState mem src).ptrmap =
    stores (fun _ => none) ((src.enums.map ParserObject.enumSpecifier ++
      src.structs.map ParserObject.struct ++ src.typedefs.map ParserObject.typedef).map
        fun o => (o, src.cloneAddress mem o)) := by
  rw [List.map_append, List.map_append, List.map_map, List.map_map, List.map_map, stores_append,
    stores_append]
  rfl

omit h in
/-- Every object that a type can point to is found. -/
theorem found_of_lists {spec : TypeSpec} {o : ParserObject} (ho : spec.object = some o)
    (hlists : src.Lists mem o) :
    (copiedState mem src).ptrmap o = some (src.cloneAddress mem o) := by
  have hmem : o ∈ src.enums.map ParserObject.enumSpecifier ++ src.structs.map ParserObject.struct ++
      src.typedefs.map ParserObject.typedef := by
    rw [List.mem_append, List.mem_append]
    cases spec with
    | basic tflags => cases ho
    | enum pES =>
      cases ho
      exact Or.inl (Or.inl (List.mem_map_of_mem hlists))
    | compound kind pStruct =>
      cases ho
      exact Or.inl (Or.inr (List.mem_map_of_mem hlists))
    | typedef pTypedef =>
      cases ho
      exact Or.inr (List.mem_map_of_mem hlists)
  rw [copiedState_ptrmap]
  exact stores_of_mem hmem (fun _ _ heq => heq) rfl

omit h in
theorem flatMap_retyped (l : List TypedefList) (ρ : ParserObject → ℕ) :
    (l.map fun list => (⟨list.type, list.typedefs.map fun t => ρ (.typedef t)⟩ : TypedefList)).flatMap
      TypedefList.typedefs = (l.flatMap TypedefList.typedefs).map fun t => ρ (.typedef t) := by
  rw [List.flatMap_map, List.map_flatMap]

/-- The typedefs refer to the types of their lists, so these are copied with them. -/
theorem ParseTables.Sound.listed_typedefs (ptrmap : PtrMap) (dest : ParseTables) :
    src.typedef_lists.flatMap (listTypedefs ⟨mem, dest, ptrmap⟩) =
      src.typedefs.map mem.typedefs.get := by
  have hlist : src.typedef_lists.flatMap (listTypedefs ⟨mem, dest, ptrmap⟩) =
      src.typedef_lists.flatMap fun list => list.typedefs.map mem.typedefs.get := by
    apply List.flatMap_congr
    intro list hmem
    apply List.map_congr_left
    intro t ht
    rw [← h.list_type list hmem t ht]
  rw [hlist, ParseTables.typedefs, List.map_flatMap]

/-- The memory after cloning. -/
def clonedMemory (mem : TypeMemory) (src : ParseTables) : TypeMemory where
  enumerators := mem.enumerators.allocs ((src.enumerators mem).map mem.enumerators.get)
  enums := mem.enums.allocs (src.enums.map fun i => (mem.enums.get i).rename (src.cloneAddress mem))
  structs := (mem.structs.allocs (src.structs.map mem.structs.get)).update
    (src.structs.map fun s => src.cloneAddress mem (.struct s)) (Struct.rename (src.cloneAddress mem))
  typedefs := (mem.typedefs.allocs (src.typedefs.map mem.typedefs.get)).update
    (src.typedefs.map fun t => src.cloneAddress mem (.typedef t))
    (Typedef.rename (src.cloneAddress mem))

/-- The lists and tables of the clone. -/
def clonedTables (mem : TypeMemory) (src : ParseTables) : ParseTables :=
  { (copiedState mem src).dest with
    typedef_lists := src.typedef_lists.map (TypedefList.rename (src.cloneAddress mem)) }

omit h in
theorem copied_struct {s : ℕ} (hs : s ∈ src.structs) :
    (mem.structs.allocs (src.structs.map mem.structs.get)).get (src.cloneAddress mem (.struct s)) =
      mem.structs.get s := Arena.allocs_get_idxOf mem.structs.get hs

omit h in
theorem copied_typedef {t : ℕ} (ht : t ∈ src.typedefs) :
    (mem.typedefs.allocs (src.typedefs.map mem.typedefs.get)).get
      (src.cloneAddress mem (.typedef t)) = mem.typedefs.get t :=
  Arena.allocs_get_idxOf mem.typedefs.get ht

/-- No pointer is missing from the table of the clones. -/
theorem ParseTables.Sound.cloneParseInfo_eq :
    cloneParseInfo mem src = .ok (clonedMemory mem src, clonedTables mem src) := by
  have hstructs_nodup : (src.structs.map fun s => src.cloneAddress mem (.struct s)).Nodup := by
    rw [h.struct_addresses]
    exact List.nodup_range'
  have htypedefs_nodup : (src.typedefs.map fun t => src.cloneAddress mem (.typedef t)).Nodup := by
    rw [h.typedef_addresses]
    exact List.nodup_range'
  have hmembers : ∀ p ∈ src.structs.map (fun s => src.cloneAddress mem (.struct s)), ∀ list,
      ((mem.structs.allocs (src.structs.map mem.structs.get)).get p).declarations = some list →
        ∀ sd ∈ list, ∀ o, sd.type.object = some o →
          (copiedState mem src).ptrmap o = some (src.cloneAddress mem o) := by
    intro p hp list hlist sd hsd o ho
    obtain ⟨s, hs, rfl⟩ := List.mem_map.mp hp
    rw [copied_struct hs] at hlist
    exact found_of_lists ho (h.member_object s hs list hlist sd hsd o ho)
  have hstructs := foldlM_remapStruct hstructs_nodup hmembers
  have htypedefs : mapAccumM (remapTypedefList (copiedState mem src).ptrmap)
      (mem.typedefs.allocs (src.typedefs.map mem.typedefs.get))
      (src.typedef_lists.map fun list =>
        ⟨list.type, list.typedefs.map fun t => src.cloneAddress mem (.typedef t)⟩) =
        .ok ((clonedMemory mem src).typedefs, (clonedTables mem src).typedef_lists) := by
    have hloop := @mapAccumM_remapTypedefList (src.cloneAddress mem) (copiedState mem src).ptrmap
      (mem.typedefs.allocs (src.typedefs.map mem.typedefs.get))
      (src.typedef_lists.map fun list =>
        ⟨list.type, list.typedefs.map fun t => src.cloneAddress mem (.typedef t)⟩)
    rw [flatMap_retyped, List.map_map] at hloop
    apply hloop htypedefs_nodup
    · intro list hmem o ho
      obtain ⟨l, hl, rfl⟩ := List.mem_map.mp hmem
      exact found_of_lists ho (h.list_object l hl o ho)
    · intro list hmem p hp
      obtain ⟨l, hl, rfl⟩ := List.mem_map.mp hmem
      obtain ⟨t, ht, rfl⟩ := List.mem_map.mp hp
      rw [copied_typedef (List.mem_flatMap.mpr ⟨l, hl, ht⟩)]
      exact h.list_type l hl t ht
  have hcopied : (copiedState mem src).mem.typedefs =
      mem.typedefs.allocs (src.typedefs.map mem.typedefs.get) :=
    congrArg mem.typedefs.allocs (h.listed_typedefs _ _)
  unfold cloneParseInfo
  dsimp only
  rw [h.copied]
  change ((src.structs.map fun s => src.cloneAddress mem (.struct s)).foldlM
    (remapStruct (copiedState mem src).ptrmap)
      (mem.structs.allocs (src.structs.map mem.structs.get)) >>= _) = _
  rw [hstructs]
  change (mapAccumM (remapTypedefList (copiedState mem src).ptrmap) (copiedState mem src).mem.typedefs
    (src.typedef_lists.map fun list =>
      (⟨list.type, list.typedefs.map fun t => src.cloneAddress mem (.typedef t)⟩ : TypedefList)) >>= _) = _
  rw [hcopied, htypedefs]
  rfl

end Addresses

section Clone
variable {mem : TypeMemory} {src : ParseTables}

theorem cloned_enum {i : ℕ} (hi : i ∈ src.enums) :
    (clonedMemory mem src).enums.get (src.cloneAddress mem (.enumSpecifier i)) =
      (mem.enums.get i).rename (src.cloneAddress mem) :=
  Arena.allocs_get_idxOf (fun i => (mem.enums.get i).rename (src.cloneAddress mem)) hi

theorem cloned_enumerator {e : ℕ} (he : e ∈ src.enumerators mem) :
    (clonedMemory mem src).enumerators.get (src.cloneAddress mem (.enumerator e)) =
      mem.enumerators.get e := Arena.allocs_get_idxOf mem.enumerators.get he

theorem cloned_struct {s : ℕ} (hs : s ∈ src.structs) :
    (clonedMemory mem src).structs.get (src.cloneAddress mem (.struct s)) =
      (mem.structs.get s).rename (src.cloneAddress mem) := by
  have hmem : src.cloneAddress mem (.struct s) ∈
      src.structs.map fun s => src.cloneAddress mem (.struct s) :=
    List.mem_map_of_mem (f := fun s => src.cloneAddress mem (.struct s)) hs
  calc (clonedMemory mem src).structs.get (src.cloneAddress mem (.struct s))
    _ = _ := Arena.update_get_of_mem _ hmem
    _ = _ := by rw [copied_struct hs]

theorem cloned_typedef {t : ℕ} (ht : t ∈ src.typedefs) :
    (clonedMemory mem src).typedefs.get (src.cloneAddress mem (.typedef t)) =
      (mem.typedefs.get t).rename (src.cloneAddress mem) := by
  have hmem : src.cloneAddress mem (.typedef t) ∈
      src.typedefs.map fun t => src.cloneAddress mem (.typedef t) :=
    List.mem_map_of_mem (f := fun t => src.cloneAddress mem (.typedef t)) ht
  calc (clonedMemory mem src).typedefs.get (src.cloneAddress mem (.typedef t))
    _ = _ := Arena.update_get_of_mem _ hmem
    _ = _ := by rw [copied_typedef ht]

/-- What was made before is not at the address of a clone. -/
theorem kept_of_update {α : Type} {m : Arena α} {l : List ℕ} {f : ℕ → ℕ} {xs : List α} {g : α → α}
    {i : ℕ} (hf : ∀ x ∈ l, m.count ≤ f x) (hi : i < m.count) :
    ((m.allocs xs).update (l.map f) g).get i = m.get i := by
  have hnot : i ∉ l.map f := by
    intro hmem
    obtain ⟨x, hx, rfl⟩ := List.mem_map.mp hmem
    exact absurd hi (Nat.not_lt.mpr (hf x hx))
  rw [Arena.update_get_of_notMem g hnot, Arena.allocs_get_old xs hi]

theorem cloneAddress_ge (o : ParserObject) : mem.count o ≤ src.cloneAddress mem o := by
  cases o with
  | enumerator e => exact Nat.le_add_right _ _
  | enumSpecifier i => exact Nat.le_add_right _ _
  | struct s => exact Nat.le_add_right _ _
  | typedef t => exact Nat.le_add_right _ _

def ParserObject.rename (ρ : ParserObject → ℕ) : ParserObject → ParserObject
  | .enumerator e => .enumerator (ρ (.enumerator e))
  | .enumSpecifier i => .enumSpecifier (ρ (.enumSpecifier i))
  | .struct s => .struct (ρ (.struct s))
  | .typedef t => .typedef (ρ (.typedef t))

theorem object_rename (ρ : ParserObject → ℕ) (spec : TypeSpec) :
    (spec.rename ρ).object = spec.object.map (ParserObject.rename ρ) := by
  cases spec with
  | basic tflags => rfl
  | enum pES => rfl
  | compound kind pStruct => rfl
  | typedef pTypedef => rfl

theorem clonedTables_typedefs : (clonedTables mem src).typedefs =
    src.typedefs.map fun t => src.cloneAddress mem (.typedef t) := by
  show (src.typedef_lists.map (TypedefList.rename (src.cloneAddress mem))).flatMap
    TypedefList.typedefs = _
  rw [List.flatMap_map, ParseTables.typedefs, List.map_flatMap]
  rfl

theorem clonedTables_enumerators : (clonedTables mem src).enumerators (clonedMemory mem src) =
    (src.enumerators mem).map fun e => src.cloneAddress mem (.enumerator e) := by
  show (src.enums.map fun i => src.cloneAddress mem (.enumSpecifier i)).flatMap
    (fun i => ((clonedMemory mem src).enums.get i).ids) = _
  rw [List.flatMap_map, ParseTables.enumerators, List.map_flatMap]
  apply List.flatMap_congr
  intro i hi
  rw [cloned_enum hi]
  rfl

/-- The objects of the clone are the clones of the objects. -/
theorem clonedTables_lists_iff (o : ParserObject) :
    (clonedTables mem src).Lists (clonedMemory mem src) o ↔
      ∃ o', src.Lists mem o' ∧ o'.rename (src.cloneAddress mem) = o := by
  constructor
  · intro h
    cases o with
    | enumerator e =>
      rw [ParseTables.Lists, clonedTables_enumerators] at h
      obtain ⟨e', he, rfl⟩ := List.mem_map.mp h
      exact ⟨.enumerator e', he, rfl⟩
    | enumSpecifier i =>
      obtain ⟨i', hi, rfl⟩ := List.mem_map.mp h
      exact ⟨.enumSpecifier i', hi, rfl⟩
    | struct s =>
      obtain ⟨s', hs, rfl⟩ := List.mem_map.mp h
      exact ⟨.struct s', hs, rfl⟩
    | typedef t =>
      rw [ParseTables.Lists, clonedTables_typedefs] at h
      obtain ⟨t', ht, rfl⟩ := List.mem_map.mp h
      exact ⟨.typedef t', ht, rfl⟩
  · rintro ⟨o', h, rfl⟩
    cases o' with
    | enumerator e =>
      rw [ParserObject.rename, ParseTables.Lists, clonedTables_enumerators]
      exact List.mem_map.mpr ⟨e, h, rfl⟩
    | enumSpecifier i => exact List.mem_map.mpr ⟨i, h, rfl⟩
    | struct s => exact List.mem_map.mpr ⟨s, h, rfl⟩
    | typedef t =>
      rw [ParserObject.rename, ParseTables.Lists, clonedTables_typedefs]
      exact List.mem_map.mpr ⟨t, h, rfl⟩

theorem rename_object_lists {spec : TypeSpec} {o : ParserObject}
    (h : ∀ o, spec.object = some o → src.Lists mem o)
    (ho : (spec.rename (src.cloneAddress mem)).object = some o) :
    (clonedTables mem src).Lists (clonedMemory mem src) o := by
  rw [object_rename] at ho
  obtain ⟨o', ho', rfl⟩ := Option.map_eq_some_iff.mp ho
  exact (clonedTables_lists_iff _).mpr ⟨o', h o' ho', rfl⟩

theorem cloned_made {o : ParserObject} (h : src.Lists mem o) :
    (o.rename (src.cloneAddress mem)).address <
      (clonedMemory mem src).count (o.rename (src.cloneAddress mem)) := by
  cases o with
  | enumerator e =>
    show mem.enumerators.count + (src.enumerators mem).idxOf e < (mem.enumerators.allocs _).count
    rw [Arena.allocs_count, List.length_map]
    exact Nat.add_lt_add_left (List.idxOf_lt_length_of_mem h) _
  | enumSpecifier i =>
    show mem.enums.count + src.enums.idxOf i < (mem.enums.allocs _).count
    rw [Arena.allocs_count, List.length_map]
    exact Nat.add_lt_add_left (List.idxOf_lt_length_of_mem h) _
  | struct s =>
    show mem.structs.count + src.structs.idxOf s < (mem.structs.allocs _).count
    rw [Arena.allocs_count, List.length_map]
    exact Nat.add_lt_add_left (List.idxOf_lt_length_of_mem h) _
  | typedef t =>
    show mem.typedefs.count + src.typedefs.idxOf t < (mem.typedefs.allocs _).count
    rw [Arena.allocs_count, List.length_map]
    exact Nat.add_lt_add_left (List.idxOf_lt_length_of_mem h) _

/-- A clone can be cloned. -/
theorem ParseTables.Sound.cloned (h : src.Sound mem) :
    (clonedTables mem src).Sound (clonedMemory mem src) where
  made o ho := by
    obtain ⟨o', ho', rfl⟩ := (clonedTables_lists_iff o).mp ho
    exact cloned_made ho'
  enums_nodup := by
    show (src.enums.map fun i => src.cloneAddress mem (.enumSpecifier i)).Nodup
    rw [h.enum_addresses]
    exact List.nodup_range'
  enumerators_nodup := by
    rw [clonedTables_enumerators, h.enumerator_addresses]
    exact List.nodup_range'
  structs_nodup := by
    show (src.structs.map fun s => src.cloneAddress mem (.struct s)).Nodup
    rw [h.struct_addresses]
    exact List.nodup_range'
  typedefs_nodup := by
    rw [clonedTables_typedefs, h.typedef_addresses]
    exact List.nodup_range'
  list_type l hl p hp := by
    obtain ⟨l', hl', rfl⟩ := List.mem_map.mp hl
    obtain ⟨t, ht, rfl⟩ := List.mem_map.mp hp
    rw [cloned_typedef (List.mem_flatMap.mpr ⟨l', hl', ht⟩)]
    exact congrArg (TypeSpec.rename (src.cloneAddress mem)) (h.list_type l' hl' t ht)
  list_object l hl o ho := by
    obtain ⟨l', hl', rfl⟩ := List.mem_map.mp hl
    exact rename_object_lists (h.list_object l' hl') ho
  member_object p hp list hlist sd hsd o ho := by
    obtain ⟨s, hs, rfl⟩ := List.mem_map.mp hp
    rw [cloned_struct hs] at hlist
    obtain ⟨list', hlist', rfl⟩ := Option.map_eq_some_iff.mp hlist
    obtain ⟨sd', hsd', rfl⟩ := List.mem_map.mp hsd
    exact rename_object_lists (h.member_object s hs list' hlist' sd' hsd') ho

/-- The first object of a list that has the name. -/
theorem find_named {l : List ℕ} {name : ℕ → String} {v : ℕ → ℕ} (n : String) :
    ((l.map fun i => (name i, v i)).find? fun e => e.1 = n).map Prod.snd =
      (l.find? fun i => name i = n).map v := by
  rw [List.find?_map, Option.map_map]
  rfl

theorem ParseTables.Sound.isClone (h : src.Sound mem) :
    IsClone mem (clonedMemory mem src) src (clonedTables mem src) (src.cloneAddress mem) where
  sound := h.cloned
  apart o _ := cloneAddress_ge o
  kept_enum i hi := Arena.allocs_get_old _ hi
  kept_enumerator e he := Arena.allocs_get_old _ he
  kept_struct s hs := kept_of_update (fun s _ => @cloneAddress_ge mem src (.struct s)) hs
  kept_typedef t ht := kept_of_update (fun t _ => @cloneAddress_ge mem src (.typedef t)) ht
  enums := rfl
  structs := rfl
  typedef_lists := rfl
  enum_get i hi := cloned_enum hi
  enumerator_get e he := cloned_enumerator he
  struct_get s hs := cloned_struct hs
  typedef_get t ht := cloned_typedef ht
  htEnums n hn := by
    show stores (fun _ => none) _ n = _
    rw [stores_apply, Option.none_or, find_tagEntries hn]
  htStructs n hn := by
    show stores (fun _ => none) _ n = _
    rw [stores_apply, Option.none_or, find_tagEntries hn]
    rfl
  htTypedefs n := by
    show stores (fun _ => none) _ n = _
    rw [stores_apply, Option.none_or, find_named]
    rfl
  htEnumerators n := by
    show stores (fun _ => none) _ n = _
    rw [stores_apply, Option.none_or, find_named]
    rfl

end Clone
end ConvertBinaryC
