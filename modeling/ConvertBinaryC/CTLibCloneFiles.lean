import ConvertBinaryC.CTLibFileContexts

/-! `clone_parse_info` with the files: the infos are copied with their table, and the pointers of
the contexts are replaced. -/
namespace ConvertBinaryC
open ArenaRules

/-- The file infos in the order of the table. -/
def FileTables.infoList (f : FileTables) : List ℕ := f.htFiles.table.nodes.filterMap HashNode.pObj

/-- Where `fileinfo_clone` puts the copies, which `HT_clone` asks for in the order of the table. -/
def FileTables.cloneInfo (f : FileTables) (p : ℕ) : ℕ := f.infos.count + f.infoList.idxOf p

/-- The files of a clone, with the pointers that the table of pointers gets for them. -/
structure FileClone where
  infos : Arena FileInfo
  htFiles : HashTable ℕ
  ptrmap : ℕ → Option ℕ

/-- What two iterators find that go through a table and its clone side by side. -/
def filePairs (src dst : List (HashNode ℕ)) : List (ℕ × ℕ) :=
  (src.zip dst).filterMap fun n => n.1.pObj.bind fun pOld => n.2.pObj.map fun pNew => (pOld, pNew)

/-- `HT_clone` of the files with `fileinfo_clone`, and the loop that stores the pointers. -/
def FileTables.clone (f : FileTables) : Call FileClone :=
  match f.htFiles.table.clone f.htFiles.fresh (some (Option.map f.cloneInfo)) with
  | none => .error .undefinedBehaviour
  | some htFiles => .ok
    { infos := f.infos.allocs (f.infoList.map f.infos.get)
      htFiles := htFiles
      ptrmap := stores (fun _ => none) (filePairs f.htFiles.table.nodes htFiles.nodes) }

/-- `REMAP_PTR`, for `context.pFI`. -/
def remapFile (ptrmap : ℕ → Option ℕ) (target : String) : Option ℕ → Call (Option ℕ)
  | none => .ok none
  | some pFI =>
    match ptrmap pFI with
    | some ptr => .ok (some ptr)
    | none => .error (ptrNotFound target)

/-- A loop over clones, which have the contexts of their sources until then. -/
def remapContexts (ptrmap : ℕ → Option ℕ) (target : String) (clones : List (ℕ × ℕ))
    (pFI : ℕ → Option ℕ) : Call (ℕ → Option ℕ) :=
  clones.foldlM (fun pFI clone => do
    let ptr ← remapFile ptrmap target (pFI clone.1)
    .ok (Function.update pFI clone.2 ptr)) pFI

/-- A database with its files. -/
structure Database where
  mem : TypeMemory
  tables : ParseTables
  infos : Arena FileInfo
  htFiles : HashTable ℕ
  enumFI : ℕ → Option ℕ
  structFI : ℕ → Option ℕ

/-- `clone_parse_info` with the files. -/
def FileParse.clone (s : FileParse) : Call Database := do
  let files ← s.files.clone
  let (mem, tables) ← cloneParseInfo s.parser.memory s.parser.tables
  let enumFI ← remapContexts files.ptrmap "pES->context.pFI"
    (s.parser.tables.enums.zip tables.enums) s.enumFI
  let structFI ← remapContexts files.ptrmap "pStruct->context.pFI"
    (s.parser.tables.structs.zip tables.structs) s.structFI
  .ok ⟨mem, tables, files.infos, files.htFiles, enumFI, structFI⟩

section Files
variable {f : FileTables} {m : HashMap ℕ}

/-- The nodes of a clone are the copies, in the same order. -/
theorem clone_nodes {V : Type} {t t' : HashTable V} {fresh : ℕ}
    {func : Option (Option V → Option V)} (hempty : ¬ t.count > 0 → t.nodes = [])
    (h : t.clone fresh func = some t') : t'.nodes = t.nodes.map fun n => n.copy fresh func := by
  obtain ⟨new, hnew, rfl⟩ := Option.map_eq_some_iff.mp h
  unfold HashTable.new at hnew
  split_ifs at hnew with hsize
  cases hnew
  split_ifs with hcount
  · show (List.range (2 ^ t.size)).flatMap _ = ((List.range (2 ^ t.size)).flatMap t.root).map _
    rw [List.map_flatMap]
    apply List.flatMap_congr
    intro b hb
    exact if_pos (List.mem_range.mp hb)
  · rw [hempty hcount]
    show (List.range (2 ^ t.size)).flatMap (fun _ => []) = []
    simp

theorem FileTables.Sound.nodes_nil (h : f.Sound m) (hcount : ¬ f.htFiles.table.count > 0) :
    f.htFiles.table.nodes = [] := by
  have hnonneg := h.represents.table.count_nonneg
  have hmap := h.represents.table.empty (by omega)
  rw [List.eq_nil_iff_forall_not_mem]
  intro n hn
  have hmem := (h.represents.table.mem_iff n.key).mpr ⟨n, hn, rfl⟩
  rw [hmap] at hmem
  exact Finmap.notMem_empty hmem

theorem FileTables.Sound.mem_infoList (h : f.Sound m) {p : ℕ} : p ∈ f.infoList ↔ Listed m p := by
  unfold FileTables.infoList
  rw [List.mem_filterMap]
  constructor
  · rintro ⟨n, hn, hp⟩
    exact ⟨n.key, (h.represents.table.lookup n.key _).mpr ⟨n, hn, rfl, hp⟩⟩
  · rintro ⟨name, hname⟩
    obtain ⟨n, hn, _, hp⟩ := (h.represents.table.lookup name _).mp hname
    exact ⟨n, hn, hp⟩

/-- The two iterators meet each info and its copy. -/
theorem filePairs_copy (nodes : List (HashNode ℕ)) (fresh : ℕ) (g : ℕ → ℕ) :
    filePairs nodes (nodes.map fun n => n.copy fresh (some (Option.map g))) =
      (nodes.filterMap HashNode.pObj).map fun p => (p, g p) := by
  unfold filePairs
  rw [← List.map_prod_left_eq_zip, List.filterMap_map, List.map_filterMap]
  apply List.filterMap_congr
  intro n _
  show (n.pObj.bind fun pOld => (n.pObj.map g).map fun pNew => (pOld, pNew)) = _
  cases n.pObj <;> rfl

/-- The files of the clone. -/
structure FilesCloned (f : FileTables) (m : HashMap ℕ) (files : FileClone) : Prop where
  get : ∀ name : List UInt8, files.htFiles.get name name.length 0 = (f.get name).map f.cloneInfo
  info : ∀ p, Listed m p → files.infos.get (f.cloneInfo p) = f.infos.get p
  kept : ∀ p < f.infos.count, files.infos.get p = f.infos.get p
  ptrmap : ∀ p, Listed m p → files.ptrmap p = some (f.cloneInfo p)

theorem FileTables.Sound.clone (h : f.Sound m) :
    ∃ files, f.clone = .ok files ∧ FilesCloned f m files := by
  obtain ⟨r, s', m', hstep, ⟨_, t, mc, rfl, hlookup, hclone⟩, _⟩ :=
    h.represents.clone (some (Option.map f.cloneInfo))
  have htable : f.htFiles.table.clone f.htFiles.fresh (some (Option.map f.cloneInfo)) = some t :=
    HashResult.table.inj (Prod.mk.inj (Except.ok.inj hstep)).1
  have hpairs : filePairs f.htFiles.table.nodes t.nodes =
      f.infoList.map fun p => (p, f.cloneInfo p) := by
    rw [clone_nodes h.nodes_nil htable]
    exact filePairs_copy _ _ _
  refine ⟨⟨f.infos.allocs (f.infoList.map f.infos.get), t,
    stores (fun _ => none) (filePairs f.htFiles.table.nodes t.nodes)⟩, ?_, ?_⟩
  · unfold FileTables.clone
    rw [htable]
  constructor
  · intro name
    have hhonest : (hashArgs name name.length 0).1 = hashData (hashArgs name name.length 0).2 := by
      rw [hashArgs_name]
    have hget := hclone.get_eq hhonest
    rw [hashArgs_name, hlookup] at hget
    rw [h.get_eq]
    refine hget.trans ?_
    cases m.lookup name <;> rfl
  · intro p hp
    exact Arena.allocs_get_idxOf f.infos.get (h.mem_infoList.mpr hp)
  · intro p hp
    exact Arena.allocs_get_old _ hp
  · intro p hp
    show stores _ (filePairs f.htFiles.table.nodes t.nodes) p = _
    rw [hpairs]
    have hinj : ∀ q ∈ f.infoList, q = p → q = p := fun _ _ hq => hq
    exact stores_of_mem (h.mem_infoList.mpr hp) hinj rfl

theorem remapFile_eq {ptrmap : ℕ → Option ℕ} {target : String} {g : ℕ → ℕ}
    (hmap : ∀ p, Listed m p → ptrmap p = some (g p)) {pFI : Option ℕ}
    (hpFI : ∀ p, pFI = some p → Listed m p) : remapFile ptrmap target pFI = .ok (pFI.map g) := by
  cases pFI with
  | none => rfl
  | some p =>
    have hp := hmap p (hpFI p rfl)
    unfold remapFile
    dsimp only
    rw [hp]
    rfl

/-- The loop gives each clone the copy of the pointer of its source. -/
theorem remapContexts_eq {ptrmap : ℕ → Option ℕ} {target : String} {g : ℕ → ℕ}
    (hmap : ∀ p, Listed m p → ptrmap p = some (g p)) {ρ : ℕ → ℕ} {n : ℕ} {l : List ℕ}
    (hsource : ∀ a ∈ l, a < n) (hclone : ∀ a ∈ l, n ≤ ρ a) (hnodup : (l.map ρ).Nodup)
    {pFI : ℕ → Option ℕ} (hpFI : ∀ a < n, ∀ p, pFI a = some p → Listed m p) :
    ∃ pFI', remapContexts ptrmap target (l.zip (l.map ρ)) pFI = .ok pFI' ∧
      (∀ a ∈ l, pFI' (ρ a) = (pFI a).map g) ∧ ∀ b ∉ l.map ρ, pFI' b = pFI b := by
  induction l generalizing pFI with
  | nil =>
    refine ⟨pFI, rfl, ?_, fun _ _ => rfl⟩
    intro a ha
    exact absurd ha List.not_mem_nil
  | cons a l ih =>
    obtain ⟨hnew, hnodup⟩ := List.nodup_cons.mp hnodup
    have ha : a < n := hsource a List.mem_cons_self
    have hbelow (b : ℕ) (hb : b < n) :
        Function.update pFI (ρ a) ((pFI a).map g) b = pFI b := by
      apply Function.update_of_ne
      have hcopy := hclone a List.mem_cons_self
      omega
    obtain ⟨pFI', hrun, hclones, hrest⟩ := @ih
      (fun b hb => hsource b (List.mem_cons_of_mem a hb))
      (fun b hb => hclone b (List.mem_cons_of_mem a hb)) hnodup
      (Function.update pFI (ρ a) ((pFI a).map g))
      (fun b hb p hp => hpFI b hb p ((hbelow b hb).symm.trans hp))
    refine ⟨pFI', ?_, ?_, ?_⟩
    · have hfirst := @remapFile_eq _ _ target _ hmap _ (hpFI a ha)
      unfold remapContexts at hrun ⊢
      rw [List.map_cons, List.zip_cons_cons, List.foldlM_cons, hfirst]
      exact hrun
    · intro b hb
      rcases List.mem_cons.mp hb with rfl | hb
      · rw [hrest (ρ b) hnew, Function.update_self]
      · rw [hclones b hb, hbelow b (hsource b (List.mem_cons_of_mem a hb))]
    · intro b hb
      rw [List.map_cons, List.mem_cons, not_or] at hb
      rw [hrest b hb.2, Function.update_of_ne hb.1]

end Files

section Database
variable {s : FileParse} {m : HashMap ℕ}

/-- The pointer of each context is to the info that the table has for the context's file. -/
structure FileParse.FindsFiles (s : FileParse) : Prop where
  enums : ∀ i d, s.parser.enums[i]? = some d → ∃ name p, s.enumFI i = some p ∧
    s.files.get name = some p ∧ fileText name = d.spec.context.file
  structs : ∀ i c, s.parser.structs[i]? = some c → ∃ name p, s.structFI i = some p ∧
    s.files.get name = some p ∧ fileText name = c.context.file

/-- A clone of a database: the type objects and the file infos are copied to other addresses, every
pointer is to the copy, and what the tables of tags, typedefs and files find is copied. -/
structure IsDatabaseClone (s : FileParse) (dest : Database) (ρ : ParserObject → ℕ) (g : ℕ → ℕ) :
    Prop where
  types : IsClone s.parser.memory dest.mem s.parser.tables dest.tables ρ
  tags : ∀ n, n ≠ "" →
    dest.tables.htEnums n = (s.parser.htEnums n).map (fun i => ρ (.enumSpecifier i)) ∧
    dest.tables.htStructs n = (s.parser.htStructs n).map (fun i => ρ (.struct i)) ∧
    dest.tables.htTypedefs n = (s.parser.htTypedefs n).map (fun t => ρ (.typedef t))
  files : ∀ name : List UInt8, dest.htFiles.get name name.length 0 = (s.files.get name).map g
  enumFI : ∀ i ∈ s.parser.tables.enums, dest.enumFI (ρ (.enumSpecifier i)) = (s.enumFI i).map g
  structFI : ∀ i ∈ s.parser.tables.structs, dest.structFI (ρ (.struct i)) = (s.structFI i).map g
  info : ∀ name p, s.files.get name = some p →
    s.files.infos.count ≤ g p ∧ dest.infos.get (g p) = s.files.infos.get p
  info_inj : ∀ name name' p p', s.files.get name = some p → s.files.get name' = some p' →
    g p = g p' → p = p'
  kept_info : ∀ p < s.files.infos.count, dest.infos.get p = s.files.infos.get p
  kept_enumFI : ∀ i < s.parser.memory.enums.count, dest.enumFI i = s.enumFI i
  kept_structFI : ∀ i < s.parser.memory.structs.count, dest.structFI i = s.structFI i

theorem FileParse.Sound.finds_file (h : s.Sound m) {pFI : Option ℕ} {ctx : ContextInfo}
    (hpoints : PointsTo s.files.infos m pFI (some ctx)) :
    ∃ name p, pFI = some p ∧ s.files.get name = some p ∧ fileText name = ctx.file := by
  obtain ⟨p, hp, hname⟩ := hpoints.named ctx rfl
  refine ⟨(s.files.infos.get p).name, p, hp, ?_, hname⟩
  rw [h.files.get_eq, h.files.lookup_name (hpoints.listed p hp)]
  rfl

theorem FileParse.Sound.findsFiles (h : s.Sound m) : s.FindsFiles where
  enums i d hd := by
    have hpoints := h.enumFI i
    unfold ParserState.enumContext at hpoints
    rw [hd] at hpoints
    exact h.finds_file hpoints
  structs i c hc := by
    have hpoints := h.structFI i
    unfold ParserState.structContext at hpoints
    rw [hc] at hpoints
    exact h.finds_file hpoints

theorem FileParse.Sound.clone (h : s.Sound m) :
    ∃ dest, s.clone = .ok dest ∧ IsDatabaseClone s dest
        (s.parser.tables.cloneAddress s.parser.memory) s.files.cloneInfo ∧
      ((∀ n, dest.tables.htEnumerators n = (s.parser.htEnumerators n).map fun e =>
          s.parser.tables.cloneAddress s.parser.memory (.enumerator e)) ↔
        s.parser.FindsFirst) := by
  have hc := h.clonable
  have hclone := hc.sound.isClone
  obtain ⟨files, hfiles, hcopied⟩ := h.files.clone
  have henums : (s.parser.tables.enums.map fun i =>
      s.parser.tables.cloneAddress s.parser.memory (.enumSpecifier i)).Nodup := by
    rw [hc.sound.enum_addresses]
    exact List.nodup_range'
  have hstructs : (s.parser.tables.structs.map fun i =>
      s.parser.tables.cloneAddress s.parser.memory (.struct i)).Nodup := by
    rw [hc.sound.struct_addresses]
    exact List.nodup_range'
  obtain ⟨enumFI, hrunEnum, henumFI, hkeptEnum⟩ := @remapContexts_eq _ files.ptrmap
    "pES->context.pFI" _ hcopied.ptrmap _ _ _ (fun i hi => hc.sound.made (.enumSpecifier i) hi)
    (fun i hi => hclone.apart (.enumSpecifier i) hi) henums s.enumFI fun i _ => (h.enumFI i).listed
  obtain ⟨structFI, hrunStruct, hstructFI, hkeptStruct⟩ := @remapContexts_eq _ files.ptrmap
    "pStruct->context.pFI" _ hcopied.ptrmap _ _ _ (fun i hi => hc.sound.made (.struct i) hi)
    (fun i hi => hclone.apart (.struct i) hi) hstructs s.structFI fun i _ => (h.structFI i).listed
  have hrun : s.clone = .ok ⟨clonedMemory s.parser.memory s.parser.tables,
      clonedTables s.parser.memory s.parser.tables, files.infos, files.htFiles, enumFI,
      structFI⟩ := by
    -- the lists of the clone are the addresses of the copies, in the order of the source
    change remapContexts _ _ (List.zip _ (clonedTables _ _).enums) _ = _ at hrunEnum
    change remapContexts _ _ (List.zip _ (clonedTables _ _).structs) _ = _ at hrunStruct
    unfold FileParse.clone
    rw [hfiles, call_bind_apply, hc.sound.cloneParseInfo_eq, call_bind_apply]
    dsimp only
    rw [hrunEnum, call_bind_apply, hrunStruct, call_bind_apply]
  refine ⟨_, hrun, ?_, ?_⟩
  · have hlisted (name : List UInt8) (p : ℕ) (hp : s.files.get name = some p) : Listed m p :=
      h.files.listed_of_get hp
    constructor
    · exact hclone
    · intro n hn
      exact ⟨clone_htEnums hc hclone hn, clone_htStructs hc hclone hn,
        clone_htTypedefs hc hclone hn⟩
    · exact hcopied.get
    · exact henumFI
    · exact hstructFI
    · intro name p hp
      exact ⟨Nat.le_add_right _ _, hcopied.info p (hlisted name p hp)⟩
    · intro name name' p p' hp _ heq
      have hmem := h.files.mem_infoList.mpr (hlisted name p hp)
      exact (List.idxOf_inj hmem).mp (Nat.add_left_cancel heq)
    · exact hcopied.kept
    · intro i hi
      apply hkeptEnum
      intro hmem
      obtain ⟨j, hj, rfl⟩ := List.mem_map.mp hmem
      exact absurd hi (Nat.not_lt.mpr (hclone.apart (.enumSpecifier j) hj))
    · intro i hi
      apply hkeptStruct
      intro hmem
      obtain ⟨j, hj, rfl⟩ := List.mem_map.mp hmem
      exact absurd hi (Nat.not_lt.mpr (hclone.apart (.struct j) hj))
  · exact clone_htEnumerators_iff hc hclone fun _ _ => cloneAddress_enumerator

end Database

/-- After every sequence of parses the database can be cloned. The clone holds copies of all objects
and pointers to the copies, and it finds the copies of the tags, typedefs and files that its source
finds; it finds the copies of the enumerators exactly when the source finds, under each name, the
first one that its enums have. -/
theorem clone_copies_database (steps : List FileStep) (s : FileParse)
    (hrun : RunRules.run fileStep .initial steps = some s) :
    s.FindsFiles ∧ ∃ dest, s.clone = .ok dest ∧ IsDatabaseClone s dest
        (s.parser.tables.cloneAddress s.parser.memory) s.files.cloneInfo ∧
      ((∀ n, dest.tables.htEnumerators n = (s.parser.htEnumerators n).map fun e =>
          s.parser.tables.cloneAddress s.parser.memory (.enumerator e)) ↔
        s.parser.FindsFirst) := by
  obtain ⟨m, hsound⟩ := FileParse.sound_of_run hrun
  exact ⟨hsound.findsFiles, hsound.clone⟩

/-- A step with its context in another file. -/
def ParserStep.inFile (file : String) : ParserStep → ParserStep
  | .other n (.enumKeyContext ctx) => .other n (.enumKeyContext { ctx with file := file })
  | .other n (.aggregateKeyContext kind ctx) =>
    .other n (.aggregateKeyContext kind { ctx with file := file })
  | step => step

/-- The steps for `struct s { enum e { A } x; };` in a string. -/
def bufferSteps : List FileStep :=
  .context bufferName none :: enumMemberSteps.map fun step => .parser (step.inFile "[buffer]")

theorem clone_copies_database_buffer :
    ∃ s, RunRules.run fileStep .initial bufferSteps = some s ∧ s.enumFI 0 = some 0 ∧
      s.files.get bufferName = some 0 ∧ ∃ dest, s.clone = .ok dest ∧ dest.enumFI 1 = some 1 ∧
        dest.structFI 1 = some 1 ∧ dest.htFiles.get bufferName bufferName.length 0 = some 1 ∧
        dest.infos.get 1 = ⟨false, ⟨0, 0, 0, 0⟩, bufferName⟩ := by
  obtain ⟨_, dest, hclone, hdatabase, _⟩ := clone_copies_database bufferSteps _ rfl
  have hfound := hdatabase.files bufferName
  have hinfo := (hdatabase.info bufferName 0 rfl).2
  exact ⟨_, rfl, rfl, rfl, dest, hclone, hdatabase.enumFI 0 List.mem_cons_self,
    hdatabase.structFI 0 List.mem_cons_self, hfound, hinfo⟩

/-- The steps for `enum TAG { NAME = VALUE };`. -/
def enumValueSteps (tag name : String) (value : ℤ) : List ParserStep :=
  [.shift (.token "enum"), .other 1 (.enumKeyContext ⟨"[buffer]", 1⟩),
    .shift (.identifier (some tag)), .other 1 (.name (some tag)), .shift (.token "\x7b"),
    .shift (.identifier (some name)), .other 1 (.name (some name)), .shift (.token "="),
    .shift (.token "CONSTANT"), .other 1 (.constant ⟨value, false, false⟩),
    .reduce .enumeratorWithValue, .reduce .enumeratorList, .other 0 .other, .shift (.token "\x7d"),
    .reduce .enumNameDefinition, .shift (.token ";"), .other 2 .other]

/-- The steps for `enum late; enum early { A = 1 }; enum late { A = 2 };`. -/
def lateEnumSteps : List ParserStep :=
  [.shift (.token "enum"), .other 1 (.enumKeyContext ⟨"[buffer]", 1⟩),
    .shift (.identifier (some "late")), .other 1 (.name (some "late")), .reduce .enumNameReference,
    .shift (.token ";"), .other 2 .other] ++ enumValueSteps "early" "A" 1 ++ [.other 2 .other] ++
  enumValueSteps "late" "A" 2 ++ [.other 2 .other, .accept]

/-- The source finds the `A` of `early`, and the clone that of `late`, which comes first in the
list. -/
theorem late_enum_found_first :
    ∃ s dest, RunRules.run fileStep .initial
        (.context bufferName none :: lateEnumSteps.map FileStep.parser) = some s ∧
      s.clone = .ok dest ∧
      s.parser.htEnumerators "A" = some 0 ∧ (s.parser.enumeratorAt 0).value.iv = 1 ∧
      s.parser.tables.cloneAddress s.parser.memory (.enumerator 0) = 3 ∧
      dest.tables.htEnumerators "A" = some 2 ∧ (dest.mem.enumerators.get 2).value.iv = 2 := by
  obtain ⟨m, hsound⟩ := FileParse.sound_of_run (show RunRules.run fileStep .initial
    (.context bufferName none :: lateEnumSteps.map FileStep.parser) = some _ from rfl)
  obtain ⟨dest, hclone, hdatabase, _⟩ := hsound.clone
  have hfirst := hdatabase.types.htEnumerators "A"
  have hvalue := hdatabase.types.enumerator_get 1 List.mem_cons_self
  exact ⟨_, dest, rfl, hclone, rfl, rfl, rfl, hfirst, congrArg (fun e => e.value.iv) hvalue⟩

end ConvertBinaryC
