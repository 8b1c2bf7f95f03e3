import ConvertBinaryC.CTLibCloneParse

/-! A parse database can be cloned after every run of the parser. The clone finds tags and typedefs as
its source does, while an enumerator may be found in another enum. -/
namespace ConvertBinaryC
open ArenaRules

section Invariant
variable {st st' : ParserState}

/-- What clones depend on, while the parser runs. -/
structure Clonable (st : ParserState) : Prop where
  linked : Linked st
  apart : st.view.Apart
  tabled : Tabled st
  types : ∀ spec ∈ st.types, st.Knows spec

theorem Advance.knows (h : Advance st st') (htypes : ∀ spec ∈ st.types, st.Knows spec) :
    ∀ spec ∈ st'.types, st'.Knows spec := by
  intro spec hspec
  rcases h.types spec hspec with hold | hnew
  · exact h.effect.knows (htypes spec hold)
  · exact hnew

theorem parserStep_of_sourced {step : ParserStep} (h : sourcedStep st step = some st') :
    parserStep st step = some st' := by
  unfold sourcedStep at h
  split_ifs at h
  exact h

theorem Clonable.step (hc : Clonable st) {step : ParserStep} (h : sourcedStep st step = some st') :
    Clonable st' := by
  have hstep := parserStep_of_sourced h
  have hadvance := sourcedStep_advance hc.linked h
  constructor
  · exact hc.linked.step hstep
  · exact hc.apart.step (parserStep_step hc.linked hstep)
  · exact (hc.tabled.effect hc.types hadvance.effect).of_core
  · exact hadvance.knows hc.types

theorem initial_tabled : Tabled .initial where
  members := by simp [ParserState.initial]
  lists := by simp [ParserState.initial]
  typedefs := rfl
  list_type := by simp [ParserState.initial]
  htEnums _ _ := rfl
  htStructs _ _ := rfl
  htTypedefs _ _ := rfl
  htEnumerators := by simp [ParserState.initial]

theorem initial_clonable : Clonable .initial where
  linked := initial_linked
  apart := initial_inv.apart
  tabled := initial_tabled
  types := by simp [ParserState.types, ParserState.initial]

end Invariant

section Database
variable (st : ParserState)

/-- The objects of the parse, with those that are not in the lists yet. -/
def ParserState.memory : TypeMemory where
  enumerators := ⟨st.enumeratorAt, st.enumeratorCount⟩
  enums := ⟨fun i => (st.enums[i]?).getD ⟨enumspecNew "" ⟨"", 0⟩, []⟩, st.enums.length⟩
  structs := ⟨st.heap.structAt, st.structs.length⟩
  typedefs := ⟨st.typedefAt, st.typedefCount⟩

/-- The `CParseInfo` of the parse. -/
def ParserState.tables : ParseTables where
  enums := List.range st.enums.length
  structs := List.range st.structs.length
  typedef_lists := st.typedef_lists
  htEnumerators := st.htEnumerators
  htEnums := st.htEnums
  htStructs := st.htStructs
  htTypedefs := st.htTypedefs

/-- Does the table of enumerators find, for each of its names, the first enumerator that the listed
enums have under the name? -/
def ParserState.FindsFirst : Prop :=
  ∀ n e, st.htEnumerators n = some e →
    (ownedEnumerators st.enums).find? (fun e => (st.enumeratorAt e).identifier = n) = some e

end Database

section Sound
variable {st : ParserState}

theorem memory_enums_get {i : ℕ} (hi : i < st.enums.length) : st.memory.enums.get i = st.enums[i] := by
  show (st.enums[i]?).getD _ = _
  rw [List.getElem?_eq_getElem hi, Option.getD_some]

theorem memory_structs_get {s : ℕ} (hs : s < st.structs.length) :
    st.memory.structs.get s = st.structs[s] := by
  show (st.structs[s]?).getD _ = _
  rw [List.getElem?_eq_getElem hs, Option.getD_some]

theorem range_flatMap {α : Type} {l : List EnumObject} {get : ℕ → EnumObject} {f : EnumObject → List α}
    (hget : ∀ i (hi : i < l.length), get i = l[i]) :
    (List.range l.length).flatMap (fun i => f (get i)) = l.flatMap f := by
  have hmap : (List.range l.length).map get = l := by
    apply List.ext_getElem
    · rw [List.length_map, List.length_range]
    · intro i hi hi'
      rw [List.getElem_map, List.getElem_range, hget i hi']
  calc (List.range l.length).flatMap (fun i => f (get i))
    _ = ((List.range l.length).map get).flatMap f := (List.flatMap_map ..).symm
    _ = l.flatMap f := by rw [hmap]

theorem tables_enumerators : st.tables.enumerators st.memory = ownedEnumerators st.enums :=
  range_flatMap fun _ hi => memory_enums_get hi

theorem Tabled.tables_typedefs (h : Tabled st) : st.tables.typedefs = List.range st.typedefCount :=
  h.typedefs

theorem Clonable.owned_lt (h : Clonable st) {e : ℕ} (he : e ∈ ownedEnumerators st.enums) :
    e < st.enumeratorCount :=
  h.apart.made e (Multiset.mem_add.mpr (Or.inl (Multiset.mem_coe.mpr he)))

theorem Clonable.owned_nodup (h : Clonable st) : (ownedEnumerators st.enums).Nodup :=
  Multiset.coe_nodup.mp (Multiset.nodup_add.mp h.apart.nodup).1

/-- A type that is known points to an object of the lists. -/
theorem Tabled.lists_of_knows (h : Tabled st) {spec : TypeSpec} (hknows : st.Knows spec)
    {o : ParserObject} (ho : spec.object = some o) : st.tables.Lists st.memory o := by
  cases spec with
  | basic tflags => exact absurd ho.symm (Option.some_ne_none o)
  | enum pES =>
    cases ho
    exact List.mem_range.mpr hknows
  | compound kind pStruct =>
    cases ho
    exact List.mem_range.mpr hknows
  | typedef t =>
    cases ho
    show t ∈ st.tables.typedefs
    rw [h.tables_typedefs]
    exact List.mem_range.mpr hknows

theorem Clonable.sound (h : Clonable st) : st.tables.Sound st.memory where
  made o ho := by
    cases o with
    | enumerator e =>
      rw [ParseTables.Lists, tables_enumerators] at ho
      exact h.owned_lt ho
    | enumSpecifier i => exact List.mem_range.mp ho
    | struct s => exact List.mem_range.mp ho
    | typedef t =>
      rw [ParseTables.Lists, h.tabled.tables_typedefs] at ho
      exact List.mem_range.mp ho
  enums_nodup := List.nodup_range
  enumerators_nodup := by
    rw [tables_enumerators]
    exact h.owned_nodup
  structs_nodup := List.nodup_range
  typedefs_nodup := by
    rw [h.tabled.tables_typedefs]
    exact List.nodup_range
  list_type := h.tabled.list_type
  list_object l hl o ho := h.tabled.lists_of_knows (h.tabled.lists l hl) ho
  member_object s hs list hlist sd hsd o ho := by
    have hlt : s < st.structs.length := List.mem_range.mp hs
    rw [memory_structs_get hlt] at hlist
    have hknows := h.tabled.members _ (List.getElem_mem hlt) list hlist sd hsd
    exact h.tabled.lists_of_knows hknows ho

/-- An enumerator that the lists have is in the table, perhaps as another one of the same name. -/
theorem Clonable.find_none (h : Clonable st) (n : String) (hnone : st.htEnumerators n = none) :
    (ownedEnumerators st.enums).find? (fun e => (st.enumeratorAt e).identifier = n) = none := by
  rw [List.find?_eq_none]
  intro e he hname
  apply h.tabled.htEnumerators e (h.owned_lt he)
  rw [of_decide_eq_true hname]
  exact hnone

end Sound

section Lookup
variable {st : ParserState} {mem' : TypeMemory} {dest : ParseTables} {ρ : ParserObject → ℕ}

theorem memory_enum_name (i : ℕ) : (st.memory.enums.get i).spec.identifier = st.enumName i := by
  show ((st.enums[i]?).getD _).spec.identifier = _
  rw [ParserState.enumName]
  cases st.enums[i]? with
  | none => rfl
  | some d => rfl

theorem memory_struct_name (s : ℕ) : (st.memory.structs.get s).identifier = st.structName s := by
  show ((st.structs[s]?).getD _).identifier = _
  rw [ParserState.structName]
  cases st.structs[s]? with
  | none => rfl
  | some s => rfl

variable (h : Clonable st) (hclone : IsClone st.memory mem' st.tables dest ρ)
include h hclone

theorem clone_htEnums {n : String} (hn : n ≠ "") :
    dest.htEnums n = (st.htEnums n).map fun i => ρ (.enumSpecifier i) := by
  rw [hclone.htEnums n hn, h.tabled.htEnums n hn]
  simp only [memory_enum_name]
  rfl

theorem clone_htStructs {n : String} (hn : n ≠ "") :
    dest.htStructs n = (st.htStructs n).map fun s => ρ (.struct s) := by
  rw [hclone.htStructs n hn, h.tabled.htStructs n hn]
  simp only [memory_struct_name]
  rfl

theorem clone_htTypedefs {n : String} (hn : n ≠ "") :
    dest.htTypedefs n = (st.htTypedefs n).map fun t => ρ (.typedef t) := by
  rw [hclone.htTypedefs n, h.tabled.htTypedefs n hn, h.tabled.tables_typedefs]
  rfl

theorem clone_htEnumerators_iff (hρ : ∀ e e', e ∈ ownedEnumerators st.enums →
      ρ (.enumerator e) = ρ (.enumerator e') → e = e') :
    (∀ n, dest.htEnumerators n = (st.htEnumerators n).map fun e => ρ (.enumerator e)) ↔
      st.FindsFirst := by
  have hfound (n : String) : dest.htEnumerators n = ((ownedEnumerators st.enums).find?
      fun e => (st.enumeratorAt e).identifier = n).map fun e => ρ (.enumerator e) := by
    rw [hclone.htEnumerators n, tables_enumerators]
    rfl
  constructor
  · intro hsame n e he
    have heq : ((ownedEnumerators st.enums).find? fun e => (st.enumeratorAt e).identifier = n).map
        (fun e => ρ (.enumerator e)) = some (ρ (.enumerator e)) := by
      rw [← hfound, hsame, he, Option.map_some]
    obtain ⟨e', hfind, hrename⟩ := Option.map_eq_some_iff.mp heq
    rw [hfind, hρ e' e (List.mem_of_find?_eq_some hfind) hrename]
  · intro hfirst n
    rw [hfound]
    cases hn : st.htEnumerators n with
    | none => rw [h.find_none n hn]
    | some e => rw [hfirst n e hn]

end Lookup

theorem cloneAddress_enumerator {st : ParserState} {e e' : ℕ} (he : e ∈ ownedEnumerators st.enums)
    (heq : st.tables.cloneAddress st.memory (.enumerator e) =
      st.tables.cloneAddress st.memory (.enumerator e')) : e = e' := by
  rw [← tables_enumerators] at he
  have hidx : (st.tables.enumerators st.memory).idxOf e =
      (st.tables.enumerators st.memory).idxOf e' := Nat.add_left_cancel heq
  exact (List.idxOf_inj he).mp hidx

/-- After `enum e { A }; enum e { B };` the deleted `B` is still found, and no listed enum has it. -/
example : ∃ st, RunRules.run sourcedStep .initial (enumDefinitionSteps "e" "A" ++
    enumDefinitionSteps "e" "B" ++ [.other 2 .other, .accept]) = some st ∧ ¬st.FindsFirst :=
  ⟨_, rfl, fun h => absurd (h "B" 1 rfl) (by decide)⟩

/-- The clone of a database finds the clones of what the database finds, except for enumerators of
names that another enum has first. -/
theorem clone_after_parse (steps : List ParserStep) (st : ParserState)
    (hrun : RunRules.run sourcedStep .initial steps = some st) :
    ∃ mem' dest, cloneParseInfo st.memory st.tables = .ok (mem', dest) ∧
      IsClone st.memory mem' st.tables dest (st.tables.cloneAddress st.memory) ∧
      (∀ n, n ≠ "" →
        dest.htEnums n =
          (st.htEnums n).map (fun i => st.tables.cloneAddress st.memory (.enumSpecifier i)) ∧
        dest.htStructs n =
          (st.htStructs n).map (fun s => st.tables.cloneAddress st.memory (.struct s)) ∧
        dest.htTypedefs n =
          (st.htTypedefs n).map (fun t => st.tables.cloneAddress st.memory (.typedef t))) ∧
      ((∀ n, dest.htEnumerators n =
          (st.htEnumerators n).map fun e => st.tables.cloneAddress st.memory (.enumerator e)) ↔
        st.FindsFirst) := by
  have hc : Clonable st :=
    RunRules.run_invariant (fun _ _ _ hs h => hs.step h) initial_clonable hrun
  have hclone := hc.sound.isClone
  refine ⟨_, _, hc.sound.cloneParseInfo_eq, hclone, ?_, ?_⟩
  · intro n hn
    exact ⟨clone_htEnums hc hclone hn, clone_htStructs hc hclone hn, clone_htTypedefs hc hclone hn⟩
  · exact clone_htEnumerators_iff hc hclone fun _ _ => cloneAddress_enumerator

/-- The steps for `struct s { enum e { A } x; };`. -/
def enumMemberSteps : List ParserStep :=
  structDefinitionSteps "s" ((enumDefinitionSteps "e" "A").take 12) (.enum 0)

/-- The clone of each object is the object after it, and the member of the clone is of the clone
of the enum. -/
theorem clone_after_parse_enumMember :
    ∃ st, RunRules.run sourcedStep .initial enumMemberSteps = some st ∧
      ∃ mem' dest, cloneParseInfo st.memory st.tables = .ok (mem', dest) ∧
        dest.htEnums "e" = some 1 ∧ dest.htStructs "s" = some 1 ∧
        (mem'.structs.get 1).declarations = some [⟨.enum 1, some [declNew "x"], 0, 0⟩] := by
  obtain ⟨mem', dest, hrun, hclone, htags, _⟩ := clone_after_parse enumMemberSteps _ rfl
  have hstruct := hclone.struct_get 0 List.mem_cons_self
  refine ⟨_, rfl, mem', dest, hrun, (htags "e" (by decide)).1, (htags "s" (by decide)).2.1, ?_⟩
  exact congrArg Struct.declarations hstruct

end ConvertBinaryC
