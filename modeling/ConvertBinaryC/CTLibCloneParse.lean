import ConvertBinaryC.CTLibCloneSound

/-! The databases that the parser builds can be cloned. What a step does to the lists and tables is
said once, and the invariants follow from that. -/
namespace ConvertBinaryC
open ArenaRules

/-- The type specifiers that a semantic value holds. -/
def Symbol.types : Symbol → List TypeSpec
  | .typeName t => [.typedef t]
  | .typeSpec _ (some spec) => [spec]
  | .memberDeclarations (some list) => list.map StructDeclaration.type
  | _ => []

def ParserState.types (st : ParserState) : List TypeSpec := st.stack.flatMap Symbol.types

/-- The lexer gives typedefs that were made, a production that touches no table takes its types from
the values on the stack, and a list of declarators is finished before the next one starts. -/
def ParserState.sources (st : ParserState) : ParserStep → Bool
  | .shift tok => tok.types.all fun spec => match spec with
      | .typedef t => t < st.typedefCount
      | _ => false
  | .other n value => value.types.all fun spec => match spec with
      | .basic _ => true
      | _ => (st.stack.take n).any fun s => spec ∈ s.types
  | .reduce .declaringListMore => match st.stack with
      | .other :: .other :: .declarator _ :: .token _ :: .declaringList (some l) :: _ =>
        l + 1 = st.typedef_lists.length
      | _ => true
  | _ => true

def sourcedStep (st : ParserState) (step : ParserStep) : Option ParserState :=
  if st.sources step then parserStep st step else none

/-- Is the specifier basic, or does it point to an object of the lists? -/
def ParserState.Knows (st : ParserState) : TypeSpec → Prop
  | .basic _ => True
  | .enum pES => pES < st.enums.length
  | .compound _ pStruct => pStruct < st.structs.length
  | .typedef pTypedef => pTypedef < st.typedefCount

/-- The lists and tables of a state, without what the automaton needs. -/
def ParserState.core (st : ParserState) : ParserState :=
  { st with freed := fun _ => false, pack := 0, isLocal := false, stack := [], returned := false }

/-- What one step can do to the lists and tables. Members come from the stack. -/
inductive TableEffect (st : ParserState) : ParserState → Prop where
  | same : TableEffect st st.core
  | newEnumerator (name : String) (value : Value) : TableEffect st (st.core.newEnumerator name value)
  | setEnumerator (e : ℕ) (value : Value) : TableEffect st (st.core.setEnumerator e value)
  | addEnum (d : EnumObject) (hd : d.spec.identifier = "") :
    TableEffect st { st.core with enums := st.enums ++ [d] }
  | addEnumTag (d : EnumObject) :
    TableEffect st { st.core with
      enums := st.enums ++ [d]
      htEnums := htStore st.htEnums d.spec.identifier st.enums.length }
  | modifyEnum (i : ℕ) (f : EnumObject → EnumObject)
      (hf : ∀ d, (f d).spec.identifier = d.spec.identifier) :
    TableEffect st { st.core with enums := st.enums.modify i f }
  | addStruct (s : Struct) (hs : s.identifier = "")
      (hmembers : ∀ list, s.declarations = some list → ∀ sd ∈ list, sd.type ∈ st.types) :
    TableEffect st { st.core with structs := st.structs ++ [s] }
  | addStructTag (s : Struct)
      (hmembers : ∀ list, s.declarations = some list → ∀ sd ∈ list, sd.type ∈ st.types) :
    TableEffect st { st.core with
      structs := st.structs ++ [s]
      htStructs := htStore st.htStructs s.identifier st.structs.length }
  | modifyStruct (i : ℕ) (f : Struct → Struct) (hf : ∀ s, (f s).identifier = s.identifier)
      (hmembers : ∀ s list, (f s).declarations = some list → s.declarations = some list ∨
        ∀ sd ∈ list, sd.type ∈ st.types) :
    TableEffect st { st.core with structs := st.structs.modify i f }
  | newTypedefList (spec : TypeSpec) (decl : Declarator) (hspec : spec ∈ st.types) :
    TableEffect st (ParserState.makeTypedef
      { st.core with typedef_lists := st.typedef_lists ++ [⟨spec, []⟩] }
      st.typedef_lists.length spec decl)
  | moreTypedefs (l : ℕ) (list : TypedefList) (decl : Declarator)
      (hlast : l + 1 = st.typedef_lists.length) (hlist : st.typedef_lists[l]? = some list) :
    TableEffect st (st.core.makeTypedef l list.type decl)

/-- A step, seen from the lists and tables and from the types on the stack. -/
structure Advance (st st' : ParserState) : Prop where
  effect : TableEffect st st'.core
  types : ∀ spec ∈ st'.types, spec ∈ st.types ∨ st'.Knows spec

section Advances
variable {st st' s : ParserState} {top rest : List Symbol} {value : Symbol}

theorem Advance.push (hstack : st.stack = top ++ rest) (heffect : TableEffect st s.core)
    (hvalue : ∀ spec ∈ value.types, spec ∈ st.types ∨ s.Knows spec) : Advance st (s.push rest value) where
  effect := heffect
  types spec hspec := by
    rcases List.mem_append.mp hspec with hspec | hspec
    · exact hvalue spec hspec
    · left
      rw [ParserState.types, hstack, List.flatMap_append]
      exact List.mem_append_right _ hspec

/-- A value without types. -/
theorem Advance.pushPlain (hstack : st.stack = top ++ rest) (heffect : TableEffect st s.core)
    (hvalue : value.types = []) : Advance st (s.push rest value) := by
  apply Advance.push hstack heffect
  intro spec hspec
  rw [hvalue] at hspec
  exact absurd hspec List.not_mem_nil

/-- The type of an object of the lists. -/
theorem Advance.pushType (hstack : st.stack = top ++ rest) (heffect : TableEffect st s.core)
    {spec : TypeSpec} (hknows : s.Knows spec) :
    Advance st (s.push rest (.typeSpec false (some spec))) := by
  apply Advance.push hstack heffect
  intro spec' hspec
  rw [List.mem_singleton.mp hspec]
  exact Or.inr hknows

theorem types_of_stack {v : Symbol} {spec : TypeSpec} (hv : v ∈ st.stack) (hspec : spec ∈ v.types) :
    spec ∈ st.types := List.mem_flatMap.mpr ⟨v, hv, hspec⟩

theorem reduceEnumerator_advance {node : Option String} {val : Value}
    (hstack : st.stack = top ++ rest) (h : reduceEnumerator st node val rest = some st') :
    Advance st st' := by
  unfold reduceEnumerator at h
  split at h
  · cases h
    exact Advance.pushPlain hstack .same rfl
  · next name _ =>
    cases h
    exact Advance.pushPlain hstack (.newEnumerator name val) rfl
  · cases h

theorem reduceEnumeratorList_advance {pEnum : Option ℕ} (hstack : st.stack = top ++ rest)
    (h : reduceEnumeratorList st pEnum rest = some st') : Advance st st' := by
  unfold reduceEnumeratorList at h
  split at h
  · cases h
    exact Advance.pushPlain hstack .same rfl
  · next e _ =>
    cases h
    exact Advance.pushPlain hstack (.setEnumerator e _) rfl
  · cases h

theorem reduceEnumeratorListMore_advance {list : Option (List ℕ)} {pEnum : Option ℕ}
    (hstack : st.stack = top ++ rest)
    (h : reduceEnumeratorListMore st list pEnum rest = some st') : Advance st st' := by
  unfold reduceEnumeratorListMore at h
  split at h
  · cases h
    exact Advance.pushPlain hstack .same rfl
  · next es e _ =>
    cases h
    exact Advance.pushPlain hstack (.setEnumerator e _) rfl
  · cases h

theorem enumspecUpdate_identifier (spec : EnumSpecifier) (es : List Enumerator) :
    (enumspecUpdate spec es).identifier = spec.identifier := by
  unfold enumspecUpdate
  dsimp only
  split_ifs
  · rfl
  · rfl

theorem knows_new_enum {d : EnumObject} (ht : String → Option ℕ) :
    ({ st with enums := st.enums ++ [d], htEnums := ht } : ParserState).Knows
      (.enum st.enums.length) := by
  show st.enums.length < (st.enums ++ [d]).length
  rw [List.length_append]
  exact Nat.lt_succ_self _

theorem knows_new_struct {d : Struct} (kind : CompoundKind) (ht : String → Option ℕ) :
    ({ st with structs := st.structs ++ [d], htStructs := ht } : ParserState).Knows
      (.compound kind st.structs.length) := by
  show st.structs.length < (st.structs ++ [d]).length
  rw [List.length_append]
  exact Nat.lt_succ_self _

theorem reduceEnumNameUnnamed_advance {ctx : ContextInfo} {list : Option (List ℕ)}
    (hstack : st.stack = top ++ rest) (h : reduceEnumNameUnnamed st ctx list rest = some st') :
    Advance st st' := by
  unfold reduceEnumNameUnnamed at h
  split_ifs at h
  · cases h
    exact Advance.pushPlain hstack .same rfl
  · split at h
    · next es =>
      cases h
      apply Advance.pushType hstack
      · exact .addEnum _ (enumspecUpdate_identifier _ _)
      · exact knows_new_enum st.htEnums
    · cases h

theorem reduceEnumNameDefinition_advance (hl : Linked st) {ctx : ContextInfo} {node : Option String}
    {list : Option (List ℕ)} (hstack : st.stack = top ++ rest)
    (h : reduceEnumNameDefinition st ctx node list rest = some st') : Advance st st' := by
  unfold reduceEnumNameDefinition at h
  split at h
  · cases h
    exact Advance.pushPlain hstack .same rfl
  · next tag es _ =>
    split at h
    · cases h
      have heffect := @TableEffect.addEnumTag st
        ⟨enumspecUpdate (enumspecNew tag ctx) (st.enumerators es), es⟩
      rw [enumspecUpdate_identifier] at heffect
      apply Advance.pushType hstack heffect
      exact knows_new_enum _
    · next i hi =>
      have hlt : i < st.enums.length := hl.enums tag i hi
      split at h
      · cases h
        apply Advance.pushType hstack
        · exact .modifyEnum i _ fun d => enumspecUpdate_identifier _ _
        · show i < (st.enums.modify i _).length
          rwa [List.length_modify]
      · cases h
        exact Advance.pushType (s := st.destroyEnumerators es) hstack .same hlt
  · cases h

theorem reduceEnumNameReference_advance (hl : Linked st) {ctx : ContextInfo} {node : Option String}
    (hstack : st.stack = top ++ rest) (h : reduceEnumNameReference st ctx node rest = some st') :
    Advance st st' := by
  unfold reduceEnumNameReference at h
  split at h
  · cases h
    exact Advance.pushPlain hstack .same rfl
  · next tag _ =>
    split at h
    · cases h
      apply Advance.pushType hstack
      · exact .addEnumTag ⟨enumspecNew tag ctx, []⟩
      · exact knows_new_enum _
    · next i hi =>
      cases h
      exact Advance.pushType hstack .same (hl.enums tag i hi)
  · cases h

theorem reduceAggregateNameUnnamed_advance {kind : CompoundKind} {ctx : ContextInfo}
    {list : Option (List StructDeclaration)} (hstack : st.stack = top ++ rest)
    (hlist : .memberDeclarations list ∈ st.stack) :
    Advance st (reduceAggregateNameUnnamed st kind ctx list rest) := by
  unfold reduceAggregateNameUnnamed
  split_ifs
  · exact Advance.pushPlain hstack .same rfl
  · apply Advance.pushType hstack
    · apply TableEffect.addStruct _ rfl
      rintro _ rfl sd hsd
      exact types_of_stack hlist (List.mem_map_of_mem hsd)
    · exact knows_new_struct kind st.htStructs

theorem reduceAggregateNameDefinition_advance (hl : Linked st) {kind : CompoundKind}
    {ctx : ContextInfo} {node : Option String} {list : Option (List StructDeclaration)}
    (hstack : st.stack = top ++ rest) (hlist : .memberDeclarations list ∈ st.stack)
    (h : reduceAggregateNameDefinition st kind ctx node list rest = some st') : Advance st st' := by
  have hmembers (l : List StructDeclaration) (hsome : list = some l) : ∀ sd ∈ l, sd.type ∈ st.types := by
    rw [hsome] at hlist
    exact fun sd hsd => types_of_stack hlist (List.mem_map_of_mem hsd)
  unfold reduceAggregateNameDefinition at h
  split at h
  · cases h
    exact Advance.pushPlain hstack .same rfl
  · next tag _ =>
    split at h
    · cases h
      apply Advance.pushType hstack
      · exact .addStructTag (structNew tag kind st.pack ctx list) hmembers
      · exact knows_new_struct kind _
    · next i hi =>
      cases h
      apply Advance.pushType hstack
      · apply TableEffect.modifyStruct
        · intro s
          split_ifs
          · rfl
          · rfl
        · intro s l hsome
          split_ifs at hsome
          · exact Or.inr (hmembers l hsome)
          · exact Or.inl hsome
      · show i < (st.structs.modify i _).length
        rw [List.length_modify]
        exact hl.structs tag i hi
  · cases h

theorem reduceAggregateNameReference_advance (hl : Linked st) {kind : CompoundKind}
    {ctx : ContextInfo} {node : Option String} (hstack : st.stack = top ++ rest)
    (h : reduceAggregateNameReference st kind ctx node rest = some st') : Advance st st' := by
  unfold reduceAggregateNameReference at h
  split at h
  · cases h
    exact Advance.pushPlain hstack .same rfl
  · next tag _ =>
    split at h
    · cases h
      apply Advance.pushType hstack
      · apply TableEffect.addStructTag (structNew tag kind 0 ctx none)
        exact fun list hnone => nomatch hnone
      · exact knows_new_struct kind _
    · next i hi =>
      cases h
      exact Advance.pushType hstack .same (hl.structs tag i hi)
  · cases h

theorem reduceDeclaringList_advance {isTypedef : Bool} {spec : Option TypeSpec}
    {pDecl : Option Declarator} (hstack : st.stack = top ++ rest)
    (hspec : .typeSpec isTypedef spec ∈ st.stack)
    (h : reduceDeclaringList st isTypedef spec pDecl rest = some st') : Advance st st' := by
  unfold reduceDeclaringList at h
  split at h
  · cases h
    exact Advance.pushPlain hstack .same rfl
  · cases h
    exact Advance.pushPlain hstack .same rfl
  · split at h
    · next spec decl =>
      cases h
      apply Advance.pushPlain hstack _ rfl
      exact .newTypedefList spec decl (types_of_stack hspec List.mem_cons_self)
    · cases h

theorem reduceDeclaringListMore_advance {pTypedefList : Option ℕ} {pDecl : Option Declarator}
    (hstack : st.stack = top ++ rest)
    (hlast : ∀ l, pTypedefList = some l → l + 1 = st.typedef_lists.length)
    (h : reduceDeclaringListMore st pTypedefList pDecl rest = some st') : Advance st st' := by
  unfold reduceDeclaringListMore at h
  split at h
  · cases h
    exact Advance.pushPlain hstack .same rfl
  · next l =>
    split at h
    · next list decl hlist =>
      cases h
      exact Advance.pushPlain hstack (.moreTypedefs l list decl (hlast l rfl) hlist) rfl
    · cases h

theorem reduce_advance (hl : Linked st) {p : Production} (hsources : st.sources (.reduce p) = true)
    (h : reduce st p = some st') : Advance st st' := by
  unfold reduce at h
  cases p with
  | enumerator =>
    dsimp only at h
    split at h
    · next node rest hstack =>
      have happend : st.stack = [.name node] ++ rest := hstack
      exact reduceEnumerator_advance happend h
    · cases h
  | enumeratorWithValue =>
    dsimp only at h
    split at h
    · next value a node rest hstack =>
      have happend : st.stack = [.constant value, .token a, .name node] ++ rest := hstack
      exact reduceEnumerator_advance happend h
    · cases h
  | enumeratorList =>
    dsimp only at h
    split at h
    · next pEnum rest hstack =>
      have happend : st.stack = [.enumerator pEnum] ++ rest := hstack
      exact reduceEnumeratorList_advance happend h
    · cases h
  | enumeratorListMore =>
    dsimp only at h
    split at h
    · next pEnum a list rest hstack =>
      have happend : st.stack = [.enumerator pEnum, .token a, .enumeratorList list] ++ rest := hstack
      exact reduceEnumeratorListMore_advance happend h
    · cases h
  | enumNameUnnamed =>
    dsimp only at h
    split at h
    · next a list b ctx rest hstack =>
      have happend : st.stack = [.token a, .other, .enumeratorList list, .token b,
        .enumKeyContext ctx] ++ rest := hstack
      exact reduceEnumNameUnnamed_advance happend h
    · cases h
  | enumNameDefinition =>
    dsimp only at h
    split at h
    · next a list b node ctx rest hstack =>
      have happend : st.stack = [.token a, .other, .enumeratorList list, .token b, .name node,
        .enumKeyContext ctx] ++ rest := hstack
      exact reduceEnumNameDefinition_advance hl happend h
    · cases h
  | enumNameReference =>
    dsimp only at h
    split at h
    · next node ctx rest hstack =>
      have happend : st.stack = [.name node, .enumKeyContext ctx] ++ rest := hstack
      exact reduceEnumNameReference_advance hl happend h
    · cases h
  | aggregateNameUnnamed =>
    dsimp only at h
    split at h
    · next a list b kind ctx rest hstack =>
      have happend : st.stack = [.token a, .memberDeclarations list, .token b,
        .aggregateKeyContext kind ctx] ++ rest := hstack
      cases h
      apply reduceAggregateNameUnnamed_advance happend
      rw [hstack]
      exact List.mem_cons_of_mem _ List.mem_cons_self
    · cases h
  | aggregateNameDefinition =>
    dsimp only at h
    split at h
    · next a list b node kind ctx rest hstack =>
      have happend : st.stack = [.token a, .memberDeclarations list, .token b, .name node,
        .aggregateKeyContext kind ctx] ++ rest := hstack
      apply reduceAggregateNameDefinition_advance hl happend _ h
      rw [hstack]
      exact List.mem_cons_of_mem _ List.mem_cons_self
    · cases h
  | aggregateNameReference =>
    dsimp only at h
    split at h
    · next node kind ctx rest hstack =>
      have happend : st.stack = [.name node, .aggregateKeyContext kind ctx] ++ rest := hstack
      exact reduceAggregateNameReference_advance hl happend h
    · cases h
  | declaringList =>
    dsimp only at h
    split at h
    · next pDecl isTypedef spec rest hstack =>
      have happend : st.stack = [.other, .other, .declarator pDecl, .typeSpec isTypedef spec] ++
        rest := hstack
      apply reduceDeclaringList_advance happend _ h
      rw [hstack]
      simp
    · cases h
  | declaringListMore =>
    dsimp only at h
    split at h
    · next pDecl a pTypedefList rest hstack =>
      have happend : st.stack = [.other, .other, .declarator pDecl, .token a,
        .declaringList pTypedefList] ++ rest := hstack
      apply reduceDeclaringListMore_advance happend _ h
      rintro l rfl
      unfold ParserState.sources at hsources
      rw [hstack] at hsources
      exact of_decide_eq_true hsources
    · cases h

/-- A step that leaves the lists, the tables and the stack, or empties the stack. -/
theorem advance_quiet (hcore : st'.core = st.core) (hstack : st'.stack = st.stack ∨ st'.stack = []) :
    Advance st st' where
  effect := hcore ▸ .same
  types spec hspec := by
    rcases hstack with hstack | hstack
    · left
      rwa [ParserState.types, hstack] at hspec
    · rw [ParserState.types, hstack] at hspec
      exact absurd hspec List.not_mem_nil

/-- Every step of the parser. -/
theorem sourcedStep_advance (hl : Linked st) {step : ParserStep} (h : sourcedStep st step = some st') :
    Advance st st' := by
  unfold sourcedStep at h
  split_ifs at h with hsources
  cases step with
  | shift tok =>
    simp only [parserStep] at h
    split_ifs at h
    cases h
    apply Advance.push (s := st) (List.nil_append _).symm .same
    intro spec hspec
    have hknown := List.all_eq_true.mp hsources spec hspec
    cases spec with
    | typedef t =>
      have ht : t < st.typedefCount := of_decide_eq_true hknown
      exact Or.inr ht
    | basic tflags => exact absurd hknown Bool.false_ne_true
    | enum pES => exact absurd hknown Bool.false_ne_true
    | compound kind pStruct => exact absurd hknown Bool.false_ne_true
  | reduce p =>
    simp only [parserStep] at h
    split_ifs at h
    exact reduce_advance hl hsources h
  | other n value =>
    simp only [parserStep] at h
    split_ifs at h
    cases h
    apply Advance.push (s := st) (List.take_append_drop n st.stack).symm .same
    intro spec hspec
    have hknown := List.all_eq_true.mp hsources spec hspec
    have hfrom (hany : (st.stack.take n).any (fun s => spec ∈ s.types) = true) : spec ∈ st.types := by
      obtain ⟨v, hv, hmem⟩ := List.any_eq_true.mp hany
      exact types_of_stack (List.mem_of_mem_take hv) (of_decide_eq_true hmem)
    cases spec with
    | basic tflags => exact Or.inr trivial
    | enum pES => exact Or.inl (hfrom hknown)
    | compound kind pStruct => exact Or.inl (hfrom hknown)
    | typedef t => exact Or.inl (hfrom hknown)
  | setPack pack =>
    simp only [parserStep] at h
    split_ifs at h
    cases h
    exact advance_quiet rfl (Or.inl rfl)
  | beginLocal =>
    simp only [parserStep] at h
    split_ifs at h
    cases h
    exact advance_quiet rfl (Or.inl rfl)
  | endLocal =>
    simp only [parserStep] at h
    split_ifs at h
    cases h
    exact advance_quiet rfl (Or.inl rfl)
  | accept =>
    simp only [parserStep] at h
    split_ifs at h
    cases h
    exact advance_quiet rfl (Or.inr rfl)
  | error =>
    simp only [parserStep] at h
    split_ifs at h
    cases h
    exact advance_quiet rfl (Or.inr rfl)
  | restart =>
    simp only [parserStep] at h
    split_ifs at h
    cases h
    exact advance_quiet rfl (Or.inl rfl)

end Advances

section Names

/-- The table finds the first object that has the name. -/
def FirstNamed (ht : String → Option ℕ) (name : ℕ → String) (count : ℕ) : Prop :=
  ∀ n, n ≠ "" → ht n = (List.range count).find? fun i => name i = n

variable {ht : String → Option ℕ} {name name' : ℕ → String} {count : ℕ}

theorem find_range_congr (hname : ∀ i < count, name' i = name i) (n : String) :
    (List.range count).find? (fun i => name' i = n) = (List.range count).find? fun i => name i = n := by
  apply List.find?_congr
  intro i hi
  rw [hname i (List.mem_range.mp hi)]

theorem FirstNamed.congr (h : FirstNamed ht name count) (hname : ∀ i < count, name' i = name i) :
    FirstNamed ht name' count := by
  intro n hn
  rw [find_range_congr hname]
  exact h n hn

/-- A new object under its name, which is only found if the name is new. -/
theorem FirstNamed.store (h : FirstNamed ht name count) (hname : ∀ i < count, name' i = name i) :
    FirstNamed (htStore ht (name' count) count) name' (count + 1) := by
  intro n hn
  have hone : ([count].find? fun i => name' i = n) = if name' count = n then some count else none := by
    rw [List.find?_singleton]
    simp only [decide_eq_true_eq]
  calc htStore ht (name' count) count n
    _ = (ht n).or (if name' count = n then some count else none) := store_apply ht _ n count
    _ = ((List.range count).find? fun i => name i = n).or
          ([count].find? fun i => name' i = n) := by rw [h n hn, hone]
    _ = (List.range (count + 1)).find? fun i => name' i = n := by
      rw [List.range_succ, List.find?_append, find_range_congr hname]

theorem FirstNamed.tagless (h : FirstNamed ht name count) (hname : ∀ i < count, name' i = name i)
    (htag : name' count = "") : FirstNamed ht name' (count + 1) := by
  intro n hn
  have hone : ([count].find? fun i => name' i = n) = none := by
    rw [List.find?_singleton, htag]
    exact if_neg (by simpa using Ne.symm hn)
  rw [List.range_succ, List.find?_append, hone, Option.or_none, find_range_congr hname]
  exact h n hn

end Names

section Invariants

def ParserState.enumName (st : ParserState) (i : ℕ) : String :=
  ((st.enums[i]?).map fun d => d.spec.identifier).getD ""

def ParserState.structName (st : ParserState) (i : ℕ) : String :=
  ((st.structs[i]?).map Struct.identifier).getD ""

/-- What the tables and the lists have to do with each other, and what the members of the lists
refer to. -/
structure Tabled (st : ParserState) : Prop where
  members : ∀ s ∈ st.structs, ∀ list, s.declarations = some list → ∀ sd ∈ list, st.Knows sd.type
  lists : ∀ l ∈ st.typedef_lists, st.Knows l.type
  typedefs : st.typedef_lists.flatMap TypedefList.typedefs = List.range st.typedefCount
  list_type : ∀ l ∈ st.typedef_lists, ∀ t ∈ l.typedefs, (st.typedefAt t).type = l.type
  htEnums : FirstNamed st.htEnums st.enumName st.enums.length
  htStructs : FirstNamed st.htStructs st.structName st.structs.length
  htTypedefs : FirstNamed st.htTypedefs (fun t => (st.typedefAt t).decl.identifier) st.typedefCount
  htEnumerators : ∀ e < st.enumeratorCount, st.htEnumerators (st.enumeratorAt e).identifier ≠ none

variable {st st' c : ParserState}

theorem Tabled.of_core (h : Tabled st.core) : Tabled st :=
  ⟨h.members, h.lists, h.typedefs, h.list_type, h.htEnums, h.htStructs, h.htTypedefs, h.htEnumerators⟩

theorem Tabled.core (h : Tabled st) : Tabled st.core :=
  ⟨h.members, h.lists, h.typedefs, h.list_type, h.htEnums, h.htStructs, h.htTypedefs, h.htEnumerators⟩

theorem knows_mono {spec : TypeSpec} (h : st.Knows spec) (henums : st.enums.length ≤ c.enums.length)
    (hstructs : st.structs.length ≤ c.structs.length) (htypedefs : st.typedefCount ≤ c.typedefCount) :
    c.Knows spec := by
  cases spec with
  | basic tflags => trivial
  | enum pES => exact Nat.lt_of_lt_of_le h henums
  | compound kind pStruct => exact Nat.lt_of_lt_of_le h hstructs
  | typedef t => exact Nat.lt_of_lt_of_le h htypedefs

/-- Objects are not removed from the lists. -/
theorem TableEffect.knows (h : TableEffect st c) {spec : TypeSpec} (hspec : st.Knows spec) : c.Knows spec := by
  have hadd {α : Type} (l : List α) (x : α) : l.length ≤ (l ++ [x]).length := by simp
  have hmodify {α : Type} (l : List α) (i : ℕ) (f : α → α) : l.length ≤ (l.modify i f).length := by
    simp
  cases h with
  | same => exact hspec
  | newEnumerator name value => exact knows_mono hspec le_rfl le_rfl le_rfl
  | setEnumerator e value => exact knows_mono hspec le_rfl le_rfl le_rfl
  | addEnum d _ => exact knows_mono hspec (hadd _ _) le_rfl le_rfl
  | addEnumTag d => exact knows_mono hspec (hadd _ _) le_rfl le_rfl
  | modifyEnum i f _ => exact knows_mono hspec (hmodify _ _ _) le_rfl le_rfl
  | addStruct s _ _ => exact knows_mono hspec le_rfl (hadd _ _) le_rfl
  | addStructTag s _ => exact knows_mono hspec le_rfl (hadd _ _) le_rfl
  | modifyStruct i f _ _ => exact knows_mono hspec le_rfl (hmodify _ _ _) le_rfl
  | newTypedefList spec decl _ => exact knows_mono hspec le_rfl le_rfl (Nat.le_succ _)
  | moreTypedefs l list decl _ _ => exact knows_mono hspec le_rfl le_rfl (Nat.le_succ _)

theorem getElem?_append_old {α : Type} {l : List α} {x : α} {i : ℕ} (hi : i < l.length) :
    (l ++ [x])[i]? = l[i]? := List.getElem?_append_left hi

theorem enumName_modify {f : EnumObject → EnumObject} (i j : ℕ)
    (hf : ∀ d, (f d).spec.identifier = d.spec.identifier) :
    ({ st.core with enums := st.enums.modify i f } : ParserState).enumName j = st.enumName j := by
  show ((((st.enums.modify i f)[j]?).map fun d => d.spec.identifier).getD "") = _
  rw [List.getElem?_modify, ParserState.enumName]
  cases st.enums[j]? with
  | none => rfl
  | some d =>
    by_cases hij : i = j
    · simp [hij, hf]
    · simp [hij]

theorem structName_modify {f : Struct → Struct} (i j : ℕ) (hf : ∀ s, (f s).identifier = s.identifier) :
    ({ st.core with structs := st.structs.modify i f } : ParserState).structName j =
      st.structName j := by
  show ((((st.structs.modify i f)[j]?).map Struct.identifier).getD "") = _
  rw [List.getElem?_modify, ParserState.structName]
  cases st.structs[j]? with
  | none => rfl
  | some s =>
    by_cases hij : i = j
    · simp [hij, hf]
    · simp [hij]

theorem enumName_append {d : EnumObject} (ht : String → Option ℕ) :
    ({ st.core with enums := st.enums ++ [d], htEnums := ht } : ParserState).enumName st.enums.length =
      d.spec.identifier := by
  show ((((st.enums ++ [d])[st.enums.length]?).map fun d => d.spec.identifier).getD "") = _
  rw [List.getElem?_append_right le_rfl, Nat.sub_self]
  rfl

theorem enumName_append_old {d : EnumObject} (ht : String → Option ℕ) {i : ℕ}
    (hi : i < st.enums.length) :
    ({ st.core with enums := st.enums ++ [d], htEnums := ht } : ParserState).enumName i =
      st.enumName i := by
  show ((((st.enums ++ [d])[i]?).map fun d => d.spec.identifier).getD "") = _
  rw [getElem?_append_old hi]
  rfl

theorem structName_append {s : Struct} (ht : String → Option ℕ) :
    ({ st.core with structs := st.structs ++ [s], htStructs := ht } : ParserState).structName
      st.structs.length = s.identifier := by
  show ((((st.structs ++ [s])[st.structs.length]?).map Struct.identifier).getD "") = _
  rw [List.getElem?_append_right le_rfl, Nat.sub_self]
  rfl

theorem structName_append_old {s : Struct} (ht : String → Option ℕ) {i : ℕ}
    (hi : i < st.structs.length) :
    ({ st.core with structs := st.structs ++ [s], htStructs := ht } : ParserState).structName i =
      st.structName i := by
  show ((((st.structs ++ [s])[i]?).map Struct.identifier).getD "") = _
  rw [getElem?_append_old hi]
  rfl

/-- Adding an enum. -/
theorem Tabled.addEnum (h : Tabled st) {d : EnumObject} {ht : String → Option ℕ}
    (heffect : TableEffect st { st.core with enums := st.enums ++ [d], htEnums := ht })
    (hnames : FirstNamed ht
      ({ st.core with enums := st.enums ++ [d], htEnums := ht } : ParserState).enumName
      (st.enums.length + 1)) :
    Tabled { st.core with enums := st.enums ++ [d], htEnums := ht } where
  members s hs list hlist sd hsd := heffect.knows (h.members s hs list hlist sd hsd)
  lists l hl := heffect.knows (h.lists l hl)
  typedefs := h.typedefs
  list_type := h.list_type
  htEnums := by
    show FirstNamed ht _ (st.enums ++ [d]).length
    rw [List.length_append]
    exact hnames
  htStructs := h.htStructs
  htTypedefs := h.htTypedefs
  htEnumerators := h.htEnumerators

/-- Adding a compound. -/
theorem Tabled.addStruct (h : Tabled st) {s : Struct} {ht : String → Option ℕ}
    (heffect : TableEffect st { st.core with structs := st.structs ++ [s], htStructs := ht })
    (htypes : ∀ spec ∈ st.types, st.Knows spec)
    (hmembers : ∀ list, s.declarations = some list → ∀ sd ∈ list, sd.type ∈ st.types)
    (hnames : FirstNamed ht
      ({ st.core with structs := st.structs ++ [s], htStructs := ht } : ParserState).structName
      (st.structs.length + 1)) :
    Tabled { st.core with structs := st.structs ++ [s], htStructs := ht } where
  members s' hs' list hlist sd hsd := by
    apply heffect.knows
    rcases List.mem_append.mp hs' with hs' | hs'
    · exact h.members s' hs' list hlist sd hsd
    · rw [List.mem_singleton.mp hs'] at hlist
      exact htypes _ (hmembers list hlist sd hsd)
  lists l hl := heffect.knows (h.lists l hl)
  typedefs := h.typedefs
  list_type := h.list_type
  htEnums := h.htEnums
  htStructs := by
    show FirstNamed ht _ (st.structs ++ [s]).length
    rw [List.length_append]
    exact hnames
  htTypedefs := h.htTypedefs
  htEnumerators := h.htEnumerators

/-- Adding a typedef at the end of the last list. -/
theorem Tabled.addTypedef {lists lists' : List TypedefList} {l : ℕ} {spec : TypeSpec}
    {decl : Declarator} (h : Tabled st)
    (heffect : TableEffect st
      (ParserState.makeTypedef { st.core with typedef_lists := lists } l spec decl))
    (hmodify : (lists.modify l fun list =>
      { list with typedefs := list.typedefs ++ [st.typedefCount] }) = lists')
    (hlists : ∀ list ∈ lists', st.Knows list.type)
    (hflat : lists'.flatMap TypedefList.typedefs =
      st.typedef_lists.flatMap TypedefList.typedefs ++ [st.typedefCount])
    (htype : ∀ list ∈ lists', ∀ t ∈ list.typedefs,
      (t < st.typedefCount ∧ (st.typedefAt t).type = list.type) ∨
        t = st.typedefCount ∧ list.type = spec) :
    Tabled (ParserState.makeTypedef { st.core with typedef_lists := lists } l spec decl) := by
  have hlists' : (ParserState.makeTypedef { st.core with typedef_lists := lists } l spec
      decl).typedef_lists = lists' := hmodify
  have hold (t : ℕ) (ht : t < st.typedefCount) :
      (ParserState.makeTypedef { st.core with typedef_lists := lists } l spec decl).typedefAt t =
        st.typedefAt t := Function.update_of_ne (Nat.ne_of_lt ht) ..
  have hnew : (ParserState.makeTypedef { st.core with typedef_lists := lists } l spec
      decl).typedefAt st.typedefCount = ⟨spec, decl⟩ := Function.update_self ..
  constructor
  · exact fun s hs list hlist sd hsd => heffect.knows (h.members s hs list hlist sd hsd)
  · rw [hlists']
    exact fun list hlist => heffect.knows (hlists list hlist)
  · rw [hlists', hflat, h.typedefs]
    exact List.range_succ.symm
  · rw [hlists']
    intro list hlist t ht
    rcases htype list hlist t ht with ⟨hlt, heq⟩ | ⟨rfl, heq⟩
    · rw [hold t hlt, heq]
    · rw [hnew, heq]
  · exact h.htEnums
  · exact h.htStructs
  · have hnames := @FirstNamed.store _ _ (fun t =>
      ((ParserState.makeTypedef { st.core with typedef_lists := lists } l spec
        decl).typedefAt t).decl.identifier) _ h.htTypedefs fun t ht => by rw [hold t ht]
    rw [hnew] at hnames
    exact hnames
  · exact h.htEnumerators

theorem modify_last {α : Type} (l : List α) (x : α) (f : α → α) :
    (l ++ [x]).modify l.length f = l ++ [f x] := by
  induction l with
  | nil => rfl
  | cons y l ih =>
    show y :: (l ++ [x]).modify l.length f = y :: (l ++ [f x])
    rw [ih]

theorem typedef_lt (h : Tabled st) {l : TypedefList} (hl : l ∈ st.typedef_lists) {t : ℕ}
    (ht : t ∈ l.typedefs) : t < st.typedefCount := by
  have hmem : t ∈ st.typedef_lists.flatMap TypedefList.typedefs := List.mem_flatMap.mpr ⟨l, hl, ht⟩
  rw [h.typedefs] at hmem
  exact List.mem_range.mp hmem

theorem Tabled.newTypedefList (h : Tabled st) (htypes : ∀ spec ∈ st.types, st.Knows spec)
    {spec : TypeSpec} (decl : Declarator) (hspec : spec ∈ st.types) :
    Tabled (ParserState.makeTypedef
      { st.core with typedef_lists := st.typedef_lists ++ [⟨spec, []⟩] }
      st.typedef_lists.length spec decl) := by
  have hmodify : ((st.typedef_lists ++ [(⟨spec, []⟩ : TypedefList)]).modify st.typedef_lists.length
      fun list => { list with typedefs := list.typedefs ++ [st.typedefCount] }) =
        st.typedef_lists ++ [⟨spec, [st.typedefCount]⟩] := modify_last _ _ _
  apply h.addTypedef (.newTypedefList spec decl hspec) hmodify
  · intro list hlist
    rcases List.mem_append.mp hlist with hlist | hlist
    · exact h.lists list hlist
    · rw [List.mem_singleton.mp hlist]
      exact htypes spec hspec
  · rw [List.flatMap_append]
    rfl
  · intro list hlist t ht
    rcases List.mem_append.mp hlist with hlist | hlist
    · exact Or.inl ⟨typedef_lt h hlist ht, h.list_type list hlist t ht⟩
    · rw [List.mem_singleton.mp hlist] at ht ⊢
      exact Or.inr ⟨List.mem_singleton.mp ht, rfl⟩

theorem Tabled.moreTypedefs (h : Tabled st) {l : ℕ} {list : TypedefList} (decl : Declarator)
    (hlast : l + 1 = st.typedef_lists.length) (hlist : st.typedef_lists[l]? = some list) :
    Tabled (st.core.makeTypedef l list.type decl) := by
  -- the last list, and the lists before it
  obtain ⟨hl, hget⟩ := List.getElem?_eq_some_iff.mp hlist
  have hsplit : st.typedef_lists = st.typedef_lists.take l ++ [list] := by
    rw [← hget, List.take_append_getElem hl, hlast, List.take_length]
  have hlength : (st.typedef_lists.take l).length = l := List.length_take_of_le (Nat.le_of_lt hl)
  have hmodify : (st.typedef_lists.modify l fun list =>
      { list with typedefs := list.typedefs ++ [st.typedefCount] }) =
        st.typedef_lists.take l ++ [⟨list.type, list.typedefs ++ [st.typedefCount]⟩] := by
    calc (st.typedef_lists.modify l fun list =>
          { list with typedefs := list.typedefs ++ [st.typedefCount] })
      _ = (st.typedef_lists.take l ++ [list]).modify (st.typedef_lists.take l).length fun list =>
          { list with typedefs := list.typedefs ++ [st.typedefCount] } := by rw [← hsplit, hlength]
      _ = _ := modify_last _ _ _
  have hmem : list ∈ st.typedef_lists := List.mem_of_getElem? hlist
  apply h.addTypedef (.moreTypedefs l list decl hlast hlist) hmodify
  · intro list' hlist'
    rcases List.mem_append.mp hlist' with hlist' | hlist'
    · exact h.lists list' (List.mem_of_mem_take hlist')
    · rw [List.mem_singleton.mp hlist']
      exact h.lists list hmem
  · have hflat := congrArg (List.flatMap TypedefList.typedefs) hsplit
    rw [List.flatMap_append] at hflat
    rw [hflat, List.flatMap_append]
    simp
  · intro list' hlist' t ht
    rcases List.mem_append.mp hlist' with hlist' | hlist'
    · have hold := List.mem_of_mem_take hlist'
      exact Or.inl ⟨typedef_lt h hold ht, h.list_type list' hold t ht⟩
    · rw [List.mem_singleton.mp hlist'] at ht ⊢
      rcases List.mem_append.mp ht with ht | ht
      · exact Or.inl ⟨typedef_lt h hmem ht, h.list_type list hmem t ht⟩
      · exact Or.inr ⟨List.mem_singleton.mp ht, rfl⟩

theorem Tabled.modifyStruct (h : Tabled st) (htypes : ∀ spec ∈ st.types, st.Knows spec) {i : ℕ}
    {f : Struct → Struct} (hf : ∀ s, (f s).identifier = s.identifier)
    (hmembers : ∀ s list, (f s).declarations = some list → s.declarations = some list ∨
      ∀ sd ∈ list, sd.type ∈ st.types) :
    Tabled { st.core with structs := st.structs.modify i f } := by
  have heffect := TableEffect.modifyStruct i f hf hmembers
  constructor
  · intro s hs list hlist sd hsd
    apply heffect.knows
    obtain ⟨j, hj, rfl⟩ := List.mem_iff_getElem.mp hs
    have hj' : j < st.structs.length := by
      have hlength : (st.structs.modify i f).length = st.structs.length := List.length_modify ..
      rwa [← hlength]
    rw [List.getElem_modify] at hlist
    have hold := h.members _ (List.getElem_mem hj')
    split_ifs at hlist
    · rcases hmembers _ list hlist with hsame | hnew
      · exact hold list hsame sd hsd
      · exact htypes _ (hnew sd hsd)
    · exact hold list hlist sd hsd
  · exact fun l hl => heffect.knows (h.lists l hl)
  · exact h.typedefs
  · exact h.list_type
  · exact h.htEnums
  · show FirstNamed st.htStructs _ (st.structs.modify i f).length
    rw [List.length_modify]
    exact h.htStructs.congr fun j _ => structName_modify i j hf
  · exact h.htTypedefs
  · exact h.htEnumerators

/-- An enumerator is in the table from the start, under the name that it keeps. -/
theorem Tabled.newEnumerator (h : Tabled st) (name : String) (value : Value) :
    Tabled (st.core.newEnumerator name value) := by
  refine ⟨h.members, h.lists, h.typedefs, h.list_type, h.htEnums, h.htStructs, h.htTypedefs, ?_⟩
  intro e he
  have hstore (n : String) : htStore st.htEnumerators name st.enumeratorCount n =
      (st.htEnumerators n).or (if name = n then some st.enumeratorCount else none) :=
    store_apply st.htEnumerators name n st.enumeratorCount
  show htStore st.htEnumerators name st.enumeratorCount
    (Function.update st.enumeratorAt st.enumeratorCount ⟨value, name⟩ e).identifier ≠ none
  rw [hstore, Ne, Option.or_eq_none_iff, not_and_or]
  have hcases : e < st.enumeratorCount ∨ e = st.enumeratorCount := Nat.lt_succ_iff_lt_or_eq.mp he
  rcases hcases with hlt | rfl
  · left
    rw [Function.update_of_ne (Nat.ne_of_lt hlt)]
    exact h.htEnumerators e hlt
  · right
    show ¬(if name = (Function.update st.enumeratorAt st.enumeratorCount ⟨value, name⟩
      st.enumeratorCount).identifier then some st.enumeratorCount else none) = none
    rw [Function.update_self, if_pos rfl]
    exact Option.some_ne_none _

theorem Tabled.setEnumerator (h : Tabled st) (e : ℕ) (value : Value) :
    Tabled (st.core.setEnumerator e value) := by
  refine ⟨h.members, h.lists, h.typedefs, h.list_type, h.htEnums, h.htStructs, h.htTypedefs, ?_⟩
  intro e' he'
  have hname : ((st.core.setEnumerator e value).enumeratorAt e').identifier =
      (st.enumeratorAt e').identifier := by
    show (Function.update st.enumeratorAt e { st.enumeratorAt e with value := value } e').identifier = _
    by_cases heq : e' = e
    · rw [heq, Function.update_self]
    · rw [Function.update_of_ne heq]
  rw [hname]
  exact h.htEnumerators e' he'

theorem Tabled.effect (h : Tabled st) (htypes : ∀ spec ∈ st.types, st.Knows spec)
    (heffect : TableEffect st c) : Tabled c := by
  cases heffect with
  | same => exact h.core
  | newEnumerator name value => exact h.newEnumerator name value
  | setEnumerator e value => exact h.setEnumerator e value
  | addEnum d hd =>
    apply h.addEnum (.addEnum d hd)
    apply h.htEnums.tagless fun i hi => enumName_append_old st.htEnums hi
    exact (enumName_append st.htEnums).trans hd
  | addEnumTag d =>
    apply h.addEnum (.addEnumTag d)
    have hnames := @FirstNamed.store _ _ ({ st.core with
      enums := st.enums ++ [d]
      htEnums := htStore st.htEnums d.spec.identifier st.enums.length } : ParserState).enumName _
      h.htEnums fun i hi => enumName_append_old _ hi
    rw [enumName_append] at hnames
    exact hnames
  | modifyEnum i f hf =>
    have hmodify := @TableEffect.modifyEnum st i f hf
    refine ⟨fun s hs list hlist sd hsd => hmodify.knows (h.members s hs list hlist sd hsd),
      fun l hl => hmodify.knows (h.lists l hl), h.typedefs, h.list_type, ?_, h.htStructs,
      h.htTypedefs, h.htEnumerators⟩
    show FirstNamed st.htEnums _ (st.enums.modify i f).length
    rw [List.length_modify]
    exact h.htEnums.congr fun j _ => enumName_modify i j hf
  | addStruct s hs hmembers =>
    apply h.addStruct (.addStruct s hs hmembers) htypes hmembers
    apply h.htStructs.tagless fun i hi => structName_append_old st.htStructs hi
    exact (structName_append st.htStructs).trans hs
  | addStructTag s hmembers =>
    apply h.addStruct (.addStructTag s hmembers) htypes hmembers
    have hnames := @FirstNamed.store _ _ ({ st.core with
      structs := st.structs ++ [s]
      htStructs := htStore st.htStructs s.identifier st.structs.length } : ParserState).structName _
      h.htStructs fun i hi => structName_append_old _ hi
    rw [structName_append] at hnames
    exact hnames
  | modifyStruct i f hf hmembers => exact h.modifyStruct htypes hf hmembers
  | newTypedefList spec decl hspec => exact h.newTypedefList htypes decl hspec
  | moreTypedefs l list decl hlast hlist => exact h.moreTypedefs decl hlast hlist

end Invariants
end ConvertBinaryC
