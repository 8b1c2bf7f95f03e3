import ConvertBinaryC.CTLibParserOwnership

/-! The symbol tables when the parser returns: entries refer to elements of the
lists, and dangle exactly when a run has discarded an enumerator of the table. -/
namespace ConvertBinaryC

section

variable {st st' : ParserState}

theorem Linked.push (hl : Linked st) {top rest : List Symbol} {value : Symbol}
    (hstack : st.stack = top ++ rest) (hret : st.returned = false)
    (hvalue : st.isLocal = true → value.enumerators = []) : Linked (st.push rest value) := by
  refine ⟨hl.enums, hl.structs, hl.typedefs, hl.freed, hl.bare, fun hlocal => ?_, fun h => ?_⟩
  · have hempty := hl.inside hlocal
    rw [hstack, stackEnumerators_append, List.append_eq_nil_iff] at hempty
    change stackEnumerators (value :: rest) = []
    rw [stackEnumerators_cons, hvalue hlocal, hempty.2, List.nil_append]
  · change st.returned = true at h
    rw [hret] at h
    exact absurd h (by decide)

theorem Linked.addEnum (hl : Linked st) {d : EnumObject}
    (hd : d.spec.enumerators = none → d.ids = []) :
    Linked { st with enums := st.enums ++ [d] } := by
  refine ⟨fun n i h => ?_, hl.structs, hl.typedefs, hl.freed, fun d' hd' => ?_, hl.inside,
    hl.finished⟩
  · change i < (st.enums ++ [d]).length
    rw [List.length_append]
    exact Nat.lt_add_right _ (hl.enums n i h)
  · rcases List.mem_append.mp hd' with hd' | hd'
    · exact hl.bare d' hd'
    · rw [List.mem_singleton.mp hd']
      exact hd

theorem Linked.addEnumTag (hl : Linked st) {d : EnumObject}
    (hd : d.spec.enumerators = none → d.ids = []) (tag : String) :
    Linked { st with
      enums := st.enums ++ [d]
      htEnums := htStore st.htEnums tag st.enums.length } := by
  have hadd := hl.addEnum hd
  refine ⟨fun n i h => ?_, hadd.structs, hadd.typedefs, hadd.freed, hadd.bare, hadd.inside,
    hadd.finished⟩
  rcases Ownership.htStore_some h with h | ⟨_, rfl⟩
  · exact hadd.enums n i h
  · change st.enums.length < (st.enums ++ [d]).length
    rw [List.length_append]
    exact Nat.lt_succ_self _

theorem Linked.modifyEnum (hl : Linked st) (i : ℕ) {f : EnumObject → EnumObject}
    (hf : ∀ d, (f d).spec.enumerators ≠ none) :
    Linked { st with enums := st.enums.modify i f } := by
  refine ⟨fun n j h => ?_, hl.structs, hl.typedefs, hl.freed, fun d' hd' => ?_, hl.inside,
    hl.finished⟩
  · change j < (st.enums.modify i f).length
    rw [List.length_modify]
    exact hl.enums n j h
  · obtain ⟨j, hj, rfl⟩ := List.mem_iff_getElem.mp hd'
    rw [List.getElem_modify]
    split_ifs
    · exact fun h => absurd h (hf _)
    · exact hl.bare _ (List.getElem_mem _)

theorem Linked.destroyEnumerators (hl : Linked st) (es : List ℕ) :
    Linked (st.destroyEnumerators es) := by
  refine ⟨hl.enums, hl.structs, hl.typedefs, fun o ho => ?_, hl.bare, hl.inside, hl.finished⟩
  cases o with
  | enumerator e => exact ⟨e, rfl⟩
  | enumSpecifier i => exact hl.freed _ ho
  | struct i => exact hl.freed _ ho
  | typedef t => exact hl.freed _ ho

theorem Linked.addStruct (hl : Linked st) (s : Struct) :
    Linked { st with structs := st.structs ++ [s] } := by
  refine ⟨hl.enums, fun n i h => ?_, hl.typedefs, hl.freed, hl.bare, hl.inside, hl.finished⟩
  change i < (st.structs ++ [s]).length
  rw [List.length_append]
  exact Nat.lt_add_right _ (hl.structs n i h)

theorem Linked.addStructTag (hl : Linked st) (s : Struct) (tag : String) :
    Linked { st with
      structs := st.structs ++ [s]
      htStructs := htStore st.htStructs tag st.structs.length } := by
  have hadd := hl.addStruct s
  refine ⟨hadd.enums, fun n i h => ?_, hadd.typedefs, hadd.freed, hadd.bare, hadd.inside,
    hadd.finished⟩
  rcases Ownership.htStore_some h with h | ⟨_, rfl⟩
  · exact hadd.structs n i h
  · change st.structs.length < (st.structs ++ [s]).length
    rw [List.length_append]
    exact Nat.lt_succ_self _

theorem Linked.modifyStruct (hl : Linked st) (i : ℕ) (f : Struct → Struct) :
    Linked { st with structs := st.structs.modify i f } := by
  refine ⟨hl.enums, fun n j h => ?_, hl.typedefs, hl.freed, hl.bare, hl.inside, hl.finished⟩
  change j < (st.structs.modify i f).length
  rw [List.length_modify]
  exact hl.structs n j h

theorem Linked.addTypedefList (hl : Linked st) (spec : TypeSpec) :
    Linked { st with typedef_lists := st.typedef_lists ++ [⟨spec, []⟩] } := by
  refine ⟨hl.enums, hl.structs, fun n t h => ?_, hl.freed, hl.bare, hl.inside, hl.finished⟩
  obtain ⟨l, hmem, ht⟩ := hl.typedefs n t h
  exact ⟨l, List.mem_append.mpr (Or.inl hmem), ht⟩

theorem Linked.makeTypedef (hl : Linked st) {l : ℕ} (hlt : l < st.typedef_lists.length)
    (spec : TypeSpec) (decl : Declarator) : Linked (st.makeTypedef l spec decl) := by
  refine ⟨hl.enums, hl.structs, fun n t h => ?_, hl.freed, hl.bare, hl.inside, hl.finished⟩
  have hlen : (st.makeTypedef l spec decl).typedef_lists.length = st.typedef_lists.length :=
    List.length_modify ..
  have hget (j : ℕ) (hj : j < (st.makeTypedef l spec decl).typedef_lists.length) :
      (st.makeTypedef l spec decl).typedef_lists[j].typedefs =
        st.typedef_lists[j].typedefs ++ if l = j then [st.typedefCount] else [] := by
    simp only [ParserState.makeTypedef, List.getElem_modify]
    split_ifs
    · rfl
    · exact (List.append_nil _).symm
  rcases Ownership.htStore_some h with h | ⟨_, rfl⟩
  · obtain ⟨list, hmem, ht⟩ := hl.typedefs n t h
    obtain ⟨j, hj, rfl⟩ := List.mem_iff_getElem.mp hmem
    refine ⟨_, List.getElem_mem (hlen.symm ▸ hj), ?_⟩
    rw [hget j (hlen.symm ▸ hj)]
    exact List.mem_append.mpr (Or.inl ht)
  · refine ⟨_, List.getElem_mem (hlen.symm ▸ hlt), ?_⟩
    rw [hget l (hlen.symm ▸ hlt), if_pos rfl]
    exact List.mem_append.mpr (Or.inr (List.mem_singleton.mpr rfl))

theorem Linked.newEnumerator (hl : Linked st) (name : String) (value : Value) :
    Linked (st.newEnumerator name value) :=
  ⟨hl.enums, hl.structs, hl.typedefs, hl.freed, hl.bare, hl.inside, hl.finished⟩

theorem Linked.setEnumerator (hl : Linked st) (e : ℕ) (value : Value) :
    Linked (st.setEnumerator e value) :=
  ⟨hl.enums, hl.structs, hl.typedefs, hl.freed, hl.bare, hl.inside, hl.finished⟩

theorem Linked.reduceEnumerator (hl : Linked st) (hret : st.returned = false)
    {node : Option String} {value : Value} (top : List Symbol) {rest : List Symbol}
    (hstack : st.stack = top ++ rest)
    (h : ConvertBinaryC.reduceEnumerator st node value rest = some st') : Linked st' := by
  unfold ConvertBinaryC.reduceEnumerator at h
  split at h
  · obtain rfl := Option.some.inj h
    exact hl.push hstack hret fun _ => rfl
  · next hlocal =>
    obtain rfl := Option.some.inj h
    refine (hl.newEnumerator _ value).push hstack hret fun hl' => ?_
    exact absurd (hlocal.symm.trans hl') (by decide)
  · exact absurd h (by simp)

theorem Linked.reduceEnumNameUnnamed (hl : Linked st) (hret : st.returned = false)
    {ctx : ContextInfo} {list : Option (List ℕ)} (top : List Symbol) {rest : List Symbol}
    (hstack : st.stack = top ++ rest)
    (h : ConvertBinaryC.reduceEnumNameUnnamed st ctx list rest = some st') : Linked st' := by
  unfold ConvertBinaryC.reduceEnumNameUnnamed at h
  split_ifs at h
  · obtain rfl := Option.some.inj h
    exact (hl.destroyEnumerators _).push hstack hret fun _ => rfl
  · split at h
    · obtain rfl := Option.some.inj h
      refine (hl.addEnum fun hnone => ?_).push hstack hret fun _ => rfl
      rw [enumspecUpdate_enumerators] at hnone
      exact absurd hnone (by simp)
    · exact absurd h (by simp)

theorem Linked.reduceEnumNameDefinition (hl : Linked st) (hret : st.returned = false)
    {ctx : ContextInfo} {node : Option String} {list : Option (List ℕ)} (top : List Symbol)
    {rest : List Symbol}
    (hstack : st.stack = top ++ rest)
    (h : ConvertBinaryC.reduceEnumNameDefinition st ctx node list rest = some st') :
    Linked st' := by
  unfold ConvertBinaryC.reduceEnumNameDefinition at h
  split at h
  · obtain rfl := Option.some.inj h
    exact hl.push hstack hret fun _ => rfl
  · next tag es _ =>
    split at h
    · obtain rfl := Option.some.inj h
      refine (hl.addEnumTag (fun hnone => ?_) tag).push hstack hret fun _ => rfl
      rw [enumspecUpdate_enumerators] at hnone
      exact absurd hnone (by simp)
    · split at h
      · obtain rfl := Option.some.inj h
        refine (hl.modifyEnum _ fun d => ?_).push hstack hret fun _ => rfl
        change (enumspecUpdate d.spec (st.enumerators es)).enumerators ≠ none
        rw [enumspecUpdate_enumerators]
        exact Option.some_ne_none _
      · obtain rfl := Option.some.inj h
        exact (hl.destroyEnumerators es).push hstack hret fun _ => rfl
  · exact absurd h (by simp)

theorem Linked.reduceEnumNameReference (hl : Linked st) (hret : st.returned = false)
    {ctx : ContextInfo} {node : Option String} (top : List Symbol) {rest : List Symbol}
    (hstack : st.stack = top ++ rest)
    (h : ConvertBinaryC.reduceEnumNameReference st ctx node rest = some st') : Linked st' := by
  unfold ConvertBinaryC.reduceEnumNameReference at h
  split at h
  · obtain rfl := Option.some.inj h
    exact hl.push hstack hret fun _ => rfl
  · next tag _ =>
    split at h
    · obtain rfl := Option.some.inj h
      exact (hl.addEnumTag (fun _ => rfl) tag).push hstack hret fun _ => rfl
    · obtain rfl := Option.some.inj h
      exact hl.push hstack hret fun _ => rfl
  · exact absurd h (by simp)

theorem Linked.reduceAggregateNameUnnamed (hl : Linked st) (hret : st.returned = false)
    (kind : CompoundKind) (ctx : ContextInfo) (list : Option (List StructDeclaration))
    (top : List Symbol) {rest : List Symbol} (hstack : st.stack = top ++ rest) :
    Linked (ConvertBinaryC.reduceAggregateNameUnnamed st kind ctx list rest) := by
  unfold ConvertBinaryC.reduceAggregateNameUnnamed
  split_ifs
  · exact hl.push hstack hret fun _ => rfl
  · exact (hl.addStruct _).push hstack hret fun _ => rfl

theorem Linked.reduceAggregateNameDefinition (hl : Linked st) (hret : st.returned = false)
    {kind : CompoundKind} {ctx : ContextInfo} {node : Option String}
    {list : Option (List StructDeclaration)} (top : List Symbol) {rest : List Symbol}
    (hstack : st.stack = top ++ rest)
    (h : ConvertBinaryC.reduceAggregateNameDefinition st kind ctx node list rest = some st') :
    Linked st' := by
  unfold ConvertBinaryC.reduceAggregateNameDefinition at h
  split at h
  · obtain rfl := Option.some.inj h
    exact hl.push hstack hret fun _ => rfl
  · next tag _ =>
    split at h
    · obtain rfl := Option.some.inj h
      exact (hl.addStructTag _ tag).push hstack hret fun _ => rfl
    · obtain rfl := Option.some.inj h
      exact (hl.modifyStruct _ _).push hstack hret fun _ => rfl
  · exact absurd h (by simp)

theorem Linked.reduceAggregateNameReference (hl : Linked st) (hret : st.returned = false)
    {kind : CompoundKind} {ctx : ContextInfo} {node : Option String} (top : List Symbol)
    {rest : List Symbol}
    (hstack : st.stack = top ++ rest)
    (h : ConvertBinaryC.reduceAggregateNameReference st kind ctx node rest = some st') :
    Linked st' := by
  unfold ConvertBinaryC.reduceAggregateNameReference at h
  split at h
  · obtain rfl := Option.some.inj h
    exact hl.push hstack hret fun _ => rfl
  · next tag _ =>
    split at h
    · obtain rfl := Option.some.inj h
      exact (hl.addStructTag _ tag).push hstack hret fun _ => rfl
    · obtain rfl := Option.some.inj h
      exact hl.push hstack hret fun _ => rfl
  · exact absurd h (by simp)

theorem Linked.reduceDeclaringList (hl : Linked st) (hret : st.returned = false)
    {isTypedef : Bool} {spec : Option TypeSpec} {pDecl : Option Declarator}
    (top : List Symbol) {rest : List Symbol} (hstack : st.stack = top ++ rest)
    (h : ConvertBinaryC.reduceDeclaringList st isTypedef spec pDecl rest = some st') :
    Linked st' := by
  unfold ConvertBinaryC.reduceDeclaringList at h
  split at h
  · obtain rfl := Option.some.inj h
    exact hl.push hstack hret fun _ => rfl
  · obtain rfl := Option.some.inj h
    exact hl.push hstack hret fun _ => rfl
  · split at h
    · next spec decl =>
      obtain rfl := Option.some.inj h
      refine ((hl.addTypedefList spec).makeTypedef ?_ spec decl).push hstack hret fun _ => rfl
      change st.typedef_lists.length < (st.typedef_lists ++ [_]).length
      rw [List.length_append]
      exact Nat.lt_succ_self _
    · exact absurd h (by simp)

theorem Linked.reduceDeclaringListMore (hl : Linked st) (hret : st.returned = false)
    {pTypedefList : Option ℕ} {pDecl : Option Declarator} (top : List Symbol) {rest : List Symbol}
    (hstack : st.stack = top ++ rest)
    (h : ConvertBinaryC.reduceDeclaringListMore st pTypedefList pDecl rest = some st') :
    Linked st' := by
  unfold ConvertBinaryC.reduceDeclaringListMore at h
  split at h
  · obtain rfl := Option.some.inj h
    exact hl.push hstack hret fun _ => rfl
  · next l =>
    split at h
    · next list decl hget =>
      obtain rfl := Option.some.inj h
      have hlt : l < st.typedef_lists.length := (List.getElem?_eq_some_iff.mp hget).1
      exact (hl.makeTypedef hlt list.type decl).push hstack hret fun _ => rfl
    · exact absurd h (by simp)

theorem Linked.reduce (hl : Linked st) (hret : st.returned = false) {p : Production}
    (h : ConvertBinaryC.reduce st p = some st') : Linked st' := by
  have hnone {x : Option ParserState} (hx : x = none) (hs : x = some st') : Linked st' :=
    absurd (hx.symm.trans hs) (by simp)
  unfold ConvertBinaryC.reduce at h
  cases p with
  | enumerator =>
    dsimp only at h
    split at h
    · next node rest hstack => exact hl.reduceEnumerator hret [.name node] hstack h
    · exact hnone rfl h
  | enumeratorWithValue =>
    dsimp only at h
    split at h
    · next value a node rest hstack =>
      exact hl.reduceEnumerator hret [.constant value, .token a, .name node] hstack h
    · exact hnone rfl h
  | enumeratorList =>
    dsimp only at h
    split at h
    · next pEnum rest hstack =>
      have hstack' : st.stack = [.enumerator pEnum] ++ rest := hstack
      unfold ConvertBinaryC.reduceEnumeratorList at h
      split at h
      · obtain rfl := Option.some.inj h
        exact hl.push hstack' hret fun _ => rfl
      · next hlocal =>
        obtain rfl := Option.some.inj h
        refine (hl.setEnumerator _ _).push hstack' hret fun hl' => ?_
        exact absurd (hlocal.symm.trans hl') (by decide)
      · exact hnone rfl h
    · exact hnone rfl h
  | enumeratorListMore =>
    dsimp only at h
    split at h
    · next pEnum a list rest hstack =>
      have hstack' : st.stack = [.enumerator pEnum, .token a, .enumeratorList list] ++ rest :=
        hstack
      unfold ConvertBinaryC.reduceEnumeratorListMore at h
      split at h
      · obtain rfl := Option.some.inj h
        exact hl.push hstack' hret fun _ => rfl
      · next hlocal =>
        obtain rfl := Option.some.inj h
        refine (hl.setEnumerator _ _).push hstack' hret fun hl' => ?_
        exact absurd (hlocal.symm.trans hl') (by decide)
      · exact hnone rfl h
    · exact hnone rfl h
  | enumNameUnnamed =>
    dsimp only at h
    split at h
    · next a list b ctx rest hstack =>
      exact hl.reduceEnumNameUnnamed hret
        [.token a, .other, .enumeratorList list, .token b, .enumKeyContext ctx] hstack h
    · exact hnone rfl h
  | enumNameDefinition =>
    dsimp only at h
    split at h
    · next a list b node ctx rest hstack =>
      exact hl.reduceEnumNameDefinition hret [.token a, .other, .enumeratorList list,
        .token b, .name node, .enumKeyContext ctx] hstack h
    · exact hnone rfl h
  | enumNameReference =>
    dsimp only at h
    split at h
    · next node ctx rest hstack =>
      exact hl.reduceEnumNameReference hret [.name node, .enumKeyContext ctx] hstack h
    · exact hnone rfl h
  | aggregateNameUnnamed =>
    dsimp only at h
    split at h
    · next a list b kind ctx rest hstack =>
      obtain rfl := Option.some.inj h
      exact hl.reduceAggregateNameUnnamed hret kind ctx list [.token a,
        .memberDeclarations list, .token b, .aggregateKeyContext kind ctx] hstack
    · exact hnone rfl h
  | aggregateNameDefinition =>
    dsimp only at h
    split at h
    · next a list b node kind ctx rest hstack =>
      exact hl.reduceAggregateNameDefinition hret [.token a, .memberDeclarations list,
        .token b, .name node, .aggregateKeyContext kind ctx] hstack h
    · exact hnone rfl h
  | aggregateNameReference =>
    dsimp only at h
    split at h
    · next node kind ctx rest hstack =>
      exact hl.reduceAggregateNameReference hret
        [.name node, .aggregateKeyContext kind ctx] hstack h
    · exact hnone rfl h
  | declaringList =>
    dsimp only at h
    split at h
    · next pDecl isTypedef spec rest hstack =>
      exact hl.reduceDeclaringList hret [.other, .other, .declarator pDecl,
        .typeSpec isTypedef spec] hstack h
    · exact hnone rfl h
  | declaringListMore =>
    dsimp only at h
    split at h
    · next pDecl a pTypedefList rest hstack =>
      exact hl.reduceDeclaringListMore hret [.other, .other, .declarator pDecl, .token a,
        .declaringList pTypedefList] hstack h
    · exact hnone rfl h

theorem Linked.step (hl : Linked st) {step : ParserStep} (h : parserStep st step = some st') :
    Linked st' := by
  have hempty (stack : List Symbol) (hin : stackEnumerators stack = []) (hlocal : Bool)
      (hret : st.returned = false) :
      Linked { st with stack := stack, isLocal := hlocal } := by
    refine ⟨hl.enums, hl.structs, hl.typedefs, hl.freed, hl.bare, fun _ => hin, fun h => ?_⟩
    exact absurd (hret.symm.trans h) (by decide)
  have hover (stack : List Symbol) (hin : stackEnumerators st.stack = [] →
      stackEnumerators stack = []) (hret : st.returned = false) :
      Linked { st with stack := stack } := by
    refine ⟨hl.enums, hl.structs, hl.typedefs, hl.freed, hl.bare,
      fun hlocal => hin (hl.inside hlocal), fun h => ?_⟩
    exact absurd (hret.symm.trans h) (by decide)
  cases step with
  | shift tok =>
    simp only [parserStep] at h
    split_ifs at h with hc
    obtain rfl := Option.some.inj h
    simp only [Bool.and_eq_true, Bool.not_eq_true'] at hc
    refine hover _ (fun hin => ?_) hc.1
    rw [stackEnumerators_cons, Symbol.enumerators_of_isToken hc.2, hin, List.nil_append]
  | reduce p =>
    simp only [parserStep] at h
    split_ifs at h with hc
    exact hl.reduce (Bool.not_eq_true _ ▸ hc) h
  | other n value =>
    simp only [parserStep] at h
    split_ifs at h with hc
    obtain rfl := Option.some.inj h
    simp only [Bool.and_eq_true, Bool.not_eq_true', decide_eq_true_eq] at hc
    refine hover _ (fun hin => ?_) hc.1.1
    rw [← List.take_append_drop n st.stack, stackEnumerators_append,
      List.append_eq_nil_iff] at hin
    rw [stackEnumerators_cons, Symbol.enumerators_of_isPlain hc.1.2, hin.2, List.nil_append]
  | setPack pack =>
    simp only [parserStep] at h
    split_ifs at h
    obtain rfl := Option.some.inj h
    exact ⟨hl.enums, hl.structs, hl.typedefs, hl.freed, hl.bare, hl.inside, hl.finished⟩
  | beginLocal =>
    simp only [parserStep] at h
    split_ifs at h with hc
    obtain rfl := Option.some.inj h
    simp only [Bool.and_eq_true, Bool.not_eq_true', decide_eq_true_eq] at hc
    exact hempty st.stack hc.2 true hc.1
  | endLocal =>
    simp only [parserStep] at h
    split_ifs at h
    obtain rfl := Option.some.inj h
    refine ⟨hl.enums, hl.structs, hl.typedefs, hl.freed, hl.bare, fun hlocal => ?_, hl.finished⟩
    exact absurd hlocal Bool.false_ne_true
  | accept =>
    simp only [parserStep] at h
    split_ifs at h
    obtain rfl := Option.some.inj h
    exact ⟨hl.enums, hl.structs, hl.typedefs, hl.freed, hl.bare, fun _ => rfl, fun _ => rfl⟩
  | error =>
    simp only [parserStep] at h
    split_ifs at h
    obtain rfl := Option.some.inj h
    have hd := hl.destroyEnumerators (st.stack.flatMap Symbol.destroyed)
    exact ⟨hd.enums, hd.structs, hd.typedefs, hd.freed, hd.bare, fun _ => rfl, fun _ => rfl⟩
  | restart =>
    simp only [parserStep] at h
    split_ifs at h with hc
    obtain rfl := Option.some.inj h
    refine ⟨hl.enums, hl.structs, hl.typedefs, hl.freed, hl.bare, fun hlocal => ?_, fun hret => ?_⟩
    · exact absurd hlocal Bool.false_ne_true
    · exact absurd hret Bool.false_ne_true

end

/-- The state in which `parse_buffer` first calls the parser. -/
def ParserState.initial : ParserState where
  enumeratorAt := fun _ => ⟨⟨0, true, false⟩, ""⟩
  enumeratorCount := 0
  typedefAt := fun _ => ⟨.basic T_INT, declNew ""⟩
  typedefCount := 0
  enums := []
  structs := []
  typedef_lists := []
  htEnumerators := fun _ => none
  htEnums := fun _ => none
  htStructs := fun _ => none
  htTypedefs := fun _ => none
  freed := fun _ => false
  pack := 0
  isLocal := false
  stack := []
  returned := false

/-- Does a table entry refer to the object? -/
def ParserState.Refers (st : ParserState) : ParserObject → Prop
  | .enumerator e => ∃ n, st.htEnumerators n = some e
  | .enumSpecifier i => ∃ n, st.htEnums n = some i
  | .struct i => ∃ n, st.htStructs n = some i
  | .typedef t => ∃ n, st.htTypedefs n = some t

/-- Every table entry is an element of the list that owns it, and none refers to
an object that the parser has freed. -/
structure TablesOwned (st : ParserState) : Prop where
  enumerators : ∀ n e, st.htEnumerators n = some e → ∃ d ∈ st.enums, e ∈ d.ids
  enums : ∀ n i, st.htEnums n = some i → i < st.enums.length
  structs : ∀ n i, st.htStructs n = some i → i < st.structs.length
  typedefs : ∀ n t, st.htTypedefs n = some t → ∃ l ∈ st.typedef_lists, t ∈ l.typedefs
  live : ∀ o, st.Refers o → st.freed o = false

/-- The condition on a step: it discards no enumerator that is in the table. -/
def KeepsEntries (st : ParserState) (step : ParserStep) : Prop :=
  ∀ e ∈ discards st step, ∀ n, st.htEnumerators n ≠ some e

theorem initial_linked : Linked ParserState.initial where
  enums := by simp [ParserState.initial]
  structs := by simp [ParserState.initial]
  typedefs := by simp [ParserState.initial]
  freed := by simp [ParserState.initial]
  bare := by simp [ParserState.initial]
  inside := by simp [ParserState.initial]
  finished := by simp [ParserState.initial]

theorem initial_inv : ParserState.initial.view.Inv where
  nodup := by simp [ParserState.view, ParserState.initial, ownedEnumerators]
  live := by simp [ParserState.view, ParserState.initial, ownedEnumerators]
  freed_lt := by simp [ParserState.view, ParserState.initial]
  entries := by simp [ParserState.view, ParserState.initial]

theorem tablesOwned_of_inv {st : ParserState} (hl : Linked st) (hi : st.view.Inv)
    (hret : st.returned = true) : TablesOwned st := by
  have howned (n : String) (e : ℕ) (h : st.htEnumerators n = some e) :
      ∃ d ∈ st.enums, e ∈ d.ids := by
    have hmem := hi.entries n e h
    simp only [ParserState.view, hl.finished hret, stackEnumerators_nil, Multiset.coe_nil,
      add_zero, Multiset.mem_coe] at hmem
    exact List.mem_flatMap.mp hmem
  refine ⟨howned, hl.enums, hl.structs, hl.typedefs, fun o href => ?_⟩
  by_contra hfreed
  rw [Bool.not_eq_false] at hfreed
  obtain ⟨e, rfl⟩ := hl.freed o hfreed
  obtain ⟨n, hn⟩ := href
  exact (hi.live e (hi.entries n e hn)).2 hfreed

theorem not_tablesOwned_of_dangling {st : ParserState} (hd : st.view.Dangling) :
    ¬TablesOwned st := by
  intro h
  obtain ⟨n, e, hn, _, hgone⟩ := hd
  obtain ⟨d, hmem, he⟩ := h.enumerators n e hn
  apply hgone
  rw [Multiset.mem_add]
  exact Or.inl (Multiset.mem_coe.mpr (List.mem_flatMap.mpr ⟨d, hmem, he⟩))

/-- When the parser returns, its tables are owned if and only if no step of the
run discarded an enumerator that the table refers to. -/
theorem tables_owned_iff (steps : List ParserStep) (st : ParserState)
    (hrun : RunRules.run parserStep .initial steps = some st) (hret : st.returned = true) :
    TablesOwned st ↔ RunRules.Along parserStep KeepsEntries .initial steps := by
  have hkeep (s : ParserState) (i : ParserStep) (s' : ParserState)
      (hs : Linked s ∧ s.view.Inv) (hgood : KeepsEntries s i) (h : parserStep s i = some s') :
      Linked s' ∧ s'.view.Inv :=
    ⟨hs.1.step h, hs.2.step (parserStep_step hs.1 h) fun e he => hgood e (Multiset.mem_coe.mp he)⟩
  constructor
  · intro howned
    by_contra hbad
    have hdefect : Linked st ∧ st.view.Dangling := by
      refine RunRules.run_defect (D := fun s => Linked s ∧ s.view.Dangling) hkeep ?_ ?_
        ⟨initial_linked, initial_inv⟩ hbad hrun
      · intro s i s' hs hbad h
        simp only [KeepsEntries, not_forall, not_not] at hbad
        obtain ⟨e, he, n, hn⟩ := hbad
        exact ⟨hs.1.step h, hs.2.dangling (parserStep_step hs.1 h) (Multiset.mem_coe.mpr he) hn⟩
      · intro s i s' hs h
        exact ⟨hs.1.step h, hs.2.step (parserStep_step hs.1 h)⟩
    exact not_tablesOwned_of_dangling hdefect.2 howned
  · intro hgood
    obtain ⟨hl, hi⟩ := RunRules.run_invariant_along hkeep ⟨initial_linked, initial_inv⟩ hgood hrun
    exact tablesOwned_of_inv hl hi hret

/-- The steps for `enum TAG { NAME };` with one enumerator. -/
def enumDefinitionSteps (tag name : String) : List ParserStep :=
  [.shift (.token "enum"), .other 1 (.enumKeyContext ⟨"", 1⟩), .shift (.identifier (some tag)),
    .other 1 (.name (some tag)), .shift (.token "\x7b"), .shift (.identifier (some name)),
    .other 1 (.name (some name)), .reduce .enumerator, .reduce .enumeratorList, .other 0 .other,
    .shift (.token "\x7d"), .reduce .enumNameDefinition, .shift (.token ";"), .other 2 .other]

/-- After `enum e { A }; enum e { B };` the table still refers to the deleted `B`. -/
theorem redefinition_leaves_freed_entry :
    ∃ st, RunRules.run parserStep .initial (enumDefinitionSteps "e" "A" ++
        enumDefinitionSteps "e" "B" ++ [.other 2 .other, .accept]) = some st ∧
      st.returned = true ∧ st.htEnumerators "B" = some 1 ∧ st.freed (.enumerator 1) = true ∧
      ¬TablesOwned st := by
  refine ⟨_, rfl, rfl, rfl, rfl, fun h => ?_⟩
  exact absurd (h.live (.enumerator 1) ⟨"B", rfl⟩) (by decide)

theorem tables_owned_iff_enum :
    ∃ st, RunRules.run parserStep .initial (enumDefinitionSteps "e" "A" ++ [.accept]) = some st ∧
      (TablesOwned st ↔ RunRules.Along parserStep KeepsEntries .initial
        (enumDefinitionSteps "e" "A" ++ [.accept])) :=
  ⟨_, rfl, tables_owned_iff _ _ rfl rfl⟩

end ConvertBinaryC
