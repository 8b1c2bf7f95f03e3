import ConvertBinaryC.CTLibFileInfo
import ConvertBinaryC.CTLibCloneRuns

/-! The pointers of contexts to the files, while the parser runs. What a production does to the
contexts is said once, and a pointer goes the same way as the context it belongs to. -/
namespace ConvertBinaryC
open ArenaRules

/-- A parse with its files. The pointers of contexts are kept beside the stack of the parser and its
enums and compounds. -/
structure FileParse where
  parser : ParserState
  files : FileTables
  keys : List (Option ℕ)
  enumFI : ℕ → Option ℕ
  structFI : ℕ → Option ℕ

def FileParse.initial : FileParse where
  parser := .initial
  files := ⟨⟨fun _ => fileinfoNew none [], 0⟩, ⟨newFiles, [], 0⟩, none⟩
  keys := []
  enumFI _ := none
  structFI _ := none

/-- The enum that gets the context of a key when its tag is read: a new one, or one that was only
declared so far and is defined now. -/
def ParserState.enumTarget (st : ParserState) (tag : String) (defines : Bool) :
    Option ParserObject :=
  match st.htEnums tag with
  | none => some (.enumSpecifier st.enums.length)
  | some i =>
    if defines && ((st.enums[i]?).bind fun d => d.spec.enumerators).isNone then
      some (.enumSpecifier i)
    else none

/-- The same for structs and unions. -/
def ParserState.structTarget (st : ParserState) (tag : String) (defines : Bool) :
    Option ParserObject :=
  match st.htStructs tag with
  | none => some (.struct st.structs.length)
  | some i =>
    if defines && ((st.structs[i]?).bind Struct.declarations).isNone then some (.struct i) else none

/-- The object that a production gives the context of its key to. Inside of a function body nothing
is built. -/
def ParserState.contextTarget (st : ParserState) (p : Production) : Option ParserObject :=
  if st.isLocal then none
  else match p with
  | .enumNameUnnamed => some (.enumSpecifier st.enums.length)
  | .enumNameDefinition =>
    match st.stack with
    | _ :: _ :: _ :: _ :: .name node :: _ => node.bind fun tag => st.enumTarget tag true
    | _ => none
  | .enumNameReference =>
    match st.stack with
    | .name node :: _ => node.bind fun tag => st.enumTarget tag false
    | _ => none
  | .aggregateNameUnnamed => some (.struct st.structs.length)
  | .aggregateNameDefinition =>
    match st.stack with
    | _ :: _ :: _ :: .name node :: _ => node.bind fun tag => st.structTarget tag true
    | _ => none
  | .aggregateNameReference =>
    match st.stack with
    | .name node :: _ => node.bind fun tag => st.structTarget tag false
    | _ => none
  | _ => none

/-- The context that a value notes. -/
def Symbol.context : Symbol → Option ContextInfo
  | .enumKeyContext ctx | .aggregateKeyContext _ ctx => some ctx
  | _ => none

def ParserObject.enumIndex : ParserObject → Option ℕ
  | .enumSpecifier i => some i
  | _ => none

def ParserObject.structIndex : ParserObject → Option ℕ
  | .struct i => some i
  | _ => none

def updateAt {α : Type} (target : Option ℕ) (f : ℕ → α) (x : α) : ℕ → α :=
  match target with
  | some i => Function.update f i x
  | none => f

inductive FileStep where
  | context (name : List UInt8) (stat : Option FileStat)
  | invalidate
  | parser (step : ParserStep)

/-- The pointers beside the stack: what a value notes is where the lexer is when it is pushed. -/
def FileParse.nextKeys (s : FileParse) (st : ParserState) : ParserStep → List (Option ℕ)
  | .shift _ | .reduce _ | .other _ _ =>
    s.files.pFI :: s.keys.drop (s.parser.stack.length + 1 - st.stack.length)
  | .accept | .error => []
  | _ => s.keys

/-- The pointer of the key that a production starts with, which is the last value that it pops. -/
def FileParse.keyFI (s : FileParse) (st : ParserState) : Option ℕ :=
  (s.keys[s.parser.stack.length - st.stack.length]?).join

/-- The object that gets a context. -/
def FileParse.target (s : FileParse) : ParserStep → Option ParserObject
  | .reduce p => s.parser.contextTarget p
  | _ => none

/-- A step of the parser with the contexts. -/
def FileParse.advance (s : FileParse) (step : ParserStep) (st : ParserState) : FileParse where
  parser := st
  files := if step = .restart then { s.files with pFI := none } else s.files
  keys := s.nextKeys st step
  enumFI := updateAt ((s.target step).bind ParserObject.enumIndex) s.enumFI (s.keyFI st)
  structFI := updateAt ((s.target step).bind ParserObject.structIndex) s.structFI (s.keyFI st)

/-- The context of a key is in the file that the lexer is in, which every parse enters first. -/
def FileParse.inFile (s : FileParse) : ParserStep → Bool
  | .other _ value => value.context.all fun ctx =>
    s.files.pFI.any fun pFI => fileText (s.files.infos.get pFI).name == ctx.file
  | _ => true

def fileStep (s : FileParse) : FileStep → Option FileParse
  | .context name stat =>
    (s.files.context name stat).toOption.map fun files => { s with files := files }
  | .invalidate => s.files.invalidate.toOption.map fun files => { s with files := files }
  | .parser step => if s.inFile step then (sourcedStep s.parser step).map (s.advance step) else none

section Contexts
variable {st st' : ParserState} {top rest : List Symbol} {value : Symbol}

/-- The contexts of the enums. -/
def ParserState.enumContext (st : ParserState) (i : ℕ) : Option ContextInfo :=
  (st.enums[i]?).map fun d => d.spec.context

/-- The contexts of the structs and unions. -/
def ParserState.structContext (st : ParserState) (i : ℕ) : Option ContextInfo :=
  (st.structs[i]?).map Struct.context

/-- The context that a value of the stack notes. -/
def ParserState.noted (st : ParserState) (j : ℕ) : Option ContextInfo :=
  (st.stack[j]?).bind Symbol.context

/-- A production takes some values from the stack and leaves one that notes no context. The target
has the context of the first of these values from now on. -/
structure ContextsTo (st st' : ParserState) (target : Option ParserObject)
    (top rest : List Symbol) : Prop where
  popped : st.stack = top ++ rest
  pushed : ∃ value, st'.stack = value :: rest ∧ value.context = none
  enums : st'.enumContext = updateAt (target.bind ParserObject.enumIndex) st.enumContext
    (top.getLast?.bind Symbol.context)
  structs : st'.structContext = updateAt (target.bind ParserObject.structIndex) st.structContext
    (top.getLast?.bind Symbol.context)

theorem ContextsTo.same (hpopped : st.stack = top ++ rest) (hpushed : st'.stack = value :: rest)
    (hvalue : value.context = none) (henums : st'.enums = st.enums)
    (hstructs : st'.structs = st.structs) : ContextsTo st st' none top rest where
  popped := hpopped
  pushed := ⟨value, hpushed, hvalue⟩
  enums := by
    unfold ParserState.enumContext
    rw [henums]
    rfl
  structs := by
    unfold ParserState.structContext
    rw [hstructs]
    rfl

theorem map_append_one {α β : Type} (l : List α) (x : α) (f : α → β) :
    (fun i => ((l ++ [x])[i]?).map f) =
      Function.update (fun i => (l[i]?).map f) l.length (some (f x)) := by
  funext i
  by_cases hi : i = l.length
  · subst hi
    rw [Function.update_self, List.getElem?_concat_length]
    rfl
  · rw [Function.update_of_ne hi]
    by_cases hlt : i < l.length
    · rw [List.getElem?_append_left hlt]
    · rw [List.getElem?_eq_none (by rw [List.length_append, List.length_singleton]; omega),
        List.getElem?_eq_none (Nat.le_of_not_lt hlt)]

theorem map_modify_one {α β : Type} {l : List α} {i : ℕ} (hi : i < l.length) (g : α → α)
    (f : α → β) : (fun j => ((l.modify i g)[j]?).map f) =
      Function.update (fun j => (l[j]?).map f) i (some (f (g l[i]))) := by
  funext j
  by_cases hj : j = i
  · subst hj
    rw [Function.update_self, List.getElem?_modify_eq, List.getElem?_eq_getElem hi]
    rfl
  · rw [Function.update_of_ne hj, List.getElem?_modify_ne _ _ (Ne.symm hj)]

/-- A new enum. -/
theorem ContextsTo.addEnum {d : EnumObject} (hpopped : st.stack = top ++ rest)
    (hpushed : st'.stack = value :: rest) (hvalue : value.context = none)
    (henums : st'.enums = st.enums ++ [d]) (hstructs : st'.structs = st.structs)
    (hkey : top.getLast?.bind Symbol.context = some d.spec.context) :
    ContextsTo st st' (some (.enumSpecifier st.enums.length)) top rest where
  popped := hpopped
  pushed := ⟨value, hpushed, hvalue⟩
  enums := by
    unfold ParserState.enumContext
    rw [henums, hkey]
    exact map_append_one st.enums d _
  structs := by
    unfold ParserState.structContext
    rw [hstructs]
    rfl

/-- A new struct or union. -/
theorem ContextsTo.addStruct {c : Struct} (hpopped : st.stack = top ++ rest)
    (hpushed : st'.stack = value :: rest) (hvalue : value.context = none)
    (henums : st'.enums = st.enums) (hstructs : st'.structs = st.structs ++ [c])
    (hkey : top.getLast?.bind Symbol.context = some c.context) :
    ContextsTo st st' (some (.struct st.structs.length)) top rest where
  popped := hpopped
  pushed := ⟨value, hpushed, hvalue⟩
  enums := by
    unfold ParserState.enumContext
    rw [henums]
    rfl
  structs := by
    unfold ParserState.structContext
    rw [hstructs, hkey]
    exact map_append_one st.structs c _

theorem reduceEnumerator_contexts {node : Option String} {val : Value}
    (hpopped : st.stack = top ++ rest) (h : reduceEnumerator st node val rest = some st') :
    ContextsTo st st' none top rest := by
  unfold reduceEnumerator at h
  split at h
  · cases h
    exact .same hpopped rfl rfl rfl rfl
  · cases h
    exact .same hpopped rfl rfl rfl rfl
  · cases h

theorem reduceEnumeratorList_contexts {pEnum : Option ℕ} (hpopped : st.stack = top ++ rest)
    (h : reduceEnumeratorList st pEnum rest = some st') : ContextsTo st st' none top rest := by
  unfold reduceEnumeratorList at h
  split at h
  · cases h
    exact .same hpopped rfl rfl rfl rfl
  · cases h
    exact .same hpopped rfl rfl rfl rfl
  · cases h

theorem reduceEnumeratorListMore_contexts {list : Option (List ℕ)} {pEnum : Option ℕ}
    (hpopped : st.stack = top ++ rest)
    (h : reduceEnumeratorListMore st list pEnum rest = some st') :
    ContextsTo st st' none top rest := by
  unfold reduceEnumeratorListMore at h
  split at h
  · cases h
    exact .same hpopped rfl rfl rfl rfl
  · cases h
    exact .same hpopped rfl rfl rfl rfl
  · cases h

theorem reduceDeclaringList_contexts {isTypedef : Bool} {spec : Option TypeSpec}
    {pDecl : Option Declarator} (hpopped : st.stack = top ++ rest)
    (h : reduceDeclaringList st isTypedef spec pDecl rest = some st') :
    ContextsTo st st' none top rest := by
  unfold reduceDeclaringList at h
  split at h
  · cases h
    exact .same hpopped rfl rfl rfl rfl
  · cases h
    exact .same hpopped rfl rfl rfl rfl
  · split at h
    · cases h
      exact .same hpopped rfl rfl rfl rfl
    · cases h

theorem reduceDeclaringListMore_contexts {pTypedefList : Option ℕ} {pDecl : Option Declarator}
    (hpopped : st.stack = top ++ rest)
    (h : reduceDeclaringListMore st pTypedefList pDecl rest = some st') :
    ContextsTo st st' none top rest := by
  unfold reduceDeclaringListMore at h
  split at h
  · cases h
    exact .same hpopped rfl rfl rfl rfl
  · split at h
    · cases h
      exact .same hpopped rfl rfl rfl rfl
    · cases h

theorem enumspecUpdate_context (spec : EnumSpecifier) (es : List Enumerator) :
    (enumspecUpdate spec es).context = spec.context := by
  unfold enumspecUpdate
  dsimp only
  split_ifs
  · rfl
  · rfl

theorem reduceEnumNameUnnamed_contexts {ctx : ContextInfo} {list : Option (List ℕ)}
    (hpopped : st.stack = top ++ rest) (hkey : top.getLast?.bind Symbol.context = some ctx)
    (h : reduceEnumNameUnnamed st ctx list rest = some st') :
    ContextsTo st st' (if st.isLocal then none else some (.enumSpecifier st.enums.length)) top
      rest := by
  unfold reduceEnumNameUnnamed at h
  split_ifs at h ⊢
  · cases h
    exact .same hpopped rfl rfl rfl rfl
  · split at h
    · cases h
      refine .addEnum hpopped rfl rfl rfl rfl ?_
      rw [enumspecUpdate_context]
      exact hkey
    · cases h

theorem reduceEnumNameDefinition_contexts (hl : Linked st) {ctx : ContextInfo}
    {node : Option String} {list : Option (List ℕ)} (hpopped : st.stack = top ++ rest)
    (hkey : top.getLast?.bind Symbol.context = some ctx)
    (h : reduceEnumNameDefinition st ctx node list rest = some st') :
    ContextsTo st st' (if st.isLocal then none else node.bind fun tag => st.enumTarget tag true)
      top rest := by
  unfold reduceEnumNameDefinition at h
  cases hlocal : st.isLocal with
  | true =>
    rw [hlocal] at h
    cases h
    exact .same hpopped rfl rfl rfl rfl
  | false =>
    rw [hlocal] at h
    cases node with
    | none => cases list <;> cases h
    | some tag =>
      cases list with
      | none => cases h
      | some es =>
        dsimp only at h
        rw [if_neg Bool.false_ne_true, Option.bind_some]
        unfold ParserState.enumTarget
        cases htag : st.htEnums tag with
        | none =>
          rw [htag] at h
          cases h
          refine .addEnum hpopped rfl rfl rfl rfl ?_
          rw [enumspecUpdate_context]
          exact hkey
        | some i =>
          rw [htag] at h
          dsimp only at h ⊢
          cases hdefined : (st.enums[i]?).bind fun d => d.spec.enumerators with
          | some _ =>
            rw [hdefined] at h
            cases h
            exact .same hpopped rfl rfl rfl rfl
          | none =>
            rw [hdefined] at h
            cases h
            have hi : i < st.enums.length := hl.enums tag i htag
            refine ⟨hpopped, ⟨_, rfl, rfl⟩, ?_, rfl⟩
            rw [hkey]
            exact map_modify_one hi _ _

theorem reduceEnumNameReference_contexts {ctx : ContextInfo} {node : Option String}
    (hpopped : st.stack = top ++ rest) (hkey : top.getLast?.bind Symbol.context = some ctx)
    (h : reduceEnumNameReference st ctx node rest = some st') :
    ContextsTo st st' (if st.isLocal then none else node.bind fun tag => st.enumTarget tag false)
      top rest := by
  unfold reduceEnumNameReference at h
  cases hlocal : st.isLocal with
  | true =>
    rw [hlocal] at h
    cases h
    exact .same hpopped rfl rfl rfl rfl
  | false =>
    rw [hlocal] at h
    cases node with
    | none => cases h
    | some tag =>
      dsimp only at h
      rw [if_neg Bool.false_ne_true, Option.bind_some]
      unfold ParserState.enumTarget
      cases htag : st.htEnums tag with
      | none =>
        rw [htag] at h
        cases h
        exact .addEnum hpopped rfl rfl rfl rfl hkey
      | some i =>
        rw [htag] at h
        cases h
        exact .same hpopped rfl rfl rfl rfl

theorem reduceAggregateNameUnnamed_contexts {kind : CompoundKind} {ctx : ContextInfo}
    {list : Option (List StructDeclaration)} (hpopped : st.stack = top ++ rest)
    (hkey : top.getLast?.bind Symbol.context = some ctx) :
    ContextsTo st (reduceAggregateNameUnnamed st kind ctx list rest)
      (if st.isLocal then none else some (.struct st.structs.length)) top rest := by
  unfold reduceAggregateNameUnnamed
  split_ifs
  · exact .same hpopped rfl rfl rfl rfl
  · exact .addStruct hpopped rfl rfl rfl rfl hkey

theorem reduceAggregateNameDefinition_contexts (hl : Linked st) {kind : CompoundKind}
    {ctx : ContextInfo} {node : Option String} {list : Option (List StructDeclaration)}
    (hpopped : st.stack = top ++ rest) (hkey : top.getLast?.bind Symbol.context = some ctx)
    (h : reduceAggregateNameDefinition st kind ctx node list rest = some st') :
    ContextsTo st st' (if st.isLocal then none else node.bind fun tag => st.structTarget tag true)
      top rest := by
  unfold reduceAggregateNameDefinition at h
  cases hlocal : st.isLocal with
  | true =>
    rw [hlocal] at h
    cases h
    exact .same hpopped rfl rfl rfl rfl
  | false =>
    rw [hlocal] at h
    cases node with
    | none => cases h
    | some tag =>
      dsimp only at h
      rw [if_neg Bool.false_ne_true, Option.bind_some]
      unfold ParserState.structTarget
      cases htag : st.htStructs tag with
      | none =>
        rw [htag] at h
        cases h
        exact .addStruct hpopped rfl rfl rfl rfl hkey
      | some i =>
        have hi : i < st.structs.length := hl.structs tag i htag
        rw [htag] at h
        cases h
        dsimp only
        rw [List.getElem?_eq_getElem hi, Option.bind_some, Bool.true_and]
        refine ⟨hpopped, ⟨_, rfl, rfl⟩, ?_, ?_⟩
        · split_ifs
          · rfl
          · rfl
        · -- a compound that has members already is modified to itself
          refine (map_modify_one hi _ _).trans ?_
          split_ifs
          · rw [hkey]
            rfl
          · funext j
            by_cases hj : j = i
            · subst hj
              rw [Function.update_self]
              exact (congrArg (Option.map _) (List.getElem?_eq_getElem hi)).symm
            · exact Function.update_of_ne hj _ _

theorem reduceAggregateNameReference_contexts {kind : CompoundKind} {ctx : ContextInfo}
    {node : Option String} (hpopped : st.stack = top ++ rest)
    (hkey : top.getLast?.bind Symbol.context = some ctx)
    (h : reduceAggregateNameReference st kind ctx node rest = some st') :
    ContextsTo st st' (if st.isLocal then none else node.bind fun tag => st.structTarget tag false)
      top rest := by
  unfold reduceAggregateNameReference at h
  cases hlocal : st.isLocal with
  | true =>
    rw [hlocal] at h
    cases h
    exact .same hpopped rfl rfl rfl rfl
  | false =>
    rw [hlocal] at h
    cases node with
    | none => cases h
    | some tag =>
      dsimp only at h
      rw [if_neg Bool.false_ne_true, Option.bind_some]
      unfold ParserState.structTarget
      cases htag : st.htStructs tag with
      | none =>
        rw [htag] at h
        cases h
        exact .addStruct hpopped rfl rfl rfl rfl hkey
      | some i =>
        rw [htag] at h
        cases h
        exact .same hpopped rfl rfl rfl rfl

/-- Every production that touches the lists and tables. -/
theorem reduce_contexts (hl : Linked st) {p : Production} (h : reduce st p = some st') :
    ∃ top rest, top ≠ [] ∧ ContextsTo st st' (st.contextTarget p) top rest := by
  unfold reduce at h
  unfold ParserState.contextTarget
  cases p with
  | enumerator =>
    dsimp only at h
    split at h
    · next node rest hstack =>
      refine ⟨[.name node], rest, List.cons_ne_nil _ _, ?_⟩
      rw [ite_self]
      exact reduceEnumerator_contexts hstack h
    · cases h
  | enumeratorWithValue =>
    dsimp only at h
    split at h
    · next value a node rest hstack =>
      refine ⟨[.constant value, .token a, .name node], rest, List.cons_ne_nil _ _, ?_⟩
      rw [ite_self]
      exact reduceEnumerator_contexts hstack h
    · cases h
  | enumeratorList =>
    dsimp only at h
    split at h
    · next pEnum rest hstack =>
      refine ⟨[.enumerator pEnum], rest, List.cons_ne_nil _ _, ?_⟩
      rw [ite_self]
      exact reduceEnumeratorList_contexts hstack h
    · cases h
  | enumeratorListMore =>
    dsimp only at h
    split at h
    · next pEnum a list rest hstack =>
      refine ⟨[.enumerator pEnum, .token a, .enumeratorList list], rest, List.cons_ne_nil _ _, ?_⟩
      rw [ite_self]
      exact reduceEnumeratorListMore_contexts hstack h
    · cases h
  | enumNameUnnamed =>
    dsimp only at h
    split at h
    · next a list b ctx rest hstack =>
      refine ⟨[.token a, .other, .enumeratorList list, .token b, .enumKeyContext ctx], rest,
        List.cons_ne_nil _ _, ?_⟩
      exact reduceEnumNameUnnamed_contexts hstack rfl h
    · cases h
  | enumNameDefinition =>
    dsimp only at h
    split at h
    · next a list b node ctx rest hstack =>
      refine ⟨[.token a, .other, .enumeratorList list, .token b, .name node, .enumKeyContext ctx],
        rest, List.cons_ne_nil _ _, ?_⟩
      rw [hstack]
      exact reduceEnumNameDefinition_contexts hl hstack rfl h
    · cases h
  | enumNameReference =>
    dsimp only at h
    split at h
    · next node ctx rest hstack =>
      refine ⟨[.name node, .enumKeyContext ctx], rest, List.cons_ne_nil _ _, ?_⟩
      rw [hstack]
      exact reduceEnumNameReference_contexts hstack rfl h
    · cases h
  | aggregateNameUnnamed =>
    dsimp only at h
    split at h
    · next a list b kind ctx rest hstack =>
      refine ⟨[.token a, .memberDeclarations list, .token b, .aggregateKeyContext kind ctx], rest,
        List.cons_ne_nil _ _, ?_⟩
      cases h
      exact reduceAggregateNameUnnamed_contexts hstack rfl
    · cases h
  | aggregateNameDefinition =>
    dsimp only at h
    split at h
    · next a list b node kind ctx rest hstack =>
      refine ⟨[.token a, .memberDeclarations list, .token b, .name node,
        .aggregateKeyContext kind ctx], rest, List.cons_ne_nil _ _, ?_⟩
      rw [hstack]
      exact reduceAggregateNameDefinition_contexts hl hstack rfl h
    · cases h
  | aggregateNameReference =>
    dsimp only at h
    split at h
    · next node kind ctx rest hstack =>
      refine ⟨[.name node, .aggregateKeyContext kind ctx], rest, List.cons_ne_nil _ _, ?_⟩
      rw [hstack]
      exact reduceAggregateNameReference_contexts hstack rfl h
    · cases h
  | declaringList =>
    dsimp only at h
    split at h
    · next pDecl isTypedef spec rest hstack =>
      refine ⟨[.other, .other, .declarator pDecl, .typeSpec isTypedef spec], rest,
        List.cons_ne_nil _ _, ?_⟩
      rw [ite_self]
      exact reduceDeclaringList_contexts hstack h
    · cases h
  | declaringListMore =>
    dsimp only at h
    split at h
    · next pDecl a pTypedefList rest hstack =>
      refine ⟨[.other, .other, .declarator pDecl, .token a, .declaringList pTypedefList], rest,
        List.cons_ne_nil _ _, ?_⟩
      rw [ite_self]
      exact reduceDeclaringListMore_contexts hstack h
    · cases h

end Contexts

section Parse
variable {s t : FileParse} {m : HashMap ℕ} {st : ParserState} {top rest : List Symbol}
  {value : Symbol}

/-- The pointer that belongs to a context is in the table, and it is to the info of the context's
file. -/
structure PointsTo (infos : Arena FileInfo) (m : HashMap ℕ) (pFI : Option ℕ)
    (context : Option ContextInfo) : Prop where
  listed : ∀ p, pFI = some p → Listed m p
  named : ∀ ctx, context = some ctx → ∃ p, pFI = some p ∧ fileText (infos.get p).name = ctx.file

theorem PointsTo.keeps {f g : FileTables} {m' : HashMap ℕ} {pFI : Option ℕ}
    {context : Option ContextInfo} (h : PointsTo f.infos m pFI context) (hkeeps : f.Keeps g m m') :
    PointsTo g.infos m' pFI context where
  listed p hp := hkeeps.listed p (h.listed p hp)
  named ctx hctx := by
    obtain ⟨p, hp, hname⟩ := h.named ctx hctx
    refine ⟨p, hp, ?_⟩
    rw [hkeeps.name p (h.listed p hp)]
    exact hname

/-- A pointer without a context. -/
theorem PointsTo.of_none {infos : Arena FileInfo} {pFI : Option ℕ}
    (hlisted : ∀ p, pFI = some p → Listed m p) : PointsTo infos m pFI none where
  listed := hlisted
  named _ hctx := by cases hctx

theorem updateAt_relation {α β : Type} (R : α → β → Prop) {f : ℕ → α} {g : ℕ → β} {x : α} {y : β}
    (hR : ∀ i, R (f i) (g i)) (hxy : R x y) (target : Option ℕ) (j : ℕ) :
    R (updateAt target f x j) (updateAt target g y j) := by
  cases target with
  | none => exact hR j
  | some i =>
    show R (Function.update f i x j) (Function.update g i y j)
    by_cases hj : j = i
    · subst hj
      rwa [Function.update_self, Function.update_self]
    · rw [Function.update_of_ne hj, Function.update_of_ne hj]
      exact hR j

/-- Every pointer to a file info that the parse holds belongs to its context. -/
structure FileParse.Sound (s : FileParse) (m : HashMap ℕ) : Prop where
  clonable : Clonable s.parser
  files : s.files.Sound m
  pFI : ∀ p, s.files.pFI = some p → Listed m p
  keys : ∀ j, PointsTo s.files.infos m (s.keys[j]?).join (s.parser.noted j)
  enumFI : ∀ i, PointsTo s.files.infos m (s.enumFI i) (s.parser.enumContext i)
  structFI : ∀ i, PointsTo s.files.infos m (s.structFI i) (s.parser.structContext i)

/-- Files are only added. -/
theorem FileParse.Sound.withFiles (h : s.Sound m) {files : FileTables} {m' : HashMap ℕ}
    (hfiles : files.Sound m') (hkeeps : s.files.Keeps files m m')
    (hpFI : ∀ p, files.pFI = some p → Listed m' p) :
    ({ s with files := files } : FileParse).Sound m' where
  clonable := h.clonable
  files := hfiles
  pFI := hpFI
  keys j := (h.keys j).keeps hkeeps
  enumFI i := (h.enumFI i).keeps hkeeps
  structFI i := (h.structFI i).keeps hkeeps

/-- The pointers go with the contexts of the next state of the parser. -/
structure FileParse.Follows (s : FileParse) (m : HashMap ℕ) (st : ParserState)
    (keys : List (Option ℕ)) (target : Option ParserObject) : Prop where
  keys : ∀ j, PointsTo s.files.infos m (keys[j]?).join (st.noted j)
  enumFI : ∀ i, PointsTo s.files.infos m
    (updateAt (target.bind ParserObject.enumIndex) s.enumFI (s.keyFI st) i) (st.enumContext i)
  structFI : ∀ i, PointsTo s.files.infos m
    (updateAt (target.bind ParserObject.structIndex) s.structFI (s.keyFI st) i) (st.structContext i)

theorem FileParse.Sound.push (h : s.Sound m) (hpopped : s.parser.stack = top ++ rest)
    (hpushed : st.stack = value :: rest)
    (hvalue : PointsTo s.files.infos m s.files.pFI value.context) (j : ℕ) : PointsTo s.files.infos m
      ((s.files.pFI :: s.keys.drop (s.parser.stack.length + 1 - st.stack.length))[j]?).join
      (st.noted j) := by
  unfold ParserState.noted
  rw [hpushed]
  cases j with
  | zero => exact hvalue
  | succ j =>
    have hlength : s.parser.stack.length + 1 - (value :: rest).length = top.length := by
      rw [hpopped, List.length_append, List.length_cons]
      omega
    have hkey := h.keys (top.length + j)
    unfold ParserState.noted at hkey
    rw [hpopped, List.getElem?_append_right (Nat.le_add_right _ _), Nat.add_sub_cancel_left] at hkey
    rw [hlength, List.getElem?_cons_succ, List.getElem?_cons_succ, List.getElem?_drop]
    exact hkey

/-- The key is the last value that is popped. -/
theorem FileParse.Sound.key (h : s.Sound m) (htop : top ≠ [])
    (hpopped : s.parser.stack = top ++ rest) (hpushed : st.stack = value :: rest) :
    PointsTo s.files.infos m (s.keyFI st) (top.getLast?.bind Symbol.context) := by
  have hpos : 0 < top.length := List.length_pos_iff.mpr htop
  have hlength : s.parser.stack.length - st.stack.length = top.length - 1 := by
    rw [hpopped, hpushed, List.length_append, List.length_cons]
    omega
  have hkey := h.keys (top.length - 1)
  unfold ParserState.noted at hkey
  rw [hpopped, List.getElem?_append_left (by omega), ← List.getLast?_eq_getElem?] at hkey
  unfold FileParse.keyFI
  rw [hlength]
  exact hkey

/-- A step that leaves the enums, structs and unions as they are. -/
theorem FileParse.Sound.follows (h : s.Sound m) {keys : List (Option ℕ)}
    (hkeys : ∀ j, PointsTo s.files.infos m (keys[j]?).join (st.noted j))
    (henums : st.enums = s.parser.enums) (hstructs : st.structs = s.parser.structs) :
    s.Follows m st keys none where
  keys := hkeys
  enumFI i := by
    unfold ParserState.enumContext
    rw [henums]
    exact h.enumFI i
  structFI i := by
    unfold ParserState.structContext
    rw [hstructs]
    exact h.structFI i

theorem FileParse.Sound.follows_reduce (h : s.Sound m) {p : Production}
    (hstep : reduce s.parser p = some st) :
    s.Follows m st (s.files.pFI :: s.keys.drop (s.parser.stack.length + 1 - st.stack.length))
      (s.parser.contextTarget p) := by
  obtain ⟨top, rest, htop, hpopped, ⟨value, hpushed, hvalue⟩, henums, hstructs⟩ :=
    reduce_contexts h.clonable.linked hstep
  have hkey := h.key htop hpopped hpushed
  constructor
  · apply h.push hpopped hpushed
    rw [hvalue]
    exact .of_none h.pFI
  · rw [henums]
    exact updateAt_relation _ h.enumFI hkey _
  · rw [hstructs]
    exact updateAt_relation _ h.structFI hkey _

theorem token_context {tok : Symbol} (h : tok.isToken = true) : tok.context = none := by
  cases tok with
  | enumKeyContext ctx => cases h
  | aggregateKeyContext kind ctx => cases h
  | _ => rfl

/-- Every step of the parser. -/
theorem FileParse.Sound.follows_step (h : s.Sound m) {step : ParserStep}
    (hin : s.inFile step = true) (hstep : parserStep s.parser step = some st) :
    s.Follows m st (s.nextKeys st step) (s.target step) := by
  cases step with
  | shift tok =>
    simp only [parserStep] at hstep
    split_ifs at hstep with htok
    cases hstep
    refine h.follows (h.push (List.nil_append _).symm rfl ?_) rfl rfl
    rw [token_context (Bool.and_eq_true_iff.mp htok).2]
    exact .of_none h.pFI
  | reduce p =>
    simp only [parserStep] at hstep
    split_ifs at hstep
    exact h.follows_reduce hstep
  | other n value =>
    simp only [parserStep] at hstep
    split_ifs at hstep
    cases hstep
    refine h.follows (h.push (List.take_append_drop n _).symm rfl ⟨h.pFI, ?_⟩) rfl rfl
    intro ctx hctx
    change value.context.all _ = true at hin
    rw [hctx] at hin
    cases hpFI : s.files.pFI with
    | none =>
      rw [hpFI] at hin
      cases hin
    | some p =>
      rw [hpFI] at hin
      exact ⟨p, rfl, eq_of_beq hin⟩
  | setPack pack =>
    simp only [parserStep] at hstep
    split_ifs at hstep
    cases hstep
    exact h.follows h.keys rfl rfl
  | beginLocal =>
    simp only [parserStep] at hstep
    split_ifs at hstep
    cases hstep
    exact h.follows h.keys rfl rfl
  | endLocal =>
    simp only [parserStep] at hstep
    split_ifs at hstep
    cases hstep
    exact h.follows h.keys rfl rfl
  | accept =>
    simp only [parserStep] at hstep
    split_ifs at hstep
    cases hstep
    exact h.follows (fun _ => .of_none fun _ hp => by cases hp) rfl rfl
  | error =>
    simp only [parserStep] at hstep
    split_ifs at hstep
    cases hstep
    exact h.follows (fun _ => .of_none fun _ hp => by cases hp) rfl rfl
  | restart =>
    simp only [parserStep] at hstep
    split_ifs at hstep
    cases hstep
    exact h.follows h.keys rfl rfl

theorem FileParse.Sound.advance (h : s.Sound m) {step : ParserStep} (hin : s.inFile step = true)
    (hstep : sourcedStep s.parser step = some st) : (s.advance step st).Sound m := by
  have hfollows := h.follows_step hin (parserStep_of_sourced hstep)
  have hclonable := h.clonable.step hstep
  unfold FileParse.advance
  split_ifs
  · exact ⟨hclonable, ⟨h.files.represents, h.files.entry⟩, (fun _ hp => by cases hp), hfollows.keys,
      hfollows.enumFI, hfollows.structFI⟩
  · exact ⟨hclonable, h.files, h.pFI, hfollows.keys, hfollows.enumFI, hfollows.structFI⟩

theorem FileParse.Sound.step (h : s.Sound m) {step : FileStep} (hstep : fileStep s step = some t) :
    ∃ m', t.Sound m' := by
  cases step with
  | context name stat =>
    obtain ⟨files, hcontext, rfl⟩ := ok_of_toOption hstep
    obtain ⟨m', hfiles, hkeeps, hpFI⟩ := h.files.context hcontext
    exact ⟨m', h.withFiles hfiles hkeeps hpFI⟩
  | invalidate =>
    obtain ⟨files, hinvalidate, rfl⟩ := ok_of_toOption hstep
    obtain ⟨hfiles, hkeeps, hpFI⟩ := h.files.invalidate hinvalidate
    refine ⟨m, h.withFiles hfiles hkeeps ?_⟩
    rw [hpFI]
    exact h.pFI
  | parser step =>
    change (if s.inFile step = true then _ else none) = some t at hstep
    split_ifs at hstep with hin
    obtain ⟨st, hparser, rfl⟩ := Option.map_eq_some_iff.mp hstep
    exact ⟨m, h.advance hin hparser⟩

theorem initial_files_sound : FileParse.initial.files.Sound ∅ where
  represents := by
    have hnew : HashTable.new 3 htAutogrow = some newFiles := rfl
    exact HashTable.new_represents hnew
  entry name v hv := by
    rw [Finmap.lookup_empty] at hv
    cases hv

theorem FileParse.initial_sound : FileParse.initial.Sound ∅ where
  clonable := initial_clonable
  files := initial_files_sound
  pFI _ hp := by cases hp
  keys _ := .of_none fun _ hp => by cases hp
  enumFI _ := .of_none fun _ hp => by cases hp
  structFI _ := .of_none fun _ hp => by cases hp

theorem FileParse.sound_of_run {steps : List FileStep}
    (hrun : RunRules.run fileStep .initial steps = some s) : ∃ m, s.Sound m := by
  have hinitial : ∃ m, FileParse.initial.Sound m := ⟨∅, FileParse.initial_sound⟩
  have hstep (s : FileParse) (step : FileStep) (t : FileParse) (h : ∃ m, s.Sound m)
      (ht : fileStep s step = some t) : ∃ m, t.Sound m := by
    obtain ⟨m, h⟩ := h
    exact h.step ht
  exact RunRules.run_invariant hstep hinitial hrun

end Parse

end ConvertBinaryC
