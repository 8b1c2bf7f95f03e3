import ConvertBinaryC.CTLibTypes
import ConvertBinaryC.RunRules

/-! The symbol tables of the C parser (`ctlib/parser.y`). A state of the parser is
the stack of semantic values of its LR automaton together with the lists and hash
tables of the parse. A step shifts a token, reduces by one production, or fails;
every run of the generated automaton is a run of these steps. -/
namespace ConvertBinaryC

/-- The objects that a table entry can refer to. -/
inductive ParserObject where
  | enumerator (e : ℕ)
  | enumSpecifier (i : ℕ)
  | struct (i : ℕ)
  | typedef (t : ℕ)
  deriving DecidableEq, Repr

/-- Semantic values. Inside a function body the parser builds nothing, and its
pointers are null there. -/
inductive Symbol where
  | token (text : String)
  | identifier (node : Option String)
  | typeName (pTypedef : ℕ)
  | name (node : Option String)
  | constant (value : Value)
  | enumKeyContext (ctx : ContextInfo)
  | aggregateKeyContext (kind : CompoundKind) (ctx : ContextInfo)
  | enumerator (pEnum : Option ℕ)
  | enumeratorList (list : Option (List ℕ))
  | memberDeclarations (list : Option (List StructDeclaration))
  | typeSpec (isTypedef : Bool) (spec : Option TypeSpec)
  | declarator (pDecl : Option Declarator)
  | declaringList (pTypedefList : Option ℕ)
  | other
  deriving DecidableEq, Repr

/-- The enumerators that a semantic value holds. -/
def Symbol.enumerators : Symbol → List ℕ
  | .enumerator (some e) => [e]
  | .enumeratorList (some es) => es
  | _ => []

def stackEnumerators (stack : List Symbol) : List ℕ := stack.flatMap Symbol.enumerators

/-- The values that the productions which touch no table can leave. -/
def Symbol.isPlain : Symbol → Bool
  | .enumerator _ | .enumeratorList _ | .declaringList (some _) => false
  | _ => true

/-- An enum specifier with the identities of its enumerators. -/
structure EnumObject where
  spec : EnumSpecifier
  ids : List ℕ
  deriving DecidableEq, Repr

structure ParserState where
  enumeratorAt : ℕ → Enumerator
  enumeratorCount : ℕ
  typedefAt : ℕ → Typedef
  typedefCount : ℕ
  enums : List EnumObject
  structs : List Struct
  typedef_lists : List TypedefList
  htEnumerators : String → Option ℕ
  htEnums : String → Option ℕ
  htStructs : String → Option ℕ
  htTypedefs : String → Option ℕ
  freed : ParserObject → Bool
  pack : ℤ
  isLocal : Bool
  stack : List Symbol
  returned : Bool

/-- `HT_store` and `HT_storenode`: a key that is there already keeps its value. -/
def htStore (ht : String → Option ℕ) (key : String) (v : ℕ) : String → Option ℕ :=
  if ht key = none then Function.update ht key (some v) else ht

/-- The size of the smallest of 1, 2 and 4 bytes for a range. -/
def enumSize (fits8 fits16 : Bool) : ℤ := if fits8 then 1 else if fits16 then 2 else 4

def enumspecUpdate (spec : EnumSpecifier) (es : List Enumerator) : EnumSpecifier :=
  let range := es.foldl (fun (r : ℤ × ℤ) e =>
    if e.value.iv > r.2 then (r.1, e.value.iv)
    else if e.value.iv < r.1 then (e.value.iv, r.2) else r) (0, 0)
  let min := range.1
  let max := range.2
  let spec := { spec with
    enumerators := some es
    riskyVal := es.any fun e => e.value.risky }
  if min < 0 then
    let size := enumSize (-128 ≤ min && max < 128) (-32768 ≤ min && max < 32768)
    { spec with signed := true, signedSize := size, unsignedSize := size }
  else
    { spec with
      signed := false
      unsignedSize := enumSize (max < 256) (max < 65536)
      signedSize := enumSize (max < 128) (max < 32768) }

def enumspecNew (identifier : String) (context : ContextInfo) : EnumSpecifier :=
  ⟨0, false, false, 0, 0, context, none, .empty, identifier⟩

def ParserState.enumerators (st : ParserState) (es : List ℕ) : List Enumerator :=
  es.map st.enumeratorAt

/-- `LL_destroy` of an enumerator list with `enum_delete`. -/
def ParserState.destroyEnumerators (st : ParserState) (es : List ℕ) : ParserState :=
  { st with freed := fun o => match o with
      | .enumerator e => st.freed (.enumerator e) || es.contains e
      | o => st.freed o }

/-- `enum_new`, and the entry that `HT_storenode` makes for it. -/
def ParserState.newEnumerator (st : ParserState) (name : String) (value : Value) : ParserState :=
  { st with
    enumeratorAt := Function.update st.enumeratorAt st.enumeratorCount ⟨value, name⟩
    enumeratorCount := st.enumeratorCount + 1
    htEnumerators := htStore st.htEnumerators name st.enumeratorCount }

def ParserState.setEnumerator (st : ParserState) (e : ℕ) (value : Value) : ParserState :=
  { st with enumeratorAt :=
      Function.update st.enumeratorAt e { st.enumeratorAt e with value := value } }

/-- `MAKE_TYPEDEF` on the typedef list `l`. -/
def ParserState.makeTypedef (st : ParserState) (l : ℕ) (spec : TypeSpec) (decl : Declarator) :
    ParserState :=
  { st with
    typedefAt := Function.update st.typedefAt st.typedefCount ⟨spec, decl⟩
    typedefCount := st.typedefCount + 1
    typedef_lists := st.typedef_lists.modify l fun list =>
      { list with typedefs := list.typedefs ++ [st.typedefCount] }
    htTypedefs := htStore st.htTypedefs decl.identifier st.typedefCount }

/-- The productions whose actions touch the lists and tables of the parse. -/
inductive Production where
  | enumerator
  | enumeratorWithValue
  | enumeratorList
  | enumeratorListMore
  | enumNameUnnamed
  | enumNameDefinition
  | enumNameReference
  | aggregateNameUnnamed
  | aggregateNameDefinition
  | aggregateNameReference
  | declaringList
  | declaringListMore
  deriving DecidableEq, Repr

section

variable (st : ParserState)

/-- The stack with its top replaced by the value of a reduction. -/
def ParserState.push (rest : List Symbol) (value : Symbol) : ParserState :=
  { st with stack := value :: rest }

def reduceEnumerator (node : Option String) (value : Value) (rest : List Symbol) :
    Option ParserState :=
  match st.isLocal, node with
  | true, _ => some (st.push rest (.enumerator none))
  | false, some name =>
    some ((st.newEnumerator name value).push rest (.enumerator (some st.enumeratorCount)))
  | false, none => none

def reduceEnumeratorList (pEnum : Option ℕ) (rest : List Symbol) : Option ParserState :=
  match st.isLocal, pEnum with
  | true, _ => some (st.push rest (.enumeratorList none))
  | false, some e =>
    let value := (st.enumeratorAt e).value
    let value := if value.undef then { value with undef := false, iv := 0 } else value
    some ((st.setEnumerator e value).push rest (.enumeratorList (some [e])))
  | false, none => none

/-- An enumerator without a value is one more than the one before it. -/
def reduceEnumeratorListMore (list : Option (List ℕ)) (pEnum : Option ℕ) (rest : List Symbol) :
    Option ParserState :=
  match st.isLocal, list, pEnum with
  | true, _, _ => some (st.push rest (.enumeratorList none))
  | false, some es, some e =>
    let value := (st.enumeratorAt e).value
    let value := if value.undef then
        match es.getLast? with
        | some last => { (st.enumeratorAt last).value with iv := (st.enumeratorAt last).value.iv + 1 }
        | none => value
      else value
    some ((st.setEnumerator e value).push rest (.enumeratorList (some (es ++ [e]))))
  | false, _, _ => none

def reduceEnumNameUnnamed (ctx : ContextInfo) (list : Option (List ℕ)) (rest : List Symbol) :
    Option ParserState :=
  if st.isLocal then
    some ((st.destroyEnumerators (list.getD [])).push rest (.typeSpec false none))
  else match list with
    | some es =>
      let spec := enumspecUpdate (enumspecNew "" ctx) (st.enumerators es)
      some (({ st with enums := st.enums ++ [⟨spec, es⟩] } : ParserState).push rest
        (.typeSpec false (some (.enum st.enums.length))))
    | none => none

/-- A definition of a tag: the tag may be new, declared without enumerators so
far, or defined, in which case the new enumerators are deleted. -/
def reduceEnumNameDefinition (ctx : ContextInfo) (node : Option String)
    (list : Option (List ℕ)) (rest : List Symbol) : Option ParserState :=
  match st.isLocal, node, list with
  | true, _, _ => some (st.push rest (.typeSpec false none))
  | false, some tag, some es =>
    match st.htEnums tag with
    | none =>
      let spec := enumspecUpdate (enumspecNew tag ctx) (st.enumerators es)
      some (({ st with
          enums := st.enums ++ [⟨spec, es⟩]
          htEnums := htStore st.htEnums tag st.enums.length } : ParserState).push rest
        (.typeSpec false (some (.enum st.enums.length))))
    | some i =>
      match (st.enums[i]?).bind fun d => d.spec.enumerators with
      | none =>
        some (({ st with enums := st.enums.modify i fun d =>
            ⟨{ enumspecUpdate d.spec (st.enumerators es) with context := ctx }, es⟩ } :
              ParserState).push rest
          (.typeSpec false (some (.enum i))))
      | some _ =>
        some ((st.destroyEnumerators es).push rest (.typeSpec false (some (.enum i))))
  | false, _, _ => none

def reduceEnumNameReference (ctx : ContextInfo) (node : Option String) (rest : List Symbol) :
    Option ParserState :=
  match st.isLocal, node with
  | true, _ => some (st.push rest (.typeSpec false none))
  | false, some tag =>
    match st.htEnums tag with
    | none =>
      some (({ st with
          enums := st.enums ++ [⟨enumspecNew tag ctx, []⟩]
          htEnums := htStore st.htEnums tag st.enums.length } : ParserState).push rest
        (.typeSpec false (some (.enum st.enums.length))))
    | some i => some (st.push rest (.typeSpec false (some (.enum i))))
  | false, none => none

def reduceAggregateNameUnnamed (kind : CompoundKind) (ctx : ContextInfo)
    (list : Option (List StructDeclaration)) (rest : List Symbol) : ParserState :=
  if st.isLocal then st.push rest (.typeSpec false none)
  else ({ st with structs := st.structs ++ [structNew "" kind st.pack ctx list] } :
    ParserState).push rest
    (.typeSpec false (some (.compound kind st.structs.length)))

def reduceAggregateNameDefinition (kind : CompoundKind) (ctx : ContextInfo)
    (node : Option String) (list : Option (List StructDeclaration)) (rest : List Symbol) :
    Option ParserState :=
  match st.isLocal, node with
  | true, _ => some (st.push rest (.typeSpec false none))
  | false, some tag =>
    match st.htStructs tag with
    | none =>
      some (({ st with
          structs := st.structs ++ [structNew tag kind st.pack ctx list]
          htStructs := htStore st.htStructs tag st.structs.length } : ParserState).push rest
        (.typeSpec false (some (.compound kind st.structs.length))))
    | some i =>
      -- a tag without members so far is completed, and otherwise the members are deleted
      some (({ st with structs := st.structs.modify i fun s =>
          if s.declarations.isNone then
            { s with context := ctx, declarations := list, pack := st.pack }
          else s } : ParserState).push rest (.typeSpec false (some (.compound kind i))))
  | false, none => none

def reduceAggregateNameReference (kind : CompoundKind) (ctx : ContextInfo)
    (node : Option String) (rest : List Symbol) : Option ParserState :=
  match st.isLocal, node with
  | true, _ => some (st.push rest (.typeSpec false none))
  | false, some tag =>
    match st.htStructs tag with
    | none =>
      some (({ st with
          structs := st.structs ++ [structNew tag kind 0 ctx none]
          htStructs := htStore st.htStructs tag st.structs.length } : ParserState).push rest
        (.typeSpec false (some (.compound kind st.structs.length))))
    | some i => some (st.push rest (.typeSpec false (some (.compound kind i))))
  | false, none => none

/-- `declaring_list` and `default_declaring_list`: only typedefs are kept. -/
def reduceDeclaringList (isTypedef : Bool) (spec : Option TypeSpec) (pDecl : Option Declarator)
    (rest : List Symbol) : Option ParserState :=
  match st.isLocal, isTypedef with
  | true, _ | _, false => some (st.push rest (.declaringList none))
  | false, true =>
    match spec, pDecl with
    | some spec, some decl =>
      let st' : ParserState := { st with typedef_lists := st.typedef_lists ++ [⟨spec, []⟩] }
      some ((st'.makeTypedef st.typedef_lists.length spec decl).push rest
        (.declaringList (some st.typedef_lists.length)))
    | _, _ => none

def reduceDeclaringListMore (pTypedefList : Option ℕ) (pDecl : Option Declarator)
    (rest : List Symbol) : Option ParserState :=
  match pTypedefList with
  | none => some (st.push rest (.declaringList none))
  | some l =>
    match st.typedef_lists[l]?, pDecl with
    | some list, some decl =>
      some ((st.makeTypedef l list.type decl).push rest (.declaringList (some l)))
    | _, _ => none

/-- Reduction by one production, whose right hand side has to be on top of the stack. -/
def reduce : Production → Option ParserState
  | .enumerator =>
    match st.stack with
    | .name node :: rest => reduceEnumerator st node ⟨0, true, false⟩ rest
    | _ => none
  | .enumeratorWithValue =>
    match st.stack with
    | .constant value :: .token _ :: .name node :: rest => reduceEnumerator st node value rest
    | _ => none
  | .enumeratorList =>
    match st.stack with
    | .enumerator pEnum :: rest => reduceEnumeratorList st pEnum rest
    | _ => none
  | .enumeratorListMore =>
    match st.stack with
    | .enumerator pEnum :: .token _ :: .enumeratorList list :: rest =>
      reduceEnumeratorListMore st list pEnum rest
    | _ => none
  | .enumNameUnnamed =>
    match st.stack with
    | .token _ :: .other :: .enumeratorList list :: .token _ :: .enumKeyContext ctx :: rest =>
      reduceEnumNameUnnamed st ctx list rest
    | _ => none
  | .enumNameDefinition =>
    match st.stack with
    | .token _ :: .other :: .enumeratorList list :: .token _ :: .name node ::
        .enumKeyContext ctx :: rest =>
      reduceEnumNameDefinition st ctx node list rest
    | _ => none
  | .enumNameReference =>
    match st.stack with
    | .name node :: .enumKeyContext ctx :: rest => reduceEnumNameReference st ctx node rest
    | _ => none
  | .aggregateNameUnnamed =>
    match st.stack with
    | .token _ :: .memberDeclarations list :: .token _ :: .aggregateKeyContext kind ctx :: rest =>
      some (reduceAggregateNameUnnamed st kind ctx list rest)
    | _ => none
  | .aggregateNameDefinition =>
    match st.stack with
    | .token _ :: .memberDeclarations list :: .token _ :: .name node ::
        .aggregateKeyContext kind ctx :: rest =>
      reduceAggregateNameDefinition st kind ctx node list rest
    | _ => none
  | .aggregateNameReference =>
    match st.stack with
    | .name node :: .aggregateKeyContext kind ctx :: rest =>
      reduceAggregateNameReference st kind ctx node rest
    | _ => none
  | .declaringList =>
    match st.stack with
    | .other :: .other :: .declarator pDecl :: .typeSpec isTypedef spec :: rest =>
      reduceDeclaringList st isTypedef spec pDecl rest
    | _ => none
  | .declaringListMore =>
    match st.stack with
    | .other :: .other :: .declarator pDecl :: .token _ :: .declaringList pTypedefList :: rest =>
      reduceDeclaringListMore st pTypedefList pDecl rest
    | _ => none

end

/-- The steps of the parser. `other` is a reduction by a production that touches
no table: it takes some values off the stack, none of them an enumerator, and
leaves one. The pack pragma is read between tokens. `restart` is the next call of
the parser on the same tables. -/
inductive ParserStep where
  | shift (tok : Symbol)
  | reduce (p : Production)
  | other (n : ℕ) (value : Symbol)
  | setPack (pack : ℤ)
  | beginLocal
  | endLocal
  | accept
  | error
  | restart
  deriving DecidableEq, Repr

def Symbol.isToken : Symbol → Bool
  | .token _ | .identifier _ | .typeName _ => true
  | _ => false

/-- Without a production for errors the automaton pops its whole stack after a
syntax error, and destructs every value on it. -/
def destroyStack (st : ParserState) : ParserState :=
  { st.destroyEnumerators (st.stack.flatMap fun s => match s with
      | .enumeratorList (some es) => es
      | _ => []) with stack := [], returned := true }

def parserStep (st : ParserState) : ParserStep → Option ParserState
  | .shift tok =>
    if !st.returned && tok.isToken then some { st with stack := tok :: st.stack } else none
  | .reduce p => if st.returned then none else reduce st p
  | .other n value =>
    if !st.returned && value.isPlain && stackEnumerators (st.stack.take n) = [] then
      some { st with stack := value :: st.stack.drop n }
    else none
  | .setPack pack => if st.returned then none else some { st with pack := pack }
  | .beginLocal =>
    -- a function body starts where no enum is being defined
    if !st.returned && stackEnumerators st.stack = [] then some { st with isLocal := true } else none
  | .endLocal => if st.returned then none else some { st with isLocal := false }
  | .accept =>
    if !st.returned && st.stack = [.other] then some { st with stack := [], returned := true }
    else none
  | .error => if st.returned then none else some (destroyStack st)
  | .restart =>
    if st.returned then some { st with isLocal := false, returned := false } else none

end ConvertBinaryC
