import ConvertBinaryC.CBCPackInfo

/-! C initializers for a type (`get_init_str_struct` and `get_init_str_type` of `cbc/init.c`). -/
namespace ConvertBinaryC

/-- `INDENT`, clamped to `MAXINDENT` tabs. -/
def initIndent (level : ℕ) : List Byte := List.replicate (min level 16) 9

/-- `ENTER_LEVEL` -/
def enterLevel (level : ℕ) : List Byte := initIndent level ++ textBytes "\x7b\n"

/-- `LEAVE_LEVEL` -/
def leaveLevel (level : ℕ) : List Byte := textBytes "\n" ++ initIndent level ++ textBytes "\x7d"

/-- `string` with the variable `first`; `done` is the jump to `handle_end`. -/
structure InitString where
  string : List Byte
  first : Bool
  done : Bool
  deriving DecidableEq, Repr

/-- `APPEND_COMMA` -/
def InitString.appendComma (st : InitString) : List Byte :=
  if st.first then st.string else st.string ++ textBytes ",\n"

def InitString.begin (string : List Byte) : InitString := ⟨string, true, false⟩

/-- `DEFINED` for a value that there may be. -/
def definedValue (init : Option SV) : Option SV := init.filter SV.defined

def initHash (init : Option SV) : Option Hash :=
  match definedValue init with
  | some (.hv entries) => some entries
  | _ => none

def initArray (init : Option SV) : List (Option SV) :=
  match definedValue init with
  | some (.av elems) => elems
  | _ => []

abbrev InitTypeFn := TypeSpec → Option Declarator → ℕ → Option SV → ℕ → List Byte → Call (List Byte)
abbrev InitStructFn := ℕ → Option SV → ℕ → List Byte → Call (List Byte)

section Steps
variable (perl : Perl) (heap : Heap) (fuel : ℕ) (initType : InitTypeFn) (initStruct : InitStructFn)

/-- The case `handle_basic`. -/
def initLeaf (init : Option SV) (level : ℕ) (string : List Byte) : List Byte :=
  string ++ initIndent level ++
    match definedValue init with
    | some sv => perl.stringOf sv
    | none => textBytes "0"

/-- Is there nothing to initialize: an unnamed bit-field, or a flexible array? -/
def initSkips (pDecl : Declarator) : Bool :=
  (pDecl.isBitfield && pDecl.identifier == "") || (pDecl.isArray && pDecl.size == 0)

/-- Of a union only the first member is initialized. -/
def initMember (kind : CompoundKind) (type : TypeSpec) (hash : Option Hash) (level : ℕ)
    (st : InitString) (pDecl : Declarator) : Call InitString :=
  if st.done || initSkips pDecl then .ok st
  else do
    let e := hash.bind fun h => h.lookup pDecl.identifier
    let string ← initType type (some pDecl) 0 e (level + 1) st.appendComma
    .ok ⟨string, false, kind = .union⟩

/-- An unnamed compound is initialized from the value of the compound around it. -/
def initDeclaration (kind : CompoundKind) (init : Option SV) (level : ℕ) (st : InitString)
    (pStructDecl : StructDeclaration) : Call InitString :=
  match pStructDecl.declarators with
  | some declarators =>
    declarators.foldlM (initMember initType kind pStructDecl.type (initHash init) level) st
  | none =>
    if st.done then .ok st
    else do
      let s ← followTsptr heap fuel pStructDecl.type
      let string ← initStruct s init (level + 1) st.appendComma
      .ok ⟨string, false, kind = .union⟩

/-- `get_init_str_struct` -/
def initStructStep : InitStructFn := fun s init level string => do
  let pStruct := heap.structAt s
  let st ← (pStruct.declarations.getD []).foldlM
    (initDeclaration heap fuel initType initStruct pStruct.kind init level)
    (InitString.begin (string ++ enterLevel level))
  .ok (st.string ++ leaveLevel level)

def initElement (pTS : TypeSpec) (pDecl : Declarator) (dimension : ℕ) (ary : List (Option SV))
    (level : ℕ) (st : InitString) (i : ℕ) : Call InitString := do
  let string ← initType pTS (some pDecl) (dimension + 1) (avFetch ary i) (level + 1) st.appendComma
  .ok ⟨string, false, false⟩

/-- `get_init_str_type` -/
def initTypeStep : InitTypeFn := fun pTS pDecl dimension init level string =>
  match pDecl.bind fun d => d.dims[dimension]?.map fun pValue => (d, pValue) with
  | some (d, pValue) => do
    let st ← (List.range pValue.iv.toNat).foldlM
      (initElement initType pTS d dimension (initArray init) level)
      (InitString.begin (string ++ enterLevel level))
    .ok (st.string ++ leaveLevel level)
  | none =>
    if pDecl.any Declarator.pointer_flag then .ok (initLeaf perl init level string)
    else match pTS with
      | .typedef t =>
        initType (heap.typedefAt t).type (some (heap.typedefAt t).decl) 0 init level string
      | .compound _ s => initStruct s init level string
      | _ => .ok (initLeaf perl init level string)

end Steps

section Recursion
variable (perl : Perl) (heap : Heap)

mutual

def initType : ℕ → InitTypeFn
  | 0 => fun _ _ _ _ _ _ => .error .outOfFuel
  | fuel + 1 => initTypeStep perl heap (initType fuel) (initStruct fuel)

def initStruct : ℕ → InitStructFn
  | 0 => fun _ _ _ _ => .error .outOfFuel
  | fuel + 1 => initStructStep heap fuel (initType fuel) (initStruct fuel)

end

end Recursion

end ConvertBinaryC
