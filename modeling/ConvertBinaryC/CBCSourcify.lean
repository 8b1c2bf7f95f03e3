import ConvertBinaryC.CTLibPragma

/-! Writing a parsed type database back as C source (`cbc/sourcify.c`). The text
is a list of pieces: the pragmas and the braces of compound and enum bodies are
pieces of their own, everything else is plain text. -/
namespace ConvertBinaryC

inductive Piece where
  | text (s : String)
  | packPush (n : ℤ)
  | packPop
  | bodyOpen (pStruct : ℕ)
  | bodyClose (pStruct : ℕ)
  | enumOpen (pES : ℕ)
  | enumClose (pES : ℕ)
  deriving DecidableEq, Repr

def Piece.render : Piece → String
  | .text s => s
  | .packPush n => "#pragma pack(push, " ++ toString n ++ ")\n"
  | .packPop => "#pragma pack(pop)\n"
  | .bodyOpen _ => "\x7b\n"
  | .bodyClose _ => "\x7d"
  | .enumOpen _ => "\x7b"
  | .enumClose _ => "\x7d"

structure SourcifyConfig where
  context : Bool
  defines : Bool
  deriving DecidableEq, Repr

/-- The flags `F_NEWLINE`, `F_KEYWORD`, `F_DONT_EXPAND` and `F_PRAGMA_PACK_POP`,
and the pack value of the enclosing body. -/
structure SourcifyState where
  newline : Bool
  keyword : Bool
  dontExpand : Bool
  pragmaPackPop : Bool
  pack : ℤ
  deriving DecidableEq, Repr

def SourcifyState.initial : SourcifyState := ⟨false, false, false, false, 0⟩

/-- The two buffers of the recursion, `str` for complete definitions and `s` for
the one being written, and the objects marked `T_ALREADY_DUMPED`. -/
structure Dump where
  str : List Piece
  s : List Piece
  enumDumped : ℕ → Bool
  structDumped : ℕ → Bool

def Dump.cat (d : Dump) (pieces : List Piece) : Dump := { d with s := d.s ++ pieces }

def Dump.catStr (d : Dump) (pieces : List Piece) : Dump := { d with str := d.str ++ pieces }

def Dump.markStruct (d : Dump) (id : ℕ) : Dump :=
  { d with structDumped := Function.update d.structDumped id true }

def Dump.markEnum (d : Dump) (id : ℕ) : Dump :=
  { d with enumDumped := Function.update d.enumDumped id true }

/-- `add_indent`, clamped to `MAXINDENT` tabs. -/
def addIndent (level : ℕ) : List Piece :=
  [.text (String.ofList (List.replicate (min level 16) '\t'))]

def srcIndent (level : ℕ) : List Piece := if 0 < level then addIndent level else []

/-- Start a new line unless the text already stands at the start of one. -/
def beginLine (ss : SourcifyState) : List Piece × SourcifyState :=
  if ss.newline then ([], ss)
  else ([.text "\n"], { ss with keyword := false, newline := true })

def checkSetKeyword (level : ℕ) (ss : SourcifyState) : List Piece × SourcifyState :=
  (if ss.keyword then [.text " "] else srcIndent level,
    { ss with newline := false, keyword := true })

def contextLine (pSC : SourcifyConfig) (context : ContextInfo) (ss : SourcifyState) :
    List Piece × SourcifyState :=
  if pSC.context then
    let line := beginLine ss
    (line.1 ++ [.text ("#line " ++ toString context.line ++ " \"" ++ context.file ++ "\"\n")],
      line.2)
  else ([], ss)

def pragmaLine (packPushed : Bool) (pack : ℤ) (ss : SourcifyState) :
    List Piece × SourcifyState :=
  if packPushed then
    let line := beginLine ss
    (line.1 ++ [.packPush pack], line.2)
  else ([], ss)

/-- The keyword of a compound or an enum and its identifier, if it has one. -/
def keywordText (level : ℕ) (keyword identifier : String) (ss : SourcifyState) :
    List Piece × SourcifyState :=
  ((if ss.keyword then [.text " "] else srcIndent level) ++ [.text keyword] ++
      (if identifier = "" then [] else [.text (" " ++ identifier)]),
    { ss with newline := false, keyword := false })

def CompoundKind.keyword : CompoundKind → String
  | .struct => "struct"
  | .union => "union"

def basicTypeSpec : List (TFlags × String) :=
  [(T_SIGNED, "signed"), (T_UNSIGNED, "unsigned"), (T_SHORT, "short"), (T_LONGLONG, "long"),
    (T_LONG, "long"), (T_VOID, "void"), (T_CHAR, "char"), (T_INT, "int"), (T_FLOAT, "float"),
    (T_DOUBLE, "double")]

def getBasicTypeSpecString (tflags : TFlags) : String :=
  " ".intercalate ((basicTypeSpec.filter fun spec => tflags.test spec.1).map Prod.snd)

def arraySuffix (dims : List Value) : String :=
  String.join (dims.map fun v => if v.undef then "[]" else "[" ++ toString v.iv ++ "]")

def declaratorString (d : Declarator) : String :=
  (if d.pointer_flag then "*" else "") ++ d.identifier ++ arraySuffix d.dims

def memberDeclaratorString (d : Declarator) : String :=
  match d.ext with
  | .bitfield info => d.identifier ++ ":" ++ toString info.bits
  | _ => declaratorString d

def declaratorList (ds : List Declarator) : String :=
  ", ".intercalate (ds.map memberDeclaratorString)

/-- Does a declaration need its type to be complete? -/
def StructDeclaration.needDef (sd : StructDeclaration) : Bool :=
  (sd.declarators.getD []).any fun d => !d.pointer_flag

/-- One line for each enumerator; the value is written where it is not the
previous one plus one. -/
def enumeratorLines (level : ℕ) : Bool → ℤ → List Enumerator → List Piece
  | _, _, [] => []
  | first, lastVal, e :: es =>
    (if first then [] else [.text ","]) ++ [.text "\n"] ++ srcIndent level ++
      [.text (if (first = true ∧ e.value.iv = 0) ∨ (first = false ∧ e.value.iv = lastVal + 1) then
          "\t" ++ e.identifier
        else "\t" ++ e.identifier ++ " = " ++ toString e.value.iv)] ++
      enumeratorLines level false e.value.iv es

def addEnumSpecStringRec (pCPI : CParseInfo) (pSC : SourcifyConfig) (d : Dump)
    (ss : SourcifyState) (id : ℕ) (level : ℕ) : Dump × SourcifyState :=
  let pES := pCPI.heap.enumAt id
  let line := contextLine pSC pES.context ss
  let head := keywordText level "enum" pES.identifier line.2
  let d := ((d.markEnum id).cat line.1).cat head.1
  match pES.enumerators with
  | none => (d, head.2)
  | some es =>
    (d.cat ([.text "\n"] ++ srcIndent level ++ [.enumOpen id] ++ enumeratorLines level true 0 es ++
      [.text "\n"] ++ srcIndent level ++ [.enumClose id]), head.2)

def addEnumSpecString (pCPI : CParseInfo) (pSC : SourcifyConfig) (d : Dump) (id : ℕ) : Dump :=
  let r := addEnumSpecStringRec pCPI pSC { d with s := [] } .initial id 0
  { r.1 with str := r.1.str ++ r.1.s ++ [.text ";\n"], s := d.s }

/-- The loop of `check_define_type`: the type that a chain of typedefs without
pointers ends in, `none` if a pointer typedef stops it. -/
def resolveTypedef (heap : Heap) : ℕ → ℕ → Call (Option TypeSpec)
  | 0, _ => .error .outOfFuel
  | fuel + 1, t =>
    let pTypedef := heap.typedefAt t
    if pTypedef.decl.pointer_flag then .ok none
    else match pTypedef.type with
      | .typedef t' => resolveTypedef heap fuel t'
      | spec => .ok (some spec)

def definedType (heap : Heap) (fuel : ℕ) : TypeSpec → Call (Option TypeSpec)
  | .typedef t => resolveTypedef heap fuel t
  | spec => .ok (some spec)

section

variable (pCPI : CParseInfo) (pSC : SourcifyConfig) (tfuel : ℕ)
  (rec : Dump → SourcifyState → ℕ → ℕ → Call (Dump × SourcifyState))

/-- The compound in a buffer of its own, appended to `str` when complete. -/
def addStructSpecString (d : Dump) (id : ℕ) : Call Dump := do
  let r ← rec { d with s := [] } .initial id 0
  let tail := [Piece.text ";\n"] ++ if r.2.pragmaPackPop then [.packPop] else []
  .ok { r.1 with str := r.1.str ++ r.1.s ++ tail, s := d.s }

def checkDefineType (d : Dump) (pTS : TypeSpec) : Call Dump := do
  match ← definedType pCPI.heap tfuel pTS with
  | some (.enum id) => if d.enumDumped id then .ok d else .ok (addEnumSpecString pCPI pSC d id)
  | some (.compound _ id) => if d.structDumped id then .ok d else addStructSpecString rec d id
  | _ => .ok d

def addTypeSpecStringRec (d : Dump) (ss : SourcifyState) (pTS : TypeSpec) (level : ℕ) :
    Call (Dump × SourcifyState) :=
  match pTS with
  | .typedef t =>
    let identifier := (pCPI.heap.typedefAt t).decl.identifier
    if identifier = "" then .ok (d, ss)
    else
      let k := checkSetKeyword level ss
      .ok (d.cat (k.1 ++ [.text identifier]), k.2)
  | .enum id =>
    let identifier := (pCPI.heap.enumAt id).identifier
    if identifier ≠ "" ∧ (d.enumDumped id = true ∨ ss.dontExpand = true) then
      let k := checkSetKeyword level ss
      .ok (d.cat (k.1 ++ [.text ("enum " ++ identifier)]), k.2)
    else .ok (addEnumSpecStringRec pCPI pSC d ss id level)
  | .compound kind id =>
    let identifier := (pCPI.heap.structAt id).identifier
    if identifier ≠ "" ∧ (d.structDumped id = true ∨ ss.dontExpand = true) then
      let k := checkSetKeyword level ss
      .ok (d.cat (k.1 ++ [.text (kind.keyword ++ " " ++ identifier)]), k.2)
    else rec d ss id level
  | .basic tflags =>
    let k := checkSetKeyword level ss
    .ok (d.cat (k.1 ++ [.text (getBasicTypeSpecString tflags)]), k.2)

/-- One pass of the loop over the declarations of a compound at `level`. -/
def addStructDeclString (packPushed : Bool) (pack : ℤ) (level : ℕ) (d : Dump)
    (sd : StructDeclaration) : Call Dump := do
  let ss : SourcifyState :=
    ⟨true, false, !sd.needDef, false, if packPushed then pack else 0⟩
  let r ← addTypeSpecStringRec pCPI pSC rec d ss sd.type (level + 1)
  let gap := if r.2.newline then addIndent (level + 1)
    else if sd.declarators.isSome then [.text " "] else []
  let d := r.1.cat (gap ++ [.text (declaratorList (sd.declarators.getD []))] ++ [.text ";\n"] ++
    if r.2.pragmaPackPop then [.packPop] else [])
  if sd.needDef then checkDefineType pCPI pSC tfuel rec d sd.type else .ok d

def addStructSpecStringBody (d : Dump) (ss : SourcifyState) (id : ℕ) (level : ℕ) :
    Call (Dump × SourcifyState) := do
  let pStruct := pCPI.heap.structAt id
  let packPushed := pStruct.declarations.isSome && pStruct.pack != 0 && pStruct.pack != ss.pack
  let push := pragmaLine packPushed pStruct.pack ss
  let line := contextLine pSC pStruct.context push.2
  let head := keywordText level pStruct.kind.keyword pStruct.identifier line.2
  let ss := { head.2 with pragmaPackPop := head.2.pragmaPackPop || packPushed }
  let d := (d.markStruct id).cat (push.1 ++ line.1 ++ head.1)
  match pStruct.declarations with
  | none => .ok (d, ss)
  | some sds =>
    let d := d.cat ([.text "\n"] ++ srcIndent level ++ [.bodyOpen id])
    let d ← sds.foldlM (addStructDeclString pCPI pSC tfuel rec packPushed pStruct.pack level) d
    .ok (d.cat (srcIndent level ++ [.bodyClose id]), ss)

end

/-- The recursion of `add_struct_spec_string_rec` through the types of members. -/
def addStructSpecStringRec (pCPI : CParseInfo) (pSC : SourcifyConfig) (tfuel : ℕ) :
    ℕ → Dump → SourcifyState → ℕ → ℕ → Call (Dump × SourcifyState)
  | 0 => fun _ _ _ _ => .error .outOfFuel
  | fuel + 1 =>
    addStructSpecStringBody pCPI pSC tfuel (addStructSpecStringRec pCPI pSC tfuel fuel)

section

variable (pCPI : CParseInfo) (pSC : SourcifyConfig)
  (rec : Dump → SourcifyState → ℕ → ℕ → Call (Dump × SourcifyState))

def typedefListDecl (pTDL : TypedefList) : String :=
  ", ".intercalate (pTDL.typedefs.map fun t => declaratorString (pCPI.heap.typedefAt t).decl)

def addTypedefListSpecString (d : Dump) (pTDL : TypedefList) : Call Dump := do
  let r ← addTypeSpecStringRec pCPI pSC rec { d with s := [.text "typedef"] }
    ⟨false, true, false, false, 0⟩ pTDL.type 0
  let tail := (if r.2.newline then [] else [Piece.text " "]) ++
    [.text (typedefListDecl pCPI pTDL)] ++ [.text ";\n"] ++
    if r.2.pragmaPackPop then [.packPop] else []
  .ok { r.1 with str := r.1.str ++ r.1.s ++ tail, s := d.s }

/-- A heading is written before the first entry of its part of the text. -/
def heading (title : String) (d : Dump × Bool) : Dump :=
  if d.2 then d.1 else d.1.catStr [.text title]

def typedefPredeclaration (d : Dump × Bool) (pTDL : TypedefList) : Call (Dump × Bool) :=
  let named (keyword identifier : String) : Call (Dump × Bool) :=
    if identifier = "" then .ok d
    else .ok ((heading "/* typedef predeclarations */\n\n" d).catStr
      [.text ("typedef " ++ keyword ++ " " ++ identifier ++ " "),
        .text (typedefListDecl pCPI pTDL), .text ";\n"], true)
  match pTDL.type with
  | .basic _ => do
    let d ← addTypedefListSpecString pCPI pSC rec
      (heading "/* typedef predeclarations */\n\n" d) pTDL
    .ok (d, true)
  | .enum id => named "enum" (pCPI.heap.enumAt id).identifier
  | .compound _ id =>
    named (pCPI.heap.structAt id).kind.keyword (pCPI.heap.structAt id).identifier
  | .typedef _ => .ok d

def typedefDefinition (d : Dump × Bool) (pTDL : TypedefList) : Call (Dump × Bool) :=
  let wanted := match pTDL.type with
    | .basic _ => false
    | .enum id => (pCPI.heap.enumAt id).identifier == ""
    | .compound _ id => (pCPI.heap.structAt id).identifier == ""
    | .typedef _ => true
  if wanted then do
    let d ← addTypedefListSpecString pCPI pSC rec (heading "\n\n/* typedefs */\n\n" d) pTDL
    .ok (d.catStr [.text "\n"], true)
  else .ok d

def definedEnum (d : Dump × Bool) (id : ℕ) : Dump × Bool :=
  let pES := pCPI.heap.enumAt id
  if pES.enumerators.isSome && pES.identifier != "" && !d.1.enumDumped id then
    ((addEnumSpecString pCPI pSC (heading "\n/* defined enums */\n\n" d) id).catStr [.text "\n"],
      true)
  else d

def definedStruct (d : Dump × Bool) (id : ℕ) : Call (Dump × Bool) :=
  let pStruct := pCPI.heap.structAt id
  if pStruct.declarations.isSome && pStruct.identifier != "" && !d.1.structDumped id then do
    let d ← addStructSpecString rec (heading "\n/* defined structs and unions */\n\n" d) id
    .ok (d.catStr [.text "\n"], true)
  else .ok d

/-- The last two loops also clear the mark of every object they come by. -/
def undefinedEnum (d : Dump × Bool) (id : ℕ) : Dump × Bool :=
  let pES := pCPI.heap.enumAt id
  let d := if !d.1.enumDumped id && pES.refcount == 0 &&
      (pES.enumerators.isSome || pES.identifier != "") then
      ((addEnumSpecString pCPI pSC (heading "\n/* undefined enums */\n\n" d) id).catStr
        [.text "\n"], true)
    else d
  ({ d.1 with enumDumped := Function.update d.1.enumDumped id false }, d.2)

def undefinedStruct (d : Dump × Bool) (id : ℕ) : Call (Dump × Bool) := do
  let pStruct := pCPI.heap.structAt id
  let d ← (if !d.1.structDumped id && pStruct.refcount == 0 &&
      (pStruct.declarations.isSome || pStruct.identifier != "") then do
      let d ← addStructSpecString rec
        (heading "\n/* undefined/unnamed structs and unions */\n\n" d) id
      .ok (d.catStr [.text "\n"], true)
    else .ok d : Call (Dump × Bool))
  .ok ({ d.1 with structDumped := Function.update d.1.structDumped id false }, d.2)

end

/-- `macros` are the definitions that `macro_iterate_defs` visits. -/
def preprocessorDefinitions (macros : List String) : List Piece :=
  if macros = [] then []
  else [.text "/* preprocessor defines */\n\n"] ++
    macros.map (fun m => .text ("#define " ++ m ++ "\n")) ++ [.text "\n"]

/-- The whole text and the marks left behind, from the marks found. -/
def getParsedDefinitions (fuel : ℕ) (pCPI : CParseInfo) (pSC : SourcifyConfig)
    (macros : List String) (enumDumped : ℕ → Bool) (structDumped : ℕ → Bool) :
    Call Dump := do
  let expand := addStructSpecStringRec pCPI pSC fuel fuel
  let d : Dump := ⟨[], [], enumDumped, structDumped⟩
  let d ← pCPI.typedef_lists.foldlM (typedefPredeclaration pCPI pSC expand) (d, false)
  let d ← pCPI.typedef_lists.foldlM (typedefDefinition pCPI pSC expand) (d.1, false)
  let d := pCPI.enums.foldl (definedEnum pCPI pSC) (d.1, false)
  let d ← pCPI.structs.foldlM (definedStruct pCPI expand) (d.1, false)
  let d := pCPI.enums.foldl (undefinedEnum pCPI pSC) (d.1, false)
  let d ← pCPI.structs.foldlM (undefinedStruct pCPI expand) (d.1, false)
  .ok (d.1.catStr (if pSC.defines then preprocessorDefinitions macros else []))

/-- The string that the `sourcify` method returns. -/
def getParsedDefinitionsString (fuel : ℕ) (pCPI : CParseInfo) (pSC : SourcifyConfig)
    (macros : List String) (enumDumped : ℕ → Bool) (structDumped : ℕ → Bool) :
    Call String := do
  let d ← getParsedDefinitions fuel pCPI pSC macros enumDumped structDumped
  .ok (String.join (d.str.map Piece.render))

end ConvertBinaryC
