import ConvertBinaryC.CBCMember

/-! What a member expression is checked for when it becomes a Dimension tag
(`check_allowed_types_string` of `cbc/type.c`, `validate_member_expression` of
`cbc/dimension.c`). -/
namespace ConvertBinaryC

/-- The `ALLOW_*` flags. -/
structure AllowedTypes where
  unions : Bool
  structs : Bool
  enums : Bool
  pointers : Bool
  arrays : Bool
  basic_types : Bool
  deriving DecidableEq, Repr

/-- `ALLOW_BASIC_TYPES` -/
def AllowedTypes.basicTypes : AllowedTypes := ⟨false, false, false, false, false, true⟩

/-- `CHECK_ALLOWED` -/
def checkAllowed (allowed : Bool) (string : String) : Option String :=
  if allowed then none else some string

/-- What a member is, below the level that it has come to. A typedef that is still left
is none of the types that can be refused. -/
def checkResolved (allowed : AllowedTypes) (pType : TypeSpec) (pDecl : Option Declarator)
    (level : ℕ) : Option String :=
  if pDecl.any fun pDecl => level < pDecl.dims.length then
    checkAllowed allowed.arrays "an array type"
  else if pDecl.any Declarator.pointer_flag then checkAllowed allowed.pointers "a pointer type"
  else match pType with
    | .basic _ => checkAllowed allowed.basic_types "a basic type"
    | .compound .union _ => checkAllowed allowed.unions "a union"
    | .compound .struct _ => checkAllowed allowed.structs "a struct"
    | .enum _ => checkAllowed allowed.enums "an enum"
    | .typedef _ => none

section Validate
variable (heap : Heap) (fuel : ℕ)

/-- `check_allowed_types_string`. Typedefs are only followed from a declarator that is
neither a pointer nor an array. -/
def checkAllowedTypesString (pMI : MemberInfo) (allowed : AllowedTypes) : Call (Option String) :=
  match pMI.type with
  | .typedef t =>
    if pMI.pDecl.all fun pDecl => !pDecl.pointer_flag && !pDecl.isArray then do
      let (pType, pDecl) ← gmTypedefs heap fuel t
      .ok (checkResolved allowed pType (some pDecl) 0)
    else .ok (checkResolved allowed pMI.type pMI.pDecl pMI.level)
  | _ => .ok (checkResolved allowed pMI.type pMI.pDecl pMI.level)

/-- `CBC_GM_ACCEPT_DOTLESS_MEMBER | CBC_GM_REJECT_OUT_OF_BOUNDS_INDEX |
CBC_GM_REJECT_OFFSET` -/
def dimensionFlags : GmFlags := ⟨true, false, false, true, true⟩

/-- The parent as the type that the expression starts at. -/
def parentInfo (s : ℕ) : MemberInfo := ⟨.compound (heap.structAt s).kind s, none, none, 0, 0, 0⟩

/-- Where a refused member is, for the message. -/
def memberWhere (offset tagged : ℤ) : String :=
  if offset = tagged then "located at same offset as"
  else if offset < tagged then "overlapping with"
  else "located behind"

/-- The checks after the type of the member is known. -/
def validateMember (pmi mi2 : MemberInfo) (member type : String) : Call Unit := do
  match ← checkAllowedTypesString heap fuel mi2 .basicTypes with
  | some failed_type =>
    .error (.croak ("Cannot use " ++ failed_type ++ " in member '" ++ member ++
      "' to determine a dimension for '" ++ type ++ "'"))
  | none => do
    let stop ← int (mi2.offset + i32 mi2.size)
    if stop > pmi.offset then
      .error (.croak ("Cannot use member '" ++ member ++ "' " ++
        memberWhere mi2.offset pmi.offset ++ " '" ++ type ++
        "' in layout to determine a dimension"))
    else .ok ()

/-- `validate_member_expression` -/
def validateMemberExpression (pmi : MemberInfo) (member type : String) : Call Unit :=
  match pmi.parent with
  | none =>
    .error (.croak ("Cannot use member expression '" ++ member ++ "' as Dimension tag for '" ++
      type ++ "' when not within a compound type"))
  | some s => do
    match ← getMember heap fuel dimensionFlags (parentInfo heap s) member with
    | some mi2 => validateMember heap fuel pmi mi2 member type
    | none => .error .undefinedBehaviour

end Validate

end ConvertBinaryC
