import ConvertBinaryC.CBCMemberExpr
import ConvertBinaryC.CBCPackInfo

/-! Access to the members of a type by a compound member expression (`get_member` of
`cbc/member.c`). -/
namespace ConvertBinaryC

/-- A member that a search found: its offset, its type and its declarator. -/
structure FoundMember where
  offset : ℤ
  type : TypeSpec
  pDecl : Declarator
  deriving DecidableEq, Repr

section Search
variable (heap : Heap) (fuel : ℕ) (search : ℕ → Call (Option FoundMember)) (elem : String)

/-- The loop of `search_struct_member`, over the search in an unnamed compound. -/
def searchDeclarations : List StructDeclaration → Call (Option FoundMember)
  | [] => .ok none
  | pStructDecl :: declarations =>
    match pStructDecl.declarators with
    | some declarators =>
      match declarators.find? fun pDecl => pDecl.identifier = elem with
      | some pDecl => .ok (some ⟨pDecl.offset, pStructDecl.type, pDecl⟩)
      | none => searchDeclarations declarations
    | none => do
      let s ← followTsptr heap fuel pStructDecl.type
      match ← search s with
      | some found => do
        let offset ← int (pStructDecl.offset + found.offset)
        .ok (some { found with offset := offset })
      | none => searchDeclarations declarations

end Search

/-- `search_struct_member`; a negative offset counts as 0. -/
def searchStructMember (heap : Heap) (elem : String) : ℕ → ℕ → Call (Option FoundMember)
  | 0, _ => .error .outOfFuel
  | fuel + 1, s => do
    let found ← searchDeclarations heap fuel (searchStructMember heap elem fuel) elem
      ((heap.structAt s).declarations.getD [])
    .ok (found.map fun found => { found with offset := max 0 found.offset })

/-- `flags` is left out. -/
structure MemberInfo where
  type : TypeSpec
  parent : Option ℕ
  pDecl : Option Declarator
  level : ℕ
  offset : ℤ
  size : ℤ
  deriving DecidableEq, Repr

/-- The `CBC_GM_*` flags. -/
structure GmFlags where
  accept_dotless_member : Bool
  dont_croak : Bool
  no_offset_size_calc : Bool
  reject_out_of_bounds_index : Bool
  reject_offset : Bool
  deriving DecidableEq, Repr

def GmFlags.none : GmFlags := ⟨false, false, false, false, false⟩

def GmFlags.do_calc (flags : GmFlags) : Bool := !flags.no_offset_size_calc

/-- The local variables of `get_member`. -/
structure GmState where
  pType : TypeSpec
  pDecl : Option Declarator
  pStruct : Option ℕ
  name : Option String
  level : ℕ
  offset : ℤ
  size : ℤ
  deriving DecidableEq, Repr

/-- `err` and the jump to `error`. -/
def gmError {α : Type} (err : String) : Call α := .error (.croak err)

/-- `%02X` for a char, which is signed. -/
def hexChar (c : Char) : String :=
  let digit (n : ℕ) : Char := ("0123456789ABCDEF".toList).getD n '0'
  let low := String.ofList [digit (c.toNat / 16 % 16), digit (c.toNat % 16)]
  if c.toNat < 128 then low else "FFFFFF" ++ low

def invalidChar (c : Char) : String :=
  "Invalid character '" ++ c.toString ++ "' (0x" ++ hexChar c ++ ") in compound member expression"

/-- `TRUNC_NAME`: of a name of 20 characters the end is not copied. -/
def truncName (name : String) : Call String :=
  if name.length < 20 then .ok name
  else if name.length = 20 then .error .undefinedBehaviour
  else .ok (String.ofList (name.toList.take 17) ++ "...")

/-- The first switch of the loop. -/
def walkFault : MeWalkInfo → Option Fault
  | .errInvalidMemberStart =>
    some (.croak "Struct members must start with a character or an underscore")
  | .errInvalidIndex => some (.croak "Array indices must be constant decimal values")
  | .errInvalidChar c => some (.croak (invalidChar c))
  | .errIndexNotTerminated => some (.croak "Index operator not terminated correctly")
  | .errIncomplete => some (.croak "Incomplete compound member expression")
  | .errTerminated => some (.fatal "member expression already terminated in get_member()")
  | _ => none

/-- Division of an int that is stored as an int. -/
def divideInt (size dim : ℤ) : Call ℤ :=
  if dim = 0 then .error .divideByZero else .ok (i32 (size.tdiv dim))

/-- The size of what is left of a declarator below `level` of its dimensions. -/
def levelSize (pDecl : Declarator) (level : ℕ) : Call ℤ :=
  if level = 0 then .ok pDecl.size
  else if pDecl.size < 0 then .error (.fatal "pDecl->size is not initialized in get_member()")
  else if pDecl.dims.length < level then .error .undefinedBehaviour
  else (pDecl.dims.take level).foldlM (fun size pValue => divideInt size pValue.iv) pDecl.size

section GetMember
variable (heap : Heap) (fuel : ℕ) (flags : GmFlags)

/-- A typedef without a declarator of its own stands for its own one. -/
def gmBase (pMI : MemberInfo) : TypeSpec × Option Declarator :=
  match pMI.pDecl, pMI.type with
  | none, .typedef t => ((heap.typedefAt t).type, some (heap.typedefAt t).decl)
  | pDecl, pType => (pType, pDecl)

def gmStartSize (pDecl : Option Declarator) (level : ℕ) : Call ℤ :=
  if flags.do_calc then
    match pDecl with
    | some pDecl => levelSize pDecl level
    | none => .ok (-1)
  else .ok 0

/-- The variables before the loop. -/
def gmStart (pMI : MemberInfo) : Call GmState := do
  let base := gmBase heap pMI
  let size ← gmStartSize flags base.2 pMI.level
  .ok ⟨base.1, base.2, none, none, pMI.level, 0, size⟩

/-- The loop over typedefs, from the typedef that the type is. -/
def gmTypedefs : ℕ → ℕ → Call (TypeSpec × Declarator)
  | 0, _ => .error .outOfFuel
  | fuel + 1, t =>
    let pTypedef := heap.typedefAt t
    match pTypedef.type with
    | .typedef t' =>
      if pTypedef.decl.pointer_flag = false ∧ pTypedef.decl.isArray = false then gmTypedefs fuel t'
      else .ok (pTypedef.type, pTypedef.decl)
    | _ => .ok (pTypedef.type, pTypedef.decl)

/-- Below the last dimension a typedef is replaced by what it stands for. -/
def gmResolve (st : GmState) : Call GmState :=
  match st.pDecl, st.pType with
  | some pDecl, .typedef t =>
    if pDecl.pointer_flag = false ∧ st.level = pDecl.dims.length then do
      let (pType, pDecl) ← gmTypedefs heap fuel t
      .ok { st with
        pType := pType
        pDecl := some pDecl
        size := if flags.do_calc then pDecl.size else st.size
        level := 0 }
    else .ok st
  | _, _ => .ok st

/-- `CANNOT_ACCESS_MEMBER` -/
def cannotAccess {α : Type} (type name : String) : Call α := do
  let trunc ← truncName name
  gmError ("Cannot access member '" ++ trunc ++ "' of " ++ type ++ " type")

/-- The compound that a member is accessed in. -/
def gmCompound (st : GmState) (name : String) : Call ℕ :=
  if st.pDecl.any fun pDecl => st.level < pDecl.dims.length then cannotAccess "array" name
  else if st.pDecl.any Declarator.pointer_flag then cannotAccess "pointer" name
  else match st.pType with
    | .compound _ s => .ok s
    | _ => cannotAccess "non-compound" name

/-- The case of a compound member. -/
def gmMember (dotless : Bool) (st : GmState) (name : String) (has_dot : Bool) : Call GmState :=
  if !dotless && !has_dot then gmError (invalidChar (name.toList.headD ' '))
  else do
    let s ← gmCompound st name
    match ← searchStructMember heap name fuel s with
    | none => do
      let trunc ← truncName name
      gmError ("Cannot find " ++ (match (heap.structAt s).kind with
        | .struct => "struct"
        | .union => "union") ++ " member '" ++ trunc ++ "'")
    | some found => do
      let offset ← (if flags.do_calc then int (st.offset + found.offset) else .ok st.offset : Call ℤ)
      .ok { st with
        pType := found.type
        pDecl := some found.pDecl
        pStruct := some s
        name := some name
        level := 0
        offset := offset
        size := if flags.do_calc then found.pDecl.size else st.size }

/-- What is indexed too often. -/
def cannotIndex {α : Type} (name : Option String) (what : String) : Call α :=
  match name with
  | some name => do
    let trunc ← truncName name
    gmError ("Cannot use '" ++ trunc ++ "' as " ++ what)
  | none => gmError ("Cannot use type as " ++ what)

/-- The size of an element, for an array of this size. -/
def gmElementSize (pDecl : Declarator) (pValue : Value) (level : ℕ) (size index : ℤ) : Call ℤ :=
  if pValue.undef then
    if flags.do_calc then
      if pDecl.item_size ≤ 0 then
        .error (.fatal "pDecl->item_size is not initialized in get_member()")
      else elementStride pDecl level
    else .ok size
  else
    let dim := i32 pValue.iv
    if flags.reject_out_of_bounds_index ∧ index < 0 then
      gmError ("Cannot use negative index " ++ toString index ++ " into array")
    else if flags.reject_out_of_bounds_index ∧ index ≥ dim then
      gmError ("Cannot use index " ++ toString index ++ " into array of size " ++ toString dim)
    else if flags.do_calc then
      if size < 0 then .error (.fatal "size is not initialized in get_member()")
      else divideInt size dim
    else .ok size

def gmOffset (offset size index : ℤ) : Call ℤ :=
  if flags.do_calc then
    if size < 0 then .error (.fatal "size is not initialized in get_member()")
    else do
      let distance ← int (index * size)
      int (offset + distance)
  else .ok offset

/-- The case of an array index. -/
def gmIndex (st : GmState) (index : ℤ) : Call GmState :=
  match st.pDecl with
  | none => cannotIndex st.name "an array"
  | some pDecl =>
    if st.level = 0 ∧ pDecl.isArray = false then cannotIndex st.name "an array"
    else match pDecl.dims[st.level]? with
      | none => cannotIndex st.name ("a " ++ toString (st.level + 1) ++ "-dimensional array")
      | some pValue => do
        let size ← gmElementSize flags pDecl pValue st.level st.size index
        let offset ← gmOffset flags st.offset size index
        .ok { st with size := size, offset := offset, level := st.level + 1 }

/-- One turn of the loop; a member without a dot is accepted only by the first. -/
def gmStep (dotless : Bool) (st : GmState) (mei : MeWalkInfo) : Call GmState := do
  let st ← gmResolve heap fuel flags st
  match mei with
  | .compoundMember name has_dot => gmMember heap fuel flags dotless st name has_dot
  | .arrayIndex index => gmIndex flags st index
  | .offset n =>
    if flags.reject_offset then gmError "Cannot use offset in compound member expression"
    else do
      let offset ← (if flags.do_calc then int (st.offset + n) else .ok st.offset : Call ℤ)
      .ok { st with offset := offset }
  | _ => .error (.fatal "unexpected retval in get_member()")

/-- The loop over what the walker reports. -/
def gmWalk (dotless : Bool) (st : GmState) : List MeWalkInfo → Call GmState
  | [] => .ok st
  | mei :: rest =>
    if mei = .finished then .ok st
    else match walkFault mei with
      | some e => .error e
      | none => do
        let st ← gmStep heap fuel flags dotless st mei
        gmWalk false st rest

/-- `get_member`; `none` is the return value 0 of `CBC_GM_DONT_CROAK`. -/
def getMember (pMI : MemberInfo) (member : String) : Call (Option MemberInfo) :=
  let found : Call GmState := do
    let st ← gmStart heap flags pMI
    gmWalk heap fuel flags flags.accept_dotless_member st (memberExpr member.toList)
  match found with
  | .ok st => .ok (some ⟨st.pType, st.pStruct, st.pDecl, st.level, st.offset, u32 st.size⟩)
  | .error (.croak err) => if flags.dont_croak then .ok none else .error (.croak err)
  | .error e => .error e

end GetMember

end ConvertBinaryC
