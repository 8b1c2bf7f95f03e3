import ConvertBinaryC.CBCMember

/-! All members of a type, by the expressions that name them (`get_ams_struct`, `get_ams_type` and
`get_all_member_strings` of `cbc/member.c`). -/
namespace ConvertBinaryC

/-- A list is filled when there is a name to fill it with, and otherwise the members are counted. -/
structure AMSInfo where
  list : List String
  count : ℤ
  deriving DecidableEq, Repr

/-- The digits of an index, written backwards in front of `text`; `room` is what is left of the
buffer. The character in front of them all is never written. -/
def indexDigits : ℕ → ℕ → List Char → Call (List Char)
  | 0, _, _ => .error .undefinedBehaviour
  | room + 1, ix, text =>
    let text := Char.ofNat ('0'.toNat + ix % 10) :: text
    if ix < 10 then .ok text else indexDigits room (ix / 10) text

/-- The name of an element; the buffer is one of `MAX_IXSTR` characters. -/
def elementName (name : Option String) (i : ℕ) : Call (Option String) :=
  match name with
  | none => .ok none
  | some name => do
    let ixstr ← indexDigits 13 i [']']
    .ok (some (name ++ "[" ++ String.ofList ixstr))

/-- A member of the object that `name` stands for. -/
def memberName (name : Option String) (pDecl : Declarator) : Option String :=
  name.map fun name => name ++ "." ++ pDecl.identifier

/-- The case `handle_basic`. -/
def amsLeaf (name : Option String) (info : AMSInfo) : AMSInfo :=
  match name with
  | some name => { info with list := info.list ++ [name] }
  | none => { info with count := info.count + 1 }

abbrev AmsTypeFn := TypeSpec → Option Declarator → ℕ → Option String → AMSInfo → Call AMSInfo
abbrev AmsStructFn := ℕ → Option String → AMSInfo → Call AMSInfo

section Steps
variable (heap : Heap) (fuel : ℕ) (amsType : AmsTypeFn) (amsStruct : AmsStructFn)

/-- Unnamed bit-fields are skipped. -/
def amsMember (type : TypeSpec) (name : Option String) (info : AMSInfo) (pDecl : Declarator) :
    Call AMSInfo :=
  if pDecl.isBitfield = true ∧ pDecl.identifier = "" then .ok info
  else amsType type (some pDecl) 0 (memberName name pDecl) info

/-- The members of an unnamed compound are named like those of the compound around it. -/
def amsDeclaration (name : Option String) (info : AMSInfo) (pStructDecl : StructDeclaration) :
    Call AMSInfo :=
  match pStructDecl.declarators with
  | some declarators => declarators.foldlM (amsMember amsType pStructDecl.type name) info
  | none => do
    let s ← followTsptr heap fuel pStructDecl.type
    amsStruct s name info

/-- `get_ams_struct`; what it appends to the name is cut off again before it returns. -/
def amsStructStep : AmsStructFn := fun s name info =>
  ((heap.structAt s).declarations.getD []).foldlM
    (amsDeclaration heap fuel amsType amsStruct name) info

def amsElement (pTS : TypeSpec) (pDecl : Declarator) (dimension : ℕ) (name : Option String)
    (info : AMSInfo) (i : ℕ) : Call AMSInfo := do
  let element ← elementName name i
  amsType pTS (some pDecl) (dimension + 1) element info

/-- An array without a size has no elements. -/
def amsArray (pTS : TypeSpec) (pDecl : Declarator) (dimension : ℕ) (pValue : Value)
    (name : Option String) (info : AMSInfo) : Call AMSInfo :=
  if pValue.undef then .ok info
  else (List.range pValue.iv.toNat).foldlM (amsElement amsType pTS pDecl dimension name) info

/-- `get_ams_type` -/
def amsTypeStep : AmsTypeFn := fun pTS pDecl dimension name info =>
  match pDecl.bind fun d => d.dims[dimension]?.map fun pValue => (d, pValue) with
  | some (d, pValue) => amsArray amsType pTS d dimension pValue name info
  | none =>
    if pDecl.any Declarator.pointer_flag then .ok (amsLeaf name info)
    else match pTS with
      | .typedef t => amsType (heap.typedefAt t).type (some (heap.typedefAt t).decl) 0 name info
      | .compound _ s => amsStruct s name info
      | _ => .ok (amsLeaf name info)

end Steps

section Recursion
variable (heap : Heap)

mutual

def amsType : ℕ → AmsTypeFn
  | 0 => fun _ _ _ _ _ => .error .outOfFuel
  | fuel + 1 => amsTypeStep heap (amsType fuel) (amsStruct fuel)

def amsStruct : ℕ → AmsStructFn
  | 0 => fun _ _ _ => .error .outOfFuel
  | fuel + 1 => amsStructStep heap fuel (amsType fuel) (amsStruct fuel)

end

/-- `get_all_member_strings`: the strings if a list is given, and how many there are. -/
def getAllMemberStrings (fuel : ℕ) (pMI : MemberInfo) (list : Bool) : Call (List String × ℤ) := do
  let name := if list then some "" else none
  let info ← amsType heap fuel pMI.type pMI.pDecl pMI.level name ⟨[], 0⟩
  .ok (info.list, if list then info.list.length else info.count)

end Recursion

end ConvertBinaryC
