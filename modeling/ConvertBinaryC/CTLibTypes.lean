import ConvertBinaryC.CTLibByteOrder

/-! The type objects that the parser builds (`ctlib/cttype.h`). Objects live in a
heap and refer to each other by index; an empty identifier is the empty string. -/
namespace ConvertBinaryC

/-- The flags of a basic type. -/
abbrev TFlags := BitVec 32

def T_VOID : TFlags := 0x00000001
def T_CHAR : TFlags := 0x00000002
def T_SHORT : TFlags := 0x00000004
def T_INT : TFlags := 0x00000008
def T_LONG : TFlags := 0x00000010
def T_FLOAT : TFlags := 0x00000020
def T_DOUBLE : TFlags := 0x00000040
def T_SIGNED : TFlags := 0x00000080
def T_UNSIGNED : TFlags := 0x00000100
def T_LONGLONG : TFlags := 0x00004000

/-- Is one of the flags of `mask` set? -/
def TFlags.test (tflags mask : TFlags) : Bool := tflags &&& mask != 0

/-- A long value. `undef` is `V_IS_UNDEF`; `risky` says that one of the flags of
`IS_UNSAFE_VAL` is set. -/
structure Value where
  iv : ℤ
  undef : Bool
  risky : Bool
  deriving DecidableEq, Repr

structure ContextInfo where
  file : String
  line : ℕ
  deriving DecidableEq, Repr

inductive CompoundKind where
  | struct
  | union
  deriving DecidableEq, Repr

/-- A type specifier is a set of basic type flags or points to a type object. The
kind of a compound is the keyword of the specifier, not that of the object. -/
inductive TypeSpec where
  | basic (tflags : TFlags)
  | enum (pES : ℕ)
  | compound (kind : CompoundKind) (pStruct : ℕ)
  | typedef (pTypedef : ℕ)
  deriving DecidableEq, Repr

inductive FormatTag where
  | string
  | binary
  deriving DecidableEq, Repr

inductive DimensionTag where
  | none
  | flexible
  | fixed (dim : ℤ)
  | member (expr : String)
  | hook (sub : ℕ)
  deriving DecidableEq, Repr

/-- Hooks are named by the Perl subroutine they call. -/
structure TypeHooks where
  pack : Option ℕ
  unpack : Option ℕ
  packPtr : Option ℕ
  unpackPtr : Option ℕ
  deriving DecidableEq, Repr

structure CtTagList where
  byteOrder : Option CByteOrder
  dimension : Option DimensionTag
  format : Option FormatTag
  hooks : Option TypeHooks
  deriving DecidableEq, Repr

def CtTagList.empty : CtTagList := ⟨none, none, none, none⟩

structure BitfieldInfo where
  size : ℤ
  bits : ℤ
  pos : ℤ
  deriving DecidableEq, Repr

/-- What the flags and the union of a declarator hold. -/
inductive DeclaratorExt where
  | plain
  | array (dims : List Value)
  | bitfield (info : BitfieldInfo)
  deriving DecidableEq, Repr

structure Declarator where
  offset : ℤ
  pointer_flag : Bool
  size : ℤ
  item_size : ℤ
  tags : CtTagList
  ext : DeclaratorExt
  identifier : String
  deriving DecidableEq, Repr

/-- `decl_new` leaves offset, size and item size at -1. -/
def declNew (identifier : String) : Declarator where
  offset := -1
  pointer_flag := false
  size := -1
  item_size := -1
  tags := .empty
  ext := .plain
  identifier := identifier

def Declarator.isBitfield (d : Declarator) : Bool :=
  match d.ext with
  | .bitfield _ => true
  | _ => false

def Declarator.isArray (d : Declarator) : Bool :=
  match d.ext with
  | .array _ => true
  | _ => false

/-- The dimensions of an array declarator, none for the others. -/
def Declarator.dims (d : Declarator) : List Value :=
  match d.ext with
  | .array dims => dims
  | _ => []

/-- Unnamed members have no list of declarators at all. -/
structure StructDeclaration where
  type : TypeSpec
  declarators : Option (List Declarator)
  offset : ℤ
  size : ℤ
  deriving DecidableEq, Repr

/-- `declarations` is `none` as long as only the tag has been seen. -/
structure Struct where
  kind : CompoundKind
  hasBitfield : Bool
  riskyVal : Bool
  refcount : ℕ
  align : ℤ
  pack : ℤ
  size : ℤ
  context : ContextInfo
  declarations : Option (List StructDeclaration)
  tags : CtTagList
  identifier : String
  deriving DecidableEq, Repr

def structNew (identifier : String) (kind : CompoundKind) (pack : ℤ) (context : ContextInfo)
    (declarations : Option (List StructDeclaration)) : Struct where
  kind := kind
  hasBitfield := false
  riskyVal := false
  refcount := 0
  align := 0
  pack := pack
  size := 0
  context := context
  declarations := declarations
  tags := .empty
  identifier := identifier

structure Enumerator where
  value : Value
  identifier : String
  deriving DecidableEq, Repr

structure EnumSpecifier where
  refcount : ℕ
  signed : Bool
  riskyVal : Bool
  unsignedSize : ℤ
  signedSize : ℤ
  context : ContextInfo
  enumerators : Option (List Enumerator)
  tags : CtTagList
  identifier : String
  deriving DecidableEq, Repr

structure Typedef where
  type : TypeSpec
  decl : Declarator
  deriving DecidableEq, Repr

structure TypedefList where
  type : TypeSpec
  typedefs : List ℕ
  deriving DecidableEq, Repr

/-- The type objects, by index. -/
structure Heap where
  structAt : ℕ → Struct
  enumAt : ℕ → EnumSpecifier
  typedefAt : ℕ → Typedef

/-- The lists of a parse, in the order in which the parser pushed the objects. -/
structure CParseInfo where
  heap : Heap
  enums : List ℕ
  structs : List ℕ
  typedef_lists : List TypedefList

def Heap.setTypedef (h : Heap) (t : ℕ) (v : Typedef) : Heap :=
  { h with typedefAt := Function.update h.typedefAt t v }

def Heap.setStruct (h : Heap) (s : ℕ) (v : Struct) : Heap :=
  { h with structAt := Function.update h.structAt s v }

@[simp] theorem Heap.setStruct_self (h : Heap) (s : ℕ) (v : Struct) :
    (h.setStruct s v).structAt s = v := Function.update_self ..

@[simp] theorem Heap.setStruct_of_ne (h : Heap) {s t : ℕ} (v : Struct) (hne : t ≠ s) :
    (h.setStruct s v).structAt t = h.structAt t := Function.update_of_ne hne ..

@[simp] theorem Heap.setStruct_structAt (h : Heap) (s : ℕ) : h.setStruct s (h.structAt s) = h := by
  rw [setStruct, Function.update_eq_self]

@[simp] theorem Heap.setStruct_enumAt (h : Heap) (s : ℕ) (v : Struct) :
    (h.setStruct s v).enumAt = h.enumAt := rfl

@[simp] theorem Heap.setStruct_typedefAt (h : Heap) (s : ℕ) (v : Struct) :
    (h.setStruct s v).typedefAt = h.typedefAt := rfl

end ConvertBinaryC
