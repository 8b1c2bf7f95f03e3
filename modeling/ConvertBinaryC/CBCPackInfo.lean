import ConvertBinaryC.StateRules
import ConvertBinaryC.CBCPerl
import ConvertBinaryC.CBCMemberExpr
import ConvertBinaryC.CTLibDimensions
import ConvertBinaryC.CTLibStorageUnit
import ConvertBinaryC.CTLibLayout

/-! The handle that packing and unpacking work on (`struct PackInfo` of `cbc/pack.c`),
its buffer and byte order macros, and the evaluation of Dimension tags
(`cbc/dimension.c`). -/
namespace ConvertBinaryC

inductive EnumType where
  | integer
  | string
  | both
  deriving DecidableEq, Repr

/-- What packing reads of the object. `htEnumerators` looks a name up. -/
structure CBC where
  arch : NativeArch
  pLP : LayoutParam
  unsigned_bitfields : Bool
  unsigned_chars : Bool
  enumType : EnumType
  nativeByteorder : CByteOrder
  heap : Heap
  htEnumerators : List Byte → Option Enumerator

/-- What a run is inside of. An unnamed compound is packed into the hash of the
compound that contains it. -/
inductive Scope where
  | declarator (pDecl : Declarator)
  | element (index : ℕ)
  | compound (pStruct : Struct)
  | inlined (pStruct : Struct)
  | enum (pES : EnumSpecifier)
  deriving DecidableEq, Repr

/-- What a run does to its buffer, and how many elements its array loops are for;
`flexible` says that no tag and no dimension gives that number. -/
inductive Event where
  | access (path : List Scope) (bitfield : Bool) (order : CByteOrder) (pos size : ℤ)
  | copy (path : List Scope) (pos size : ℤ)
  | grow (path : List Scope) (required : ℤ)
  | elements (path : List Scope) (flexible : Bool) (pos length size count : ℤ)
  deriving DecidableEq, Repr

/-- `cur` is the length of the string that holds the buffer. The last three fields
are not in the source: the number of subroutine calls, the scopes that the run is
inside of, innermost first, and what it did so far. -/
structure PackInfo where
  buffer : Memory
  pos : ℤ
  length : ℤ
  cur : ℤ
  order : CByteOrder
  parent : Option Hash
  calls : ℕ
  path : List Scope
  trace : List Event

abbrev Pk := EStateM Fault PackInfo

/-- `pk_create` and `pk_set_buffer`, for a string whose first `length` bytes are the
buffer. The byte order is set by `pk_pack` and `pk_unpack`. -/
def pkCreate (string : List Byte) (length : ℤ) : PackInfo where
  buffer i := string.getD i 0
  pos := 0
  length := length
  cur := string.length
  order := .bigEndian
  parent := none
  calls := 0
  path := []
  trace := []

/-- The handle after a run, also after a failed one. -/
def finalState {α : Type} (r : EStateM.Result Fault PackInfo α) : PackInfo :=
  match r with
  | .ok _ st => st
  | .error _ st => st

def PackInfo.emit (st : PackInfo) (e : Event) : PackInfo := { st with trace := st.trace ++ [e] }

def liftCall {α : Type} (c : Call α) : Pk α :=
  match c with
  | .ok a => pure a
  | .error e => throw e

def emit (e : Event) : Pk Unit := modify fun st => st.emit e

def setPos (pos : ℤ) : Pk Unit := modify fun st => { st with pos := pos }

def setParent (parent : Option Hash) : Pk Unit := modify fun st => { st with parent := parent }

/-- `dBYTEORDER` -/
def byteOrder : Pk CByteOrder := do
  let st ← get
  pure st.order

/-- `RESTORE_BYTEORDER` -/
def restoreByteOrder (old : CByteOrder) : Pk Unit := modify fun st => { st with order := old }

/-- `SET_BYTEORDER` -/
def setByteOrder (tags : CtTagList) : Pk Unit :=
  modify fun st => { st with order := tags.byteOrder.getD st.order }

/-- The byte order inside of what has these tags, for the one outside. -/
def CtTagList.orderOr (tags : CtTagList) (order : CByteOrder) : CByteOrder :=
  tags.byteOrder.getD order

/-- Note in the path that `m` runs inside of a scope. -/
def within {α : Type} (scope : Scope) (m : Pk α) : Pk α := do
  modify fun st => { st with path := scope :: st.path }
  let a ← m
  modify fun st => { st with path := st.path.tail }
  pure a

/-- `dBYTEORDER` before `m` and `RESTORE_BYTEORDER` after it. -/
def keepByteOrder {α : Type} (m : Pk α) : Pk α := do
  let old_byte_order ← byteOrder
  let a ← m
  restoreByteOrder old_byte_order
  pure a

/-- Run `m` inside of a scope, between `SET_BYTEORDER` for its tags and
`RESTORE_BYTEORDER`. -/
def inScope {α : Type} (scope : Scope) (tags : CtTagList) (m : Pk α) : Pk α :=
  keepByteOrder do
    setByteOrder tags
    within scope m

/-- The condition of `CHECK_BUFFER`; when it holds the position moves to the end. -/
def checkBuffer (size : ℤ) : Pk Bool := do
  let st ← get
  if u64 (st.pos + size) > st.length then
    setPos st.length
    pure true
  else pure false

section Perl
variable (perl : Perl)

/-- `GROW_BUFFER`: the zeros reach one byte beyond the new length. -/
def growBuffer (size : ℤ) : Pk Unit := do
  let st ← get
  let required := u64 (st.pos + size)
  emit (.grow st.path required)
  if required > st.length then
    if required + 1 = 18446744073709551616 then throw .undefinedBehaviour
    else if required + 1 > perl.memory then throw (.fatal "Out of memory!")
    else modify fun st => { st with
      buffer := fun i => if st.length ≤ i ∧ (i : ℤ) ≤ required then 0 else st.buffer i
      cur := required
      length := required }
  else pure ()

def callSub (sub : ℕ) (arg : Option SV) : Pk SV := do
  let st ← get
  set { st with calls := st.calls + 1 }
  match perl.call st.calls sub arg with
  | .ok sv => pure sv
  | .error msg => throw (.croak msg)

/-- `hook_call`, with the hook that it selects. -/
def hookCall (hook : Option ℕ) (sv : SV) : Pk SV :=
  match hook with
  | some sub => callSub perl sub (some sv)
  | none => pure sv

/-- `av_fetch`: a negative index counts from the end of the array. -/
def avFetch (elems : List (Option SV)) (index : ℤ) : Option SV :=
  let key := if index < 0 then index + elems.length else index
  if key < 0 then none else elems[key.toNat]?.join

/-- One step of the walk in `dimension_from_member`; `none` stands for a lookup that
failed. No value is known before the first member is found. -/
def dimensionStep (parent : Hash) (sv : Option SV) (info : MeWalkInfo) : Call (Option SV) :=
  match info with
  | .compoundMember name _ =>
    match sv with
    | none => .ok (parent.lookup name)
    | some (.hv entries) => .ok (entries.lookup name)
    | some _ => .ok none
  | .arrayIndex index =>
    match sv with
    | none => .error .undefinedBehaviour
    | some (.av elems) =>
      if index ≥ elems.length then .ok none
      else match avFetch elems index with
        | some sv => .ok (some sv)
        | none => .error (.fatal "cannot find index")
    | some _ => .ok none
  | _ => .error (.fatal "unexpected return value in dimension_from_member")

/-- The dimension that a walk ends with. -/
def dimensionFound (sv : Option SV) : Call IV :=
  match sv with
  | some sv => .ok (svToDimension perl sv)
  | none => .error .undefinedBehaviour

/-- The walk over the member expression of a tag; it stops at the first failed lookup. -/
def dimensionWalk (parent : Hash) : Option SV → List MeWalkInfo → Call IV
  | sv, [] => dimensionFound perl sv
  | sv, info :: infos =>
    if info = .finished then dimensionFound perl sv
    else do
      match ← dimensionStep parent sv info with
      | some sv => dimensionWalk parent (some sv) infos
      | none => .ok ⟨0, isLong_zero⟩

/-- `dimension_from_member` -/
def dimensionFromMember (member : String) : Pk IV := do
  let st ← get
  match st.parent with
  | none => pure ⟨0, isLong_zero⟩
  | some parent => liftCall (dimensionWalk perl parent none (memberExpr member.toList))

/-- `dimension_from_hook` -/
def dimensionFromHook (sub : ℕ) : Pk IV := do
  let st ← get
  let sv ← callSub perl sub (st.parent.map .hv)
  pure (svToDimension perl sv)

/-- `dimtag_eval`. The number of a fixed tag is an `IV`. -/
def dimtagEval (tag : DimensionTag) (avail : ℤ) : Pk ℤ :=
  match tag with
  | .none => throw (.fatal "Invalid dimension tag type in dimtag_get()")
  | .flexible => pure avail
  | .fixed dim => pure (i64 dim)
  | .member expr => do
    let dim ← dimensionFromMember perl expr
    pure dim.1
  | .hook sub => do
    let dim ← dimensionFromHook perl sub
    pure dim.1

/-- The size of one element of an array with a Format tag, `one` in
`prepare_pack_format`. -/
def formatUnit (pDecl : Declarator) (dimtag : Option DimensionTag) : Call ℤ :=
  if dimtag.isSome ∨ pDecl.size = 0 then
    if pDecl.size = 0 then timesDims pDecl.item_size (pDecl.dims.drop 1).reverse
    else match pDecl.dims with
      | [] => .error .undefinedBehaviour
      | dim :: _ =>
        if dim.iv = 0 then .error .divideByZero else .ok (i32 (pDecl.size.tdiv dim.iv))
  else .ok 0

/-- Is it an incomplete array type? -/
def formatFlexible (pDecl : Declarator) (dimtag : Option DimensionTag) : Bool :=
  pDecl.isArray && match dimtag with
    | some tag => decide (tag = .flexible)
    | none => decide (pDecl.size = 0)

/-- `prepare_pack_format`: the size, and whether `PACK_FLEXIBLE` is set. -/
def preparePackFormat (pDecl : Declarator) (dimtag : Option DimensionTag) : Pk (ℤ × Bool) := do
  let one ← liftCall (formatUnit pDecl dimtag)
  if formatFlexible pDecl dimtag then pure (one, true)
  else match dimtag with
    | some tag => do
      let dim ← dimtagEval perl tag 0
      let size ← liftCall (long (one * dim))
      pure (i32 size, false)
    | none => pure (pDecl.size, false)

end Perl

/-- The types that `get_fp_type` knows. -/
def isFpType (flags : TFlags) : Bool :=
  let flags := flags &&& (T_VOID ||| T_CHAR ||| T_SHORT ||| T_INT ||| T_LONG ||| T_FLOAT |||
    T_DOUBLE ||| T_SIGNED ||| T_UNSIGNED ||| T_LONGLONG)
  flags = T_LONG ||| T_DOUBLE ∨ flags = T_DOUBLE ∨ flags = T_FLOAT

section Config
variable (cbc : CBC)

/-- The sizes of the C floating point types. -/
def isFpSize (size : ℤ) : Bool :=
  size = cbc.arch.float_size ∨ size = cbc.arch.double_size ∨ size = cbc.arch.long_double_size

/-- `load_size`: the size of a basic type, and the flags with the default signedness. -/
def packLoadSize (flags : TFlags) (pBI : Option BitfieldInfo) : ℤ × TFlags :=
  let unsignedDefault (on : Bool) : TFlags :=
    if on ∧ flags &&& (T_SIGNED ||| T_UNSIGNED) = 0 then flags ||| T_UNSIGNED else flags
  match pBI with
  | some bit => (bit.size, unsignedDefault cbc.unsigned_bitfields)
  | none =>
    if flags.test T_VOID then (1, flags)
    else if flags.test T_CHAR then
      (loadSize cbc.pLP.char_size cbc.arch.char_size, unsignedDefault cbc.unsigned_chars)
    else (basicSize cbc.arch cbc.pLP flags, flags)

def ptrSize : ℤ := loadSize cbc.pLP.ptr_size cbc.arch.ptr_size

/-- The size that an enum is packed with. -/
def packEnumSize (pES : EnumSpecifier) (pBI : Option BitfieldInfo) : ℤ :=
  match pBI with
  | some bit => bit.size
  | none => enumTypeSize cbc.pLP pES

/-- The byte order of `SF_INT_ARGS`. -/
def intOrder (st : PackInfo) (pBI : Option BitfieldInfo) : CByteOrder :=
  match pBI with
  | some _ => cbc.pLP.byte_order
  | none => st.order

/-- Bitfields are in the byte order of the object, whatever the tags say. -/
def orderFor (pBI : Option BitfieldInfo) (order : CByteOrder) : CByteOrder :=
  match pBI with
  | some _ => cbc.pLP.byte_order
  | none => order

theorem intOrder_eq (st : PackInfo) (pBI : Option BitfieldInfo) :
    intOrder cbc st pBI = orderFor cbc pBI st.order := by
  cases pBI with
  | none => rfl
  | some bit => rfl

/-- A window of no bits stands for the whole unit. -/
def bitsOf (pBI : Option BitfieldInfo) : ℕ × ℕ :=
  match pBI with
  | some bit => (bit.bits.toNat, bit.pos.toNat)
  | none => (0, 0)

end Config

/-- The end of the chain of typedefs that `FOLLOW_AND_CHECK_TSPTR` follows: it goes on
as long as the declarator is neither a pointer nor an array. -/
def followTypedef (heap : Heap) : ℕ → ℕ → Call TypeSpec
  | 0, _ => .error .outOfFuel
  | fuel + 1, t =>
    let td := heap.typedefAt t
    match td.type with
    | .typedef t' =>
      if td.decl.pointer_flag = false ∧ td.decl.isArray = false then followTypedef heap fuel t'
      else .ok td.type
    | type => .ok type

/-- `FOLLOW_AND_CHECK_TSPTR`: the compound that an unnamed member is of. -/
def followTsptr (heap : Heap) (fuel : ℕ) (pTS : TypeSpec) : Call ℕ := do
  let pTS ← (match pTS with
    | .typedef t => followTypedef heap fuel t
    | pTS => .ok pTS : Call TypeSpec)
  match pTS with
  | .compound _ pStruct => .ok pStruct
  | _ => .error (.fatal "Unnamed member was not struct or union")

end ConvertBinaryC
