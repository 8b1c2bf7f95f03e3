import ConvertBinaryC.CTLibBitfields
import ConvertBinaryC.CTLibDimensions

/-! The layout pass (`ctlib/layout.c`, `update_parse_info`). The layout of one
compound is written over the way in which it asks for type information, so that
the same text also lays out a compound whose nested compounds are known. -/
namespace ConvertBinaryC
open FoldRules

/-- The sizes and alignments of the machine that the library was built on. -/
structure NativeArch where
  char_size : ℤ
  int_size : ℤ
  short_size : ℤ
  long_size : ℤ
  long_long_size : ℤ
  ptr_size : ℤ
  float_size : ℤ
  double_size : ℤ
  long_double_size : ℤ
  alignment : ℤ
  compound_alignment : ℤ

/-- A zero stands for the native value. An enum size of 0 or -1 selects one of the
sizes of the enum. The layouter is part of the state instead. -/
structure LayoutParam where
  alignment : ℤ
  compound_alignment : ℤ
  char_size : ℤ
  int_size : ℤ
  short_size : ℤ
  long_size : ℤ
  long_long_size : ℤ
  enum_size : ℤ
  ptr_size : ℤ
  float_size : ℤ
  double_size : ℤ
  long_double_size : ℤ
  byte_order : CByteOrder
  deriving DecidableEq, Repr

/-- What `get_type_info_generic` returns; `noStructDecl` is `GTI_NO_STRUCT_DECL`. -/
structure TypeInfo where
  size : ℤ
  align : ℤ
  item_size : ℤ
  hasBitfield : Bool
  riskyVal : Bool
  noStructDecl : Bool
  deriving DecidableEq, Repr

def loadSize (size native : ℤ) : ℤ := if size ≠ 0 then size else native

def layoutAlignment (arch : NativeArch) (pLP : LayoutParam) : ℤ :=
  loadSize pLP.alignment arch.alignment

def layoutCompoundAlignment (arch : NativeArch) (pLP : LayoutParam) : ℤ :=
  loadSize pLP.compound_alignment arch.compound_alignment

/-- The alignment that limits the members of a compound. -/
def structAlignment (arch : NativeArch) (pLP : LayoutParam) (pStruct : Struct) : ℤ :=
  if pStruct.pack ≠ 0 then pStruct.pack else layoutAlignment arch pLP

def basicSize (arch : NativeArch) (pLP : LayoutParam) (tflags : TFlags) : ℤ :=
  if tflags.test T_VOID then 1
  else if tflags &&& (T_LONG ||| T_DOUBLE) = T_LONG ||| T_DOUBLE then
    loadSize pLP.long_double_size arch.long_double_size
  else if tflags.test T_LONGLONG then loadSize pLP.long_long_size arch.long_long_size
  else if tflags.test T_FLOAT then loadSize pLP.float_size arch.float_size
  else if tflags.test T_DOUBLE then loadSize pLP.double_size arch.double_size
  else if tflags.test T_CHAR then loadSize pLP.char_size arch.char_size
  else if tflags.test T_SHORT then loadSize pLP.short_size arch.short_size
  else if tflags.test T_LONG then loadSize pLP.long_size arch.long_size
  else loadSize pLP.int_size arch.int_size

def enumTypeSize (pLP : LayoutParam) (pES : EnumSpecifier) : ℤ :=
  if pLP.enum_size > 0 then pLP.enum_size
  else if pLP.enum_size = 0 then pES.unsignedSize
  else pES.signedSize

/-- A type whose size is its alignment. -/
def TypeInfo.scalar (size : ℤ) : TypeInfo := ⟨size, size, size, false, false, false⟩

/-- The information about a compound that is laid out or has no body. -/
def structInfo (arch : NativeArch) (pLP : LayoutParam) (pStruct : Struct) : TypeInfo :=
  match pStruct.declarations with
  | none =>
    { TypeInfo.scalar (loadSize pLP.int_size arch.int_size) with
      hasBitfield := pStruct.hasBitfield, riskyVal := pStruct.riskyVal, noStructDecl := true }
  | some _ =>
    { size := pStruct.size, align := pStruct.align, item_size := pStruct.size
      hasBitfield := pStruct.hasBitfield, riskyVal := pStruct.riskyVal, noStructDecl := false }

/-- The loop `size *= dimension` with an unsigned. -/
def arraySize (size : ℤ) (dims : List Value) : Call ℤ := timesAs u32 size dims

/-- From the information about a type to that about a declarator of it. -/
def TypeInfo.declare (info : TypeInfo) (dims : List Value) : Call TypeInfo := do
  let size ← arraySize info.size dims
  .ok { info with
    item_size := info.size
    size := size
    riskyVal := info.riskyVal || dims.any Value.risky }

/-- The local variables of `layout_compound_generic` together with the fields of the
compound that it updates as it goes. -/
structure Frame where
  bl : BitfieldLayouter
  align : ℤ
  size : ℤ
  hasBitfield : Bool
  riskyVal : Bool
  in_bitfield : Bool
  deriving DecidableEq, Repr

def Frame.store (f : Frame) (pStruct : Struct) : Struct :=
  { pStruct with
    align := f.align, size := f.size, hasBitfield := f.hasBitfield, riskyVal := f.riskyVal }

/-- How a layout asks for the type information of a member. The answer can change
the layouter and a state of the caller's choice. -/
abbrev TypeQuery (σ : Type) :=
  σ → Frame → TypeSpec → Option Declarator → Call (σ × BitfieldLayouter × TypeInfo)

/-- `FINISH_BITFIELD` -/
def finishBitfield (f : Frame) : Frame :=
  let bl := f.bl.finalize
  { f with bl := bl, size := u32 bl.offset, align := u16 bl.align }

def finishOpenBitfield (f : Frame) : Frame :=
  if f.in_bitfield then { finishBitfield f with in_bitfield := false } else f

def noteFlags (f : Frame) (info : TypeInfo) (bitfield_flag : Bool) : Frame :=
  { f with
    hasBitfield := f.hasBitfield || info.hasBitfield || bitfield_flag
    riskyVal := f.riskyVal || info.riskyVal }

def paddedSize (size align : ℤ) : ℤ :=
  if size % align ≠ 0 then u32 (size + (align - size % align)) else size

/-- The common end of named and unnamed members: the offset of the member. -/
def placeMember (kind : CompoundKind) (alignment : ℤ) (info : TypeInfo) (f : Frame) :
    Call (ℤ × Frame) :=
  let align := if info.align > alignment then alignment else info.align
  let f := { f with align := if align > f.align then u16 align else f.align }
  match kind with
  | .struct =>
    if align = 0 then .error .divideByZero
    else
      let offset := paddedSize f.size align
      .ok (offset, { f with size := u32 (offset + info.size) })
  | .union => .ok (0, { f with size := if info.size > f.size then info.size else f.size })

/-- A run of bit-fields in a struct starts at the current size. In a union every
bit-field is a run of its own. -/
def startBitfield (kind : CompoundKind) (f : Frame) : Call BitfieldLayouter :=
  if f.in_bitfield then .ok f.bl
  else do
    let bl ← f.bl.reset
    .ok { bl with
      align := f.align
      offset := match kind with
        | .struct => f.size
        | .union => 0 }

def pushBitfield (kind : CompoundKind) (info : TypeInfo) (f : Frame) (pDecl : Declarator)
    (bit : BitfieldInfo) : Call (Frame × Declarator) := do
  let bl ← startBitfield kind f
  let (error, bl, pDecl) ← bl.push ⟨pDecl, bit, info.item_size, info.align⟩
  match error with
  | .bitfieldTooWide => .error (.fatal "couldn't push bitfield => error 2")
  | .noError =>
    match kind with
    | .struct => .ok ({ f with bl := bl, in_bitfield := true }, pDecl)
    | .union => .ok (finishBitfield { f with bl := bl }, pDecl)

/-- One declarator, once its type information is known. `offset` is that of the
declaration, negative as long as it has none. -/
def layoutDeclarator (kind : CompoundKind) (alignment : ℤ) (info : TypeInfo) (f : Frame)
    (offset : ℤ) (pDecl : Declarator) : Call ((Frame × ℤ) × Declarator) :=
  let f := noteFlags f info pDecl.isBitfield
  match pDecl.ext with
  | .bitfield bit => do
    let (f, pDecl) ← pushBitfield kind info f pDecl bit
    .ok ((f, offset), pDecl)
  | _ => do
    let (pos, f) ← placeMember kind alignment info (finishOpenBitfield f)
    .ok ((f, if offset < 0 then i32 pos else offset),
      { pDecl with offset := s29 pos, size := i32 info.size, item_size := i32 info.item_size })

section Layout
variable {σ : Type} (query : TypeQuery σ) (kind : CompoundKind) (alignment : ℤ)

def queryDeclarator (type : TypeSpec) (acc : σ × Frame × ℤ) (pDecl : Declarator) :
    Call ((σ × Frame × ℤ) × Declarator) := do
  let (x, f, offset) := acc
  let (x, bl, info) ← query x f type (some pDecl)
  let ((f, offset), pDecl) ← layoutDeclarator kind alignment info { f with bl := bl } offset pDecl
  .ok ((x, f, offset), pDecl)

/-- An unnamed member. The open run of bit-fields is closed before its type
information is asked for. -/
def queryUnnamed (type : TypeSpec) (acc : σ × Frame × ℤ) : Call (σ × Frame × ℤ) := do
  let (x, f, offset) := acc
  let f := finishOpenBitfield f
  let (x, bl, info) ← query x f type none
  let (pos, f) ← placeMember kind alignment info (noteFlags { f with bl := bl } info false)
  .ok (x, f, if offset < 0 then i32 pos else offset)

def queryMembers (pStructDecl : StructDeclaration) (acc : σ × Frame × ℤ) :
    Call ((σ × Frame × ℤ) × Option (List Declarator)) :=
  match pStructDecl.declarators with
  | none => do
    let acc ← queryUnnamed query kind alignment pStructDecl.type acc
    .ok (acc, none)
  | some declarators => do
    let (acc, declarators) ←
      mapAccumM (queryDeclarator query kind alignment pStructDecl.type) acc declarators
    .ok (acc, some declarators)

def layoutDeclaration (acc : σ × Frame) (pStructDecl : StructDeclaration) :
    Call ((σ × Frame) × StructDeclaration) := do
  let start : ℤ := match kind with
    | .struct => -1
    | .union => 0
  let ((x, f, offset), declarators) ←
    queryMembers query kind alignment pStructDecl (acc.1, acc.2, start)
  let offset := if offset < 0 then i32 f.size else offset
  .ok ((x, f), { pStructDecl with
    declarators := declarators, offset := offset, size := i32 (f.size - offset) })

end Layout

def initialFrame (arch : NativeArch) (pLP : LayoutParam) (bl : BitfieldLayouter)
    (pStruct : Struct) : Frame where
  bl := { bl with max_align := structAlignment arch pLP pStruct, byte_order := pLP.byte_order }
  align := u16 (if structAlignment arch pLP pStruct < layoutCompoundAlignment arch pLP then
    structAlignment arch pLP pStruct else layoutCompoundAlignment arch pLP)
  size := pStruct.size
  hasBitfield := pStruct.hasBitfield
  riskyVal := pStruct.riskyVal
  in_bitfield := false

/-- The end of `layout_compound_generic`: close the last run and round the size. -/
def finishStruct (f : Frame) (pStruct : Struct) (declarations : List StructDeclaration) :
    Call (BitfieldLayouter × Struct) :=
  let f := finishOpenBitfield f
  if f.align = 0 then .error .divideByZero
  else .ok (f.bl, { { f with size := paddedSize f.size f.align }.store pStruct with
    declarations := some declarations })

def layoutStruct {σ : Type} (arch : NativeArch) (pLP : LayoutParam) (query : TypeQuery σ) (x : σ)
    (bl : BitfieldLayouter) (pStruct : Struct) : Call (σ × BitfieldLayouter × Struct) :=
  match pStruct.declarations with
  | none => .ok (x, bl, pStruct)
  | some declarations => do
    let ((x, f), declarations) ←
      mapAccumM (layoutDeclaration query pStruct.kind (structAlignment arch pLP pStruct))
        (x, initialFrame arch pLP bl pStruct) declarations
    let (bl, pStruct) ← finishStruct f pStruct declarations
    .ok (x, bl, pStruct)

structure LayoutState where
  heap : Heap
  bl : BitfieldLayouter

/-- The members of `s` ask with the compound as far as it is laid out in the heap and
with its own layouter. -/
def heapQuery
    (typeInfo : LayoutState → TypeSpec → Option Declarator → Call (LayoutState × TypeInfo))
    (s : ℕ) : TypeQuery Heap := fun heap f type pDecl => do
  let (st, info) ← typeInfo ⟨heap.setStruct s (f.store (heap.structAt s)), f.bl⟩ type pDecl
  .ok (st.heap, st.bl, info)

mutual

/-- `get_type_info_generic` and `layout_compound_generic` call each other; `fuel` is
the depth of calls. -/
def getTypeInfo (arch : NativeArch) (pLP : LayoutParam) :
    ℕ → LayoutState → TypeSpec → Option Declarator → Call (LayoutState × TypeInfo)
  | 0, _, _, _ => .error .outOfFuel
  | fuel + 1, st, type, pDecl => do
    let (st, info) ← (if pDecl.any Declarator.pointer_flag then
        .ok (st, TypeInfo.scalar (loadSize pLP.ptr_size arch.ptr_size))
      else match type with
        | .typedef pTypedef =>
          let td := st.heap.typedefAt pTypedef
          getTypeInfo arch pLP fuel st td.type (some td.decl)
        | .enum pES => .ok (st, TypeInfo.scalar (enumTypeSize pLP (st.heap.enumAt pES)))
        | .compound _ s => do
          let st ← (if (st.heap.structAt s).declarations.isSome ∧ (st.heap.structAt s).align = 0 then
            layoutCompound arch pLP fuel st s else .ok st : Call LayoutState)
          .ok (st, structInfo arch pLP (st.heap.structAt s))
        | .basic tflags => .ok (st, TypeInfo.scalar (basicSize arch pLP tflags)))
    let info ← info.declare ((pDecl.map Declarator.dims).getD [])
    .ok (st, info)

def layoutCompound (arch : NativeArch) (pLP : LayoutParam) :
    ℕ → LayoutState → ℕ → Call LayoutState
  | 0, _, _ => .error .outOfFuel
  | fuel + 1, st, s => do
    let (heap, bl, pStruct) ← layoutStruct arch pLP (heapQuery (getTypeInfo arch pLP fuel) s)
      st.heap st.bl (st.heap.structAt s)
    .ok ⟨heap.setStruct s pStruct, bl⟩

end

/-- The first loop of `update_parse_info`. -/
def updateStructs (arch : NativeArch) (pLP : LayoutParam) (fuel : ℕ) (st : LayoutState)
    (structs : List ℕ) : Call LayoutState :=
  structs.foldlM (fun st s =>
    if (st.heap.structAt s).align = 0 then layoutCompound arch pLP fuel st s else .ok st) st

/-- The second loop of `update_parse_info`, for one typedef. -/
def updateTypedef (arch : NativeArch) (pLP : LayoutParam) (fuel : ℕ) (st : LayoutState)
    (t : ℕ) : Call LayoutState :=
  let td := st.heap.typedefAt t
  if td.decl.size < 0 then do
    let (st, info) ← getTypeInfo arch pLP fuel st td.type (some td.decl)
    if info.noStructDecl then .ok st
    else .ok { st with heap := st.heap.setTypedef t { td with decl :=
      { td.decl with size := i32 info.size, item_size := i32 info.item_size } } }
  else .ok st

def updateParseInfo (arch : NativeArch) (pLP : LayoutParam) (fuel : ℕ) (cpi : CParseInfo)
    (bl : BitfieldLayouter) : Call (CParseInfo × BitfieldLayouter) := do
  let st ← updateStructs arch pLP fuel ⟨cpi.heap, bl⟩ cpi.structs
  let st ← (cpi.typedef_lists.flatMap TypedefList.typedefs).foldlM (updateTypedef arch pLP fuel) st
  .ok ({ cpi with heap := st.heap }, st.bl)

end ConvertBinaryC
