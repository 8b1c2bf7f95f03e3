import ConvertBinaryC.BitCounterRules
import ConvertBinaryC.CTLibLayoutRun
import ConvertBinaryC.CTLibTypeInfo

/-! The layout that the declarations stand for (compare `ctlib/layout.c`): the sizes of
arrays are products, offsets and sizes are sums of integers, and nothing is converted when
it is stored. Bit-fields are placed by the same layouters. -/
namespace ConvertBinaryC
open FoldRules BitCounterRules

/-- What layouts over the integers can differ in: the products of dimensions that can be formed, and
the size of a union behind a bit-field. -/
structure ExactRule where
  product : ℤ → List Value → Bool
  union : ℤ → ℤ → ℤ

namespace ExactRule

/-- What the declarations stand for. A union is as large as the largest of its members. -/
def declared : ExactRule where
  product _ _ := true
  union := max

/-- What the code makes of them. It multiplies unsigneds by longs, and a bit-field of a union
replaces the size of the union. -/
def coded : ExactRule where
  product size dims := decide (FitsAs u32 (u32 size) dims)
  union _ offset := offset

end ExactRule

section Exact
variable (rule : ExactRule)

/-- The type information about a declarator. There is no array of a negative size. -/
def exactDeclare (info : TypeInfo) (dims : List Value) : Call TypeInfo :=
  let size := info.size * (dims.map Value.iv).prod
  if size < 0 ∨ rule.product info.size dims = false then .error .undefinedBehaviour
  else .ok { info with
    item_size := info.size, size := size, riskyVal := info.riskyVal || dims.any Value.risky }

variable (kind : CompoundKind) (alignment : ℤ)

/-- The size after a run of bit-fields. The layouters count forwards, so their offset is
negative only after an overflow of one of their counters. Alignments have 16 bits. -/
def exactFinish (f : Frame) : Call Frame :=
  let bl := f.bl.finalize
  if bl.offset < 0 ∨ bl.align ≤ 0 ∨ 65536 ≤ bl.align then .error .undefinedBehaviour
  else .ok { f with
    bl := bl
    align := bl.align
    size := match kind with
      | .struct => bl.offset
      | .union => rule.union f.size bl.offset }

def exactFinishOpen (f : Frame) : Call Frame :=
  if f.in_bitfield then do
    let f ← exactFinish rule kind f
    .ok { f with in_bitfield := false }
  else .ok f

/-- A member of a struct starts at the first multiple of its alignment; a union is as
large as the largest of its members. -/
def exactPlace (info : TypeInfo) (f : Frame) : Call (ℤ × Frame) :=
  let align := min info.align alignment
  let f := { f with align := max f.align align }
  match kind with
  | .struct =>
    if align ≤ 0 then .error .divideByZero
    else .ok (roundUp f.size align, { f with size := roundUp f.size align + info.size })
  | .union => .ok (0, { f with size := max f.size info.size })

/-- The storage unit of the field that was pushed last. A unit of the Generic class is the
smallest integer that holds the field. -/
def BitfieldLayouter.exactRecord (self : BitfieldLayouter) (pDecl : Declarator) : Declarator :=
  let sized (size : ℤ) : DeclaratorExt := match pDecl.ext with
    | .bitfield bit => .bitfield { bit with size := size }
    | ext => ext
  match self.blc with
  | .generic _ => { pDecl with offset := self.offset }
  | .microsoft u =>
    { pDecl with offset := self.offset, size := u.cur_type_size, ext := sized u.cur_type_size }
  | .simple b =>
    { pDecl with offset := self.offset + b.pos, size := b.block_size, ext := sized b.block_size }

def exactPush (info : TypeInfo) (f : Frame) (pDecl : Declarator) (bit : BitfieldInfo) :
    Call (Frame × Declarator) := do
  let bl ← startBitfield kind f
  let (error, bl, pDecl) ← bl.push ⟨pDecl, bit, info.item_size, info.align⟩
  match error with
  | .bitfieldTooWide => .error (.fatal "couldn't push bitfield => error 2")
  | .noError =>
    -- a zero width has no storage unit
    let pDecl := if bit.bits = 0 then pDecl else bl.exactRecord pDecl
    match kind with
    | .struct => .ok ({ f with bl := bl, in_bitfield := true }, pDecl)
    | .union => do
      let f ← exactFinish rule kind { f with bl := bl }
      .ok (f, pDecl)

def exactDeclarator (info : TypeInfo) (f : Frame) (offset : ℤ) (pDecl : Declarator) :
    Call ((Frame × ℤ) × Declarator) :=
  let f := noteFlags f info pDecl.isBitfield
  match pDecl.ext with
  | .bitfield bit => do
    let (f, pDecl) ← exactPush rule kind info f pDecl bit
    .ok ((f, offset), pDecl)
  | _ => do
    let f ← exactFinishOpen rule kind f
    let (pos, f) ← exactPlace kind alignment info f
    .ok ((f, if offset < 0 then pos else offset),
      { pDecl with offset := pos, size := info.size, item_size := info.item_size })

section Query
variable {σ : Type} (query : TypeQuery σ)

def exactQueryDeclarator (type : TypeSpec) (acc : σ × Frame × ℤ) (pDecl : Declarator) :
    Call ((σ × Frame × ℤ) × Declarator) := do
  let (x, f, offset) := acc
  let (x, bl, info) ← query x f type (some pDecl)
  let ((f, offset), pDecl) ← exactDeclarator rule kind alignment info { f with bl := bl } offset pDecl
  .ok ((x, f, offset), pDecl)

def exactQueryUnnamed (type : TypeSpec) (acc : σ × Frame × ℤ) : Call (σ × Frame × ℤ) := do
  let (x, f, offset) := acc
  let f ← exactFinishOpen rule kind f
  let (x, bl, info) ← query x f type none
  let (pos, f) ← exactPlace kind alignment info (noteFlags { f with bl := bl } info false)
  .ok (x, f, if offset < 0 then pos else offset)

def exactQueryMembers (pStructDecl : StructDeclaration) (acc : σ × Frame × ℤ) :
    Call ((σ × Frame × ℤ) × Option (List Declarator)) :=
  match pStructDecl.declarators with
  | none => do
    let acc ← exactQueryUnnamed rule kind alignment query pStructDecl.type acc
    .ok (acc, none)
  | some declarators => do
    let (acc, declarators) ←
      mapAccumM (exactQueryDeclarator rule kind alignment query pStructDecl.type) acc declarators
    .ok (acc, some declarators)

def exactDeclaration (acc : σ × Frame) (pStructDecl : StructDeclaration) :
    Call ((σ × Frame) × StructDeclaration) := do
  let ((x, f, offset), declarators) ←
    exactQueryMembers rule kind alignment query pStructDecl (acc.1, acc.2, startOffset kind)
  let offset := if offset < 0 then f.size else offset
  .ok ((x, f), { pStructDecl with
    declarators := declarators, offset := offset, size := f.size - offset })

end Query

def exactFinishStruct (f : Frame) (pStruct : Struct) (declarations : List StructDeclaration) :
    Call (BitfieldLayouter × Struct) := do
  let f ← exactFinishOpen rule kind f
  if f.align = 0 then .error .divideByZero
  else .ok (f.bl, { { f with size := roundUp f.size f.align }.store pStruct with
    declarations := some declarations })

end Exact

section Layout
variable (rule : ExactRule) (arch : NativeArch) (pLP : LayoutParam)

def exactStruct {σ : Type} (query : TypeQuery σ) (x : σ) (bl : BitfieldLayouter)
    (pStruct : Struct) : Call (σ × BitfieldLayouter × Struct) :=
  match pStruct.declarations with
  | none => .ok (x, bl, pStruct)
  | some declarations => do
    let ((x, f), declarations) ←
      mapAccumM (exactDeclaration rule pStruct.kind (structAlignment arch pLP pStruct) query)
        (x, initialFrame arch pLP bl pStruct) declarations
    let (bl, pStruct) ← exactFinishStruct rule pStruct.kind f pStruct declarations
    .ok (x, bl, pStruct)

mutual

/-- `getTypeInfo` in integers. A compound inside of one of the `opened` ones, whose layouts are going
on, has no size. -/
def exactTypeInfo : ℕ → List ℕ → LayoutState → TypeSpec → Option Declarator →
    Call (LayoutState × TypeInfo)
  | 0, _, _, _, _ => .error .outOfFuel
  | fuel + 1, opened, st, type, pDecl => do
    let (st, info) ← (if pDecl.any Declarator.pointer_flag then
        .ok (st, TypeInfo.scalar (loadSize pLP.ptr_size arch.ptr_size))
      else
        match type with
        | .typedef pTypedef =>
          let td := st.heap.typedefAt pTypedef
          exactTypeInfo fuel opened st td.type (some td.decl)
        | .enum pES => .ok (st, TypeInfo.scalar (enumTypeSize pLP (st.heap.enumAt pES)))
        | .compound _ s =>
          if s ∈ opened then .error .divergence
          else do
            let st ← (if (st.heap.structAt s).declarations.isSome ∧ (st.heap.structAt s).align = 0 then
              exactCompound fuel opened st s else .ok st : Call LayoutState)
            .ok (st, structInfo arch pLP (st.heap.structAt s))
        | .basic tflags => .ok (st, TypeInfo.scalar (basicSize arch pLP tflags)) :
      Call (LayoutState × TypeInfo))
    let info ← exactDeclare rule info ((pDecl.map Declarator.dims).getD [])
    .ok (st, info)

/-- `layoutCompound` in integers. -/
def exactCompound : ℕ → List ℕ → LayoutState → ℕ → Call LayoutState
  | 0, _, _, _ => .error .outOfFuel
  | fuel + 1, opened, st, s => do
    let (heap, bl, pStruct) ← exactStruct rule arch pLP (heapQuery (exactTypeInfo fuel (s :: opened)) s)
      st.heap st.bl (st.heap.structAt s)
    .ok ⟨heap.setStruct s pStruct, bl⟩

end

end Layout

def CParseInfo.typedefs (cpi : CParseInfo) : List ℕ :=
  cpi.typedef_lists.flatMap TypedefList.typedefs

/-- The fields in which sizes and offsets are stored (`ctlib/cttype.h`). -/
inductive Field where
  | declaratorOffset
  | int
  | unsigned
  | unsignedChar
  deriving DecidableEq, Repr

/-- What is too large for a field; `declaratorOffset` has 29 bits with the sign. -/
def Field.bound : Field → ℤ
  | .declaratorOffset => 268435456
  | .int => 2147483648
  | .unsigned => 4294967296
  | .unsignedChar => 256

/-- A number with the field it is stored in. -/
structure Stored where
  field : Field
  value : ℤ

def Stored.Fits (v : Stored) : Prop := 0 ≤ v.value ∧ v.value < v.field.bound

/-- The sizes and offsets that a layout stores in a declarator. -/
def Declarator.stored (pDecl : Declarator) : List Stored :=
  match pDecl.ext with
  | .bitfield bit =>
    if bit.bits = 0 then []
    else [⟨.declaratorOffset, pDecl.offset⟩, ⟨.int, pDecl.size⟩, ⟨.unsignedChar, bit.size⟩]
  | _ => [⟨.declaratorOffset, pDecl.offset⟩, ⟨.int, pDecl.size⟩, ⟨.int, pDecl.item_size⟩]

def StructDeclaration.stored (pStructDecl : StructDeclaration) : List Stored :=
  ⟨.int, pStructDecl.offset⟩ :: ⟨.int, pStructDecl.size⟩ ::
    (pStructDecl.declarators.getD []).flatMap Declarator.stored

def Struct.stored (pStruct : Struct) : List Stored :=
  ⟨.unsigned, pStruct.size⟩ ::
    (pStruct.declarations.getD []).flatMap StructDeclaration.stored

/-- A negative size stands for a typedef whose type has no size. -/
def Typedef.stored (td : Typedef) : List Stored :=
  if td.decl.size < 0 then [] else [⟨.int, td.decl.size⟩, ⟨.int, td.decl.item_size⟩]

/-- What is stored in a compound that is laid out or in a typedef. -/
inductive CParseInfo.Stores (cpi : CParseInfo) (v : Stored) : Prop
  | struct (s : ℕ) (halign : (cpi.heap.structAt s).align ≠ 0)
      (h : v ∈ (cpi.heap.structAt s).stored)
  | typedef (t : ℕ) (ht : t ∈ cpi.typedefs) (h : v ∈ (cpi.heap.typedefAt t).stored)

end ConvertBinaryC
