import ConvertBinaryC.CBCPack
import ConvertBinaryC.CBCMember
import ConvertBinaryC.CTLibFetchStore

/-! What packing a value asks of a string: how many bytes it needs, and in which bits the
members are that the value has. Both follow from the type, the value and what the subroutines
return. There is no buffer here, and no byte is looked at. -/
namespace ConvertBinaryC

/-- Where a member is: some bytes, or the window of a bitfield in its unit. -/
inductive Patch where
  | bytes (pos size : ℤ)
  | window (pos size : ℤ) (bits shift : ℕ) (order : CByteOrder)
  deriving DecidableEq, Repr

def Patch.footprint : Patch → Set (ℕ × ℕ)
  | .bytes pos size => {p | pos ≤ p.1 ∧ p.1 < pos + size}
  | .window pos size bits shift order =>
    {p | ∃ j < 8 * size.toNat, shift ≤ j ∧ j < shift + bits ∧
      p = (pos.toNat + unitByte order size.toNat j, j % 8)}

/-- The parent and the number of calls are what the subroutines and the Dimension tags of
the members see. -/
structure PlanInfo where
  parent : Option Hash
  calls : ℕ
  needed : ℤ
  patches : List Patch

abbrev Plan := EStateM Fault PlanInfo

def PlanInfo.footprint (st : PlanInfo) : Set (ℕ × ℕ) :=
  {p | ∃ patch ∈ st.patches, p ∈ patch.footprint}

/-- A byte with a bit that is in a member. -/
def PlanInfo.Covers (st : PlanInfo) (i : ℕ) : Prop := ∃ k < 8, (i, k) ∈ st.footprint

def planCall {α : Type} (c : Call α) : Plan α :=
  match c with
  | .ok a => pure a
  | .error e => throw e

/-- Bytes are needed up to the end of an object. -/
def planNeed (pos size : ℤ) : Plan Unit :=
  modify fun st => { st with needed := max st.needed (u64 (pos + size)) }

def planPatch (patch : Patch) : Plan Unit :=
  modify fun st => { st with patches := st.patches ++ [patch] }

def planParent (parent : Option Hash) : Plan Unit := modify fun st => { st with parent := parent }

section Leaves
variable (perl : Perl) (cbc : CBC)

def planSub (sub : ℕ) (arg : Option SV) : Plan SV := do
  let st ← get
  set { st with calls := st.calls + 1 }
  match perl.call st.calls sub arg with
  | .ok sv => pure sv
  | .error msg => throw (.croak msg)

def planHook (hook : Option ℕ) (sv : SV) : Plan SV :=
  match hook with
  | some sub => planSub perl sub (some sv)
  | none => pure sv

/-- The number that a Dimension tag stands for. -/
def planDimension (tag : DimensionTag) (avail : ℤ) : Plan ℤ :=
  match tag with
  | .none => throw (.fatal "Invalid dimension tag type in dimtag_get()")
  | .flexible => pure avail
  | .fixed dim => pure (i64 dim)
  | .member expr => do
    let st ← get
    match st.parent with
    | none => pure 0
    | some parent => do
      let dim ← planCall (dimensionWalk perl parent none (memberExpr expr.toList))
      pure dim.1
  | .hook sub => do
    let st ← get
    let sv ← planSub perl sub (st.parent.map .hv)
    pure (svToDimension perl sv).1

/-- An integer is in all of its bytes. A bitfield is in its bits of the unit, in the byte
order of the object; without any bits it is the unit. -/
def integerPatch (pos size : ℤ) (pBI : Option BitfieldInfo) : Patch :=
  match pBI with
  | some bit =>
    if bit.bits ≤ 0 then .bytes pos size
    else .window pos size bit.bits.toNat bit.pos.toNat cbc.pLP.byte_order
  | none => .bytes pos size

def planPointer (pos : ℤ) (sv : SV) : Plan Unit := do
  planNeed pos (ptrSize cbc)
  match sv with
  | .scalar _ => planPatch (.bytes pos (ptrSize cbc))
  | _ => pure ()

/-- A floating point type that is not supported is in no bytes. -/
def planBasic (pos : ℤ) (flags : TFlags) (pBI : Option BitfieldInfo) (sv : SV) : Plan Unit := do
  let (size, flags) := packLoadSize cbc flags pBI
  planNeed pos size
  match sv with
  | .scalar _ =>
    if flags.test (T_DOUBLE ||| T_FLOAT) then
      if isFpType flags && isFpSize cbc size then planPatch (.bytes pos size) else pure ()
    else planPatch (integerPatch cbc pos size pBI)
  | _ => pure ()

def planFormat (pos : ℤ) (format : FormatTag) (size : ℤ) (flexible : Bool) (sv : SV) :
    Plan Unit := do
  if flexible then
    if sv.defined then do
      let (len, size) ← planCall (flexibleFormat format size (perl.stringOf sv))
      planNeed pos size
      planPatch (.bytes pos (min size len))
    else pure ()
  else do
    planNeed pos size
    if sv.defined then planPatch (.bytes pos (min size (perl.stringOf sv).length)) else pure ()

def planEnum (pos : ℤ) (pES : EnumSpecifier) (pBI : Option BitfieldInfo) (sv : SV) : Plan Unit := do
  let size := packEnumSize cbc pES pBI
  let sv ← planHook perl (pES.tags.hooks.bind TypeHooks.pack) sv
  match pES.tags.format with
  | some format => planFormat perl pos format size false sv
  | none => do
    planNeed pos size
    match sv with
    | .scalar _ => planPatch (integerPatch cbc pos size pBI)
    | _ => pure ()

/-- The size of an array that has a Format tag, and whether its data give it. -/
def planFormatSize (pDecl : Declarator) : Plan (ℤ × Bool) := do
  let one ← planCall (formatUnit pDecl pDecl.tags.dimension)
  if formatFlexible pDecl pDecl.tags.dimension then pure (one, true)
  else match pDecl.tags.dimension with
    | some tag => do
      let dim ← planDimension perl tag 0
      let size ← planCall (long (one * dim))
      pure (i32 size, false)
    | none => pure (pDecl.size, false)

/-- The number of elements; those that no declared dimension counts need bytes of their own. -/
def planCount (pos : ℤ) (pDecl : Declarator) (dimension : ℕ) (dimtag : Option DimensionTag)
    (size avail : ℤ) : Plan ℤ := do
  match dimtag, pDecl.dims[dimension]? with
  | some tag, _ => do
    let s ← planDimension perl tag avail
    let grown ← planCall (long (s * size))
    planNeed pos grown
    pure s
  | none, some v =>
    if v.undef then do
      let grown ← planCall (long (avail * size))
      planNeed pos grown
      pure avail
    else pure v.iv
  | none, none => throw .undefinedBehaviour

end Leaves

/-! The functions take the position of the object that they are for. -/
abbrev PlanTypeFn := ℤ → TypeSpec → Option Declarator → ℕ → Option BitfieldInfo → SV → Plan Unit
abbrev PlanStructFn := ℤ → ℕ → SV → Bool → Plan Unit

section Steps
variable (perl : Perl) (cbc : CBC) (fuel : ℕ) (planType : PlanTypeFn) (planStruct : PlanStructFn)
  (pos : ℤ)

def planElement (pTS : TypeSpec) (pDecl : Declarator) (dimension : ℕ) (size : ℤ)
    (elem : Option SV × ℕ) : Plan Unit :=
  match elem with
  | (some sv, i) => do
    let distance ← planCall (long (i * size))
    planType (u64 (pos + distance)) pTS (some pDecl) (dimension + 1) none sv
  | (none, _) => pure ()

def planArray (pTS : TypeSpec) (pDecl : Declarator) (dimension : ℕ) (dimtag : Option DimensionTag)
    (sv : SV) : Plan Unit :=
  match sv with
  | .av elems => do
    let size ← planCall (elementStride pDecl dimension)
    let s ← planCount perl pos pDecl dimension dimtag size elems.length
    (elems.take s.toNat).zipIdx.forM (planElement planType pos pTS pDecl dimension size)
  | _ => do
    let size ← planCall (timesDims pDecl.item_size (pDecl.dims.drop dimension).reverse)
    planNeed pos size

def planUntagged (pTS : TypeSpec) (pDecl : Option Declarator) (dimension : ℕ)
    (dimtag : Option DimensionTag) (pBI : Option BitfieldInfo) (sv : SV) : Plan Unit :=
  match pDecl.filter fun d => decide (dimension < d.dims.length) with
  | some d => planArray perl planType pos pTS d dimension dimtag sv
  | none =>
    if pDecl.any Declarator.pointer_flag then do
      let sv ← planHook perl ((typespecHooks cbc.heap pTS).bind TypeHooks.packPtr) sv
      planPointer cbc pos sv
    else match pTS with
      | .typedef t =>
        planType pos (cbc.heap.typedefAt t).type (some (cbc.heap.typedefAt t).decl) 0 pBI sv
      | .compound _ s =>
        if (cbc.heap.structAt s).declarations.isSome then planStruct pos s sv false else pure ()
      | .enum e => planEnum perl cbc pos (cbc.heap.enumAt e) pBI sv
      | .basic flags => planBasic cbc pos flags pBI sv

def planTypeStep (pTS : TypeSpec) (pDecl : Option Declarator) (dimension : ℕ)
    (pBI : Option BitfieldInfo) (sv : SV) : Plan Unit :=
  match pDecl, dimension with
  | some d, 0 => do
    let sv ← planHook perl (d.tags.hooks.bind TypeHooks.pack) sv
    match d.tags.format with
    | some format => do
      let (size, flexible) ← planFormatSize perl d
      planFormat perl pos format (u32 size) flexible sv
    | none => planUntagged perl cbc planType planStruct pos pTS pDecl 0 d.tags.dimension pBI sv
  | _, _ => planUntagged perl cbc planType planStruct pos pTS pDecl dimension none pBI sv

/-- The members of a hash that it has values for; while one is planned, the hash is the parent. -/
def planMember (h : Hash) (type : TypeSpec) (pDecl : Declarator) : Plan Unit :=
  match (if pDecl.identifier = "" then none else h.lookup pDecl.identifier) with
  | some e => do
    planParent (some h)
    planType (u64 (pos + pDecl.offset)) type (some pDecl) 0 (match pDecl.ext with
      | .bitfield bit => some bit
      | _ => none) e
    planParent none
  | none => pure ()

def planDeclaration (h : Hash) (sv : SV) (pStructDecl : StructDeclaration) : Plan Unit :=
  match pStructDecl.declarators with
  | some declarators => declarators.forM (planMember planType pos h pStructDecl.type)
  | none => do
    let s ← planCall (followTsptr cbc.heap fuel pStructDecl.type)
    planStruct (u64 (pos + pStructDecl.offset)) s sv true

def planMembers (pStruct : Struct) (sv : SV) : Plan Unit :=
  match sv with
  | .hv h =>
    (pStruct.declarations.getD []).forM
      (planDeclaration cbc fuel planType planStruct (i64 pos) h sv)
  | _ => pure ()

def planStructStep (s : ℕ) (sv : SV) (inlined : Bool) : Plan Unit :=
  let pStruct := cbc.heap.structAt s
  if inlined then planMembers cbc fuel planType planStruct pos pStruct sv
  else do
    let sv ← planHook perl (pStruct.tags.hooks.bind TypeHooks.pack) sv
    match pStruct.tags.format with
    | some format => planFormat perl pos format pStruct.size false sv
    | none => planMembers cbc fuel planType planStruct pos pStruct sv

end Steps

section Recursion
variable (perl : Perl) (cbc : CBC)

mutual

def planType : ℕ → PlanTypeFn
  | 0 => fun _ _ _ _ _ _ => throw .outOfFuel
  | fuel + 1 => planTypeStep perl cbc (planType fuel) (planStruct fuel)

def planStruct : ℕ → PlanStructFn
  | 0 => fun _ _ _ _ => throw .outOfFuel
  | fuel + 1 => planStructStep perl cbc fuel (planType fuel) (planStruct fuel)

end

end Recursion

end ConvertBinaryC
