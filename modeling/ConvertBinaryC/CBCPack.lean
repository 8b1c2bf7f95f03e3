import ConvertBinaryC.CBCPackInfo

/-! Packing (`pack_*` of `cbc/pack.c`). The two functions that call each other are
written over the functions they call, and closed by a recursion of bounded depth. -/
namespace ConvertBinaryC

section Leaves
variable (perl : Perl) (cbc : CBC)

/-- Store `n` bytes at the position. -/
def storeBytes (n : ℕ) (bytes : ℕ → Byte) : Pk Unit := do
  let st ← get
  if st.pos + n > st.length then throw .undefinedBehaviour
  else set { st with
    buffer := fun i => if st.pos.toNat ≤ i ∧ i < st.pos.toNat + n then bytes (i - st.pos.toNat)
      else st.buffer i }

/-- `store_integer` at the position, with the arguments of `SF_INT_ARGS`. -/
def storeInt (size : ℤ) (pBI : Option BitfieldInfo) (iv : IntValue) : Pk Unit := do
  let st ← get
  let order := intOrder cbc st pBI
  emit (.access st.path pBI.isSome order st.pos size)
  if st.pos + size > st.length then throw .undefinedBehaviour
  else do
    let buffer ← liftCall (storeInteger size.toNat (bitsOf pBI).1 (bitsOf pBI).2 order st.buffer
      st.pos.toNat iv)
    modify fun st => { st with buffer := buffer }

/-- `store_int_sv` -/
def storeIntSv (size : ℤ) (sign : Bool) (pBI : Option BitfieldInfo) (s : Scalar) : Pk Unit :=
  let string := s.pok.bind fun bytes =>
    if stringIsInteger (cString bytes) ≠ 0 then some (cString bytes) else none
  let value := if sign then BitVec.ofInt 64 (perl.intOf s).1 else BitVec.ofInt 64 (perl.unsignedOf s).1
  storeInt cbc size pBI ⟨value, sign, string⟩

/-- `store_float_sv`; a type or a size that is not supported only gets a warning. -/
def storeFloatSv (size : ℤ) (flags : TFlags) (s : Scalar) : Pk Unit := do
  if isFpType flags && isFpSize cbc size then do
    let st ← get
    emit (.access st.path false st.order st.pos size)
    let bytes := List.ofFn (perl.floatBytes size.toNat s)
    let bytes := if st.order = cbc.nativeByteorder then bytes else bytes.reverse
    storeBytes bytes.length fun i => bytes.getD i 0
  else pure ()

def packPointer (sv : SV) : Pk Unit := do
  growBuffer perl (ptrSize cbc)
  match sv with
  | .scalar s => storeIntSv perl cbc (ptrSize cbc) false none s
  | _ => pure ()

def packBasic (flags : TFlags) (pBI : Option BitfieldInfo) (sv : SV) : Pk Unit := do
  let (size, flags) := packLoadSize cbc flags pBI
  growBuffer perl size
  match sv with
  | .scalar s =>
    if flags.test (T_DOUBLE ||| T_FLOAT) then storeFloatSv perl cbc size flags s
    else storeIntSv perl cbc size (!flags.test T_UNSIGNED) pBI s
  | _ => pure ()

/-- The bytes that `Copy` and `strncpy` store: the latter fills up with zeros from the
end of the C string on. -/
def formatByte (format : FormatTag) (p : List Byte) (i : ℕ) : Byte :=
  match format with
  | .binary => p.getD i 0
  | .string => (p.takeWhile (· ≠ 0)).getD i 0

/-- The length of the source string of a flexible format, and the size that it needs. -/
def flexibleFormat (format : FormatTag) (size : ℤ) (p : List Byte) : Call (ℤ × ℤ) :=
  let len : ℤ := match format with
    | .string => (p.takeWhile (· ≠ 0)).length + 1
    | .binary => p.length
  if size = 0 then .error .divideByZero
  else .ok (len, if len % size ≠ 0 then u32 (len + size - len % size) else u32 len)

/-- Copy at most `size` of `len` bytes; the rest only gets a warning. -/
def copyFormat (format : FormatTag) (size len : ℤ) (p : List Byte) : Pk Unit := do
  let st ← get
  let len := if len > size then size else len
  emit (.copy st.path st.pos len)
  storeBytes len.toNat (formatByte format p)

/-- `pack_format` -/
def packFormat (format : FormatTag) (size : ℤ) (flexible : Bool) (sv : SV) : Pk Unit := do
  if flexible then
    if sv.defined then do
      let p := perl.stringOf sv
      let (len, size) ← liftCall (flexibleFormat format size p)
      growBuffer perl size
      copyFormat format size len p
    else pure ()
  else do
    growBuffer perl size
    if sv.defined then do
      let p := perl.stringOf sv
      copyFormat format size p.length p
    else pure ()

/-- The value of an enum: that of the scalar, or that of the enumerator that it names. -/
def enumValue (s : Scalar) : ℤ :=
  match s.iok with
  | some x => i64 x
  | none =>
    match s.pok.bind cbc.htEnumerators with
    | some pEnum => pEnum.value.iv
    | none => (perl.intOf s).1

def packEnum (pES : EnumSpecifier) (pBI : Option BitfieldInfo) (sv : SV) : Pk Unit := do
  let size := packEnumSize cbc pES pBI
  let sv ← hookCall perl (pES.tags.hooks.bind TypeHooks.pack) sv
  match pES.tags.format with
  | some format => within (.enum pES) (packFormat perl format size false sv)
  | none => inScope (.enum pES) pES.tags do
    growBuffer perl size
    match sv with
    | .scalar s =>
      let value := enumValue perl cbc s
      storeInt cbc size pBI ⟨BitVec.ofInt 64 value, decide (value < 0), none⟩
    | _ => pure ()

end Leaves

/-- The tags of the type that a pointer points to, for `hook_call_typespec`. -/
def typespecHooks (heap : Heap) (pTS : TypeSpec) : Option TypeHooks :=
  match pTS with
  | .basic _ => none
  | .typedef t => (heap.typedefAt t).decl.tags.hooks
  | .compound _ s => (heap.structAt s).tags.hooks
  | .enum e => (heap.enumAt e).tags.hooks

/-- Is the number of elements left to the data? -/
def isFlexible (pDecl : Declarator) (dimension : ℕ) (dimtag : Option DimensionTag) : Bool :=
  match dimtag, pDecl.dims[dimension]? with
  | some tag, _ => decide (tag = .flexible)
  | none, some v => v.undef
  | none, none => false

abbrev PackTypeFn := TypeSpec → Option Declarator → ℕ → Option BitfieldInfo → SV → Pk Unit
abbrev PackStructFn := ℕ → SV → Bool → Pk Unit

section Steps
variable (perl : Perl) (cbc : CBC) (fuel : ℕ) (packType : PackTypeFn) (packStruct : PackStructFn)

/-- The number of elements of an array, and the growth that a dynamic array needs. -/
def packCount (pDecl : Declarator) (dimension : ℕ) (dimtag : Option DimensionTag) (size avail : ℤ) :
    Pk ℤ := do
  match dimtag, pDecl.dims[dimension]? with
  | some tag, _ => do
    let s ← dimtagEval perl tag avail
    let grown ← liftCall (long (s * size))
    growBuffer perl grown
    pure s
  | none, some v =>
    if v.undef then do
      let grown ← liftCall (long (avail * size))
      growBuffer perl grown
      pure avail
    else pure v.iv
  | none, none => throw .undefinedBehaviour

/-- One turn of the loop over the elements; an element that does not exist is skipped. -/
def packElement (pTS : TypeSpec) (pDecl : Declarator) (dimension : ℕ) (pos size : ℤ)
    (elem : Option SV × ℕ) : Pk Unit :=
  match elem with
  | (some sv, i) => within (.element i) do
    let distance ← liftCall (long (i * size))
    setPos (u64 (pos + distance))
    packType pTS (some pDecl) (dimension + 1) none sv
  | (none, _) => pure ()

def packArray (pTS : TypeSpec) (pDecl : Declarator) (dimension : ℕ) (dimtag : Option DimensionTag)
    (sv : SV) : Pk Unit :=
  match sv with
  | .av elems => do
    let size ← liftCall (elementStride pDecl dimension)
    let s ← packCount perl pDecl dimension dimtag size elems.length
    let st ← get
    emit (.elements st.path (isFlexible pDecl dimension dimtag) st.pos st.length size s)
    (elems.take s.toNat).zipIdx.forM (packElement packType pTS pDecl dimension st.pos size)
  | _ => do
    let size ← liftCall (timesDims pDecl.item_size (pDecl.dims.drop dimension).reverse)
    growBuffer perl size

/-- The part of `pack_type` between `SET_BYTEORDER` and `RESTORE_BYTEORDER`. -/
def packUntagged (pTS : TypeSpec) (pDecl : Option Declarator) (dimension : ℕ)
    (dimtag : Option DimensionTag) (pBI : Option BitfieldInfo) (sv : SV) : Pk Unit :=
  match pDecl.filter fun d => decide (dimension < d.dims.length) with
  | some d => packArray perl packType pTS d dimension dimtag sv
  | none =>
    if pDecl.any Declarator.pointer_flag then do
      let sv ← hookCall perl ((typespecHooks cbc.heap pTS).bind TypeHooks.packPtr) sv
      packPointer perl cbc sv
    else match pTS with
      | .typedef t =>
        let td := cbc.heap.typedefAt t
        packType td.type (some td.decl) 0 pBI sv
      | .compound _ s =>
        match (cbc.heap.structAt s).declarations with
        | none => pure ()
        | some _ => packStruct s sv false
      | .enum e => packEnum perl cbc (cbc.heap.enumAt e) pBI sv
      | .basic flags => packBasic perl cbc flags pBI sv

/-- The tags of a declarator are looked at before its first dimension. -/
def packTypeStep : PackTypeFn := fun pTS pDecl dimension pBI sv =>
  match pDecl, dimension with
  | some d, 0 => do
    let sv ← hookCall perl (d.tags.hooks.bind TypeHooks.pack) sv
    match d.tags.format with
    | some format => within (.declarator d) do
      let (size, flexible) ← preparePackFormat perl d d.tags.dimension
      packFormat perl format (u32 size) flexible sv
    | none =>
      inScope (.declarator d) d.tags
        (packUntagged perl cbc packType packStruct pTS pDecl dimension d.tags.dimension pBI sv)
  | _, _ =>
    keepByteOrder (packUntagged perl cbc packType packStruct pTS pDecl dimension none pBI sv)

/-- A member with a name that the hash has a value for. -/
def packMember (h : Hash) (pos : ℤ) (type : TypeSpec) (pDecl : Declarator) : Pk Unit :=
  match (if pDecl.identifier = "" then none else h.lookup pDecl.identifier) with
  | some e => do
    setPos (u64 (pos + pDecl.offset))
    setParent (some h)
    packType type (some pDecl) 0 (match pDecl.ext with
      | .bitfield bit => some bit
      | _ => none) e
    setParent none
  | none => pure ()

def packDeclaration (h : Hash) (pos : ℤ) (sv : SV) (pStructDecl : StructDeclaration) : Pk Unit :=
  match pStructDecl.declarators with
  | some declarators => declarators.forM (packMember packType h pos pStructDecl.type)
  | none => do
    let s ← liftCall (followTsptr cbc.heap fuel pStructDecl.type)
    setPos (u64 (pos + pStructDecl.offset))
    packStruct s sv true

/-- The part of `pack_struct` after `SET_BYTEORDER`; what is no hash gets a warning. -/
def packMembers (pStruct : Struct) (sv : SV) : Pk Unit := do
  let st ← get
  match sv with
  | .hv h =>
    (pStruct.declarations.getD []).forM
      (packDeclaration cbc fuel packType packStruct h (i64 st.pos) sv)
  | _ => pure ()

/-- The tags of an unnamed compound are ignored. -/
def packStructStep : PackStructFn := fun s sv inlined =>
  let pStruct := cbc.heap.structAt s
  if inlined then
    inScope (.inlined pStruct) .empty (packMembers cbc fuel packType packStruct pStruct sv)
  else do
    let sv ← hookCall perl (pStruct.tags.hooks.bind TypeHooks.pack) sv
    match pStruct.tags.format with
    | some format => within (.compound pStruct) (packFormat perl format pStruct.size false sv)
    | none =>
      inScope (.compound pStruct) pStruct.tags
        (packMembers cbc fuel packType packStruct pStruct sv)

end Steps

section Recursion
variable (perl : Perl) (cbc : CBC)

mutual

/-- `pack_type` -/
def packType : ℕ → PackTypeFn
  | 0 => fun _ _ _ _ _ => throw .outOfFuel
  | fuel + 1 => packTypeStep perl cbc (packType fuel) (packStruct fuel)

/-- `pack_struct` -/
def packStruct : ℕ → PackStructFn
  | 0 => fun _ _ _ => throw .outOfFuel
  | fuel + 1 => packStructStep perl cbc fuel (packType fuel) (packStruct fuel)

end

/-- `pk_pack` -/
def pkPack (fuel : ℕ) (pTS : TypeSpec) (pDecl : Option Declarator) (dimension : ℕ) (sv : SV) :
    Pk Unit := do
  restoreByteOrder cbc.pLP.byte_order
  packType perl cbc fuel pTS pDecl dimension none sv

end Recursion

end ConvertBinaryC
