import ConvertBinaryC.CBCPack

/-! Unpacking (`unpack_*` of `cbc/pack.c`), written like packing. -/
namespace ConvertBinaryC

section Leaves
variable (perl : Perl) (cbc : CBC)

/-- `fetch_integer` at the position, with the arguments of `SF_INT_ARGS`. For a size that
the switch does not handle the value is read uninitialized. -/
def fetchInt (size : ℤ) (sign : Bool) (pBI : Option BitfieldInfo) : Pk IntValue := do
  let st ← get
  let order := intOrder cbc st pBI
  emit (.access st.path pBI.isSome order st.pos size)
  if st.pos + size > st.length then throw .undefinedBehaviour
  else if IntegerSize size.toNat then
    liftCall (fetchInteger size.toNat sign (bitsOf pBI).1 (bitsOf pBI).2 order st.buffer
      st.pos.toNat ⟨0, sign, none⟩)
  else throw .undefinedBehaviour

/-- `fetch_int_sv`; its detour over a string is only for sizes above 8. -/
def fetchIntSv (size : ℤ) (sign : Bool) (pBI : Option BitfieldInfo) : Pk SV := do
  let iv ← fetchInt cbc size sign pBI
  pure (newSViv (if sign then iv.value.toInt else iv.value.toNat))

/-- The bytes at the position. -/
def fetchBytes (n : ℕ) : Pk (List Byte) := do
  let st ← get
  if st.pos + n > st.length then throw .undefinedBehaviour
  else pure ((List.range n).map fun i => st.buffer (st.pos.toNat + i))

/-- `fetch_float_sv`; a type or a size that is not supported reads as zero. -/
def fetchFloatSv (size : ℤ) (flags : TFlags) : Pk SV := do
  if isFpType flags && isFpSize cbc size then do
    let st ← get
    emit (.access st.path false st.order st.pos size)
    let bytes ← fetchBytes size.toNat
    pure (newSVnv (perl.floatValue (if st.order = cbc.nativeByteorder then bytes else bytes.reverse)))
  else pure (newSVnv 0)

def unpackPointer : Pk SV := do
  if ← checkBuffer (ptrSize cbc) then pure .undef
  else fetchIntSv cbc (ptrSize cbc) false none

def unpackBasic (flags : TFlags) (pBI : Option BitfieldInfo) : Pk SV := do
  let (size, flags) := packLoadSize cbc flags pBI
  if ← checkBuffer size then pure .undef
  else if flags.test (T_FLOAT ||| T_DOUBLE) then fetchFloatSv perl cbc size flags
  else fetchIntSv cbc size (!flags.test T_UNSIGNED) pBI

/-- What a flexible format unpacks: the rest of the data, as an `unsigned`, less what is
no whole element. -/
def flexibleRest (length pos size : ℤ) : Call ℤ :=
  let remain := u32 (length - pos)
  if size = 0 then .error .divideByZero else .ok (remain - remain % size)

/-- `unpack_format` -/
def unpackFormat (format : FormatTag) (size : ℤ) (flexible : Bool) : Pk SV := do
  let st ← get
  if u64 (st.pos + size) > st.length then pure (newSVpvn [])
  else do
    let size ← liftCall (if flexible then flexibleRest st.length st.pos size else .ok size)
    emit (.copy st.path st.pos size)
    let bytes ← fetchBytes size.toNat
    match format with
    | .binary => pure (newSVpvn bytes)
    | .string => pure (newSVpvn (bytes.takeWhile (· ≠ 0)))

/-- What an enum unpacks to, for its value. -/
def enumSv (pES : EnumSpecifier) (value : ℤ) : SV :=
  let name := match (pES.enumerators.getD []).find? fun pEnum => pEnum.value.iv = value with
    | some pEnum => pEnum.identifier
    | none => "<ENUM:" ++ toString value ++ ">"
  match cbc.enumType with
  | .integer => newSViv value
  | .both => .scalar ⟨some value, none, some (textBytes name)⟩
  | .string => newSVpvn (textBytes name)

/-- `unpack_enum`. When the data is too short, `CHECK_BUFFER` returns between
`SET_BYTEORDER` and `RESTORE_BYTEORDER`. -/
def unpackEnum (pES : EnumSpecifier) (pBI : Option BitfieldInfo) : Pk SV := do
  let size := packEnumSize cbc pES pBI
  let old_byte_order ← byteOrder
  let hook := pES.tags.hooks.bind TypeHooks.unpack
  match pES.tags.format with
  | some format => do
    let sv ← within (.enum pES) (unpackFormat format size false)
    hookCall perl hook sv
  | none => do
    setByteOrder pES.tags
    if ← checkBuffer size then pure .undef
    else do
      let iv ← within (.enum pES) (fetchInt cbc size pES.signed pBI)
      restoreByteOrder old_byte_order
      hookCall perl hook (enumSv cbc pES iv.value.toInt)

end Leaves

abbrev UnpackTypeFn := TypeSpec → Option Declarator → ℕ → Option BitfieldInfo → Pk SV
abbrev UnpackStructFn := ℕ → Option Hash → Pk SV

section Steps
variable (perl : Perl) (cbc : CBC) (fuel : ℕ) (unpackType : UnpackTypeFn)
  (unpackStruct : UnpackStructFn)

/-- The number of elements that the rest of the data is good for. The length and the
position are unsigned, so the difference wraps around when the position is behind
the end. -/
def availElements (length pos size : ℤ) : Call ℤ :=
  if size = 0 then .error .divideByZero
  else .ok (i64 (u64 (u64 (length - pos) + (size - 1)) / u64 size))

/-- The number of elements of an array. -/
def unpackCount (pDecl : Declarator) (dimension : ℕ) (dimtag : Option DimensionTag) (avail : ℤ) :
    Pk ℤ := do
  match dimtag, pDecl.dims[dimension]? with
  | some tag, _ => dimtagEval perl tag avail
  | none, some v => pure (if v.undef then avail else v.iv)
  | none, none => throw .undefinedBehaviour

/-- `av_extend` for `s` elements. -/
def avExtend (s : ℤ) : Pk Unit :=
  if 8 * s > perl.memory then throw (.fatal "Out of memory!") else pure ()

/-- The data may end before the array starts, which must not make a negative number of
elements. -/
def loopBound (s : ℤ) : ℤ := if s < 0 then 0 else s

/-- The array case before its loop: the size of an element, the position of the first
one and the number of elements. -/
def unpackArrayHead (pDecl : Declarator) (dimension : ℕ) (dimtag : Option DimensionTag) :
    Pk (ℤ × ℤ × ℤ) := do
  let size ← liftCall (elementStride pDecl dimension)
  let st ← get
  let avail ← liftCall (availElements st.length st.pos size)
  let s ← unpackCount perl pDecl dimension dimtag avail
  let s := loopBound s
  emit (.elements st.path (isFlexible pDecl dimension dimtag) st.pos st.length size s)
  avExtend perl s
  pure (size, st.pos, s)

/-- One turn of the loop over the elements. -/
def unpackElement (pTS : TypeSpec) (pDecl : Declarator) (dimension : ℕ) (pos size : ℤ) (i : ℕ) :
    Pk SV :=
  within (.element i) do
    let distance ← liftCall (long (i * size))
    setPos (u64 (pos + distance))
    unpackType pTS (some pDecl) (dimension + 1) none

def unpackArray (pTS : TypeSpec) (pDecl : Declarator) (dimension : ℕ)
    (dimtag : Option DimensionTag) : Pk SV := do
  let (size, pos, s) ← unpackArrayHead perl pDecl dimension dimtag
  let elems ← (List.range s.toNat).mapM (unpackElement unpackType pTS pDecl dimension pos size)
  pure (.av (elems.map some))

/-- The part of `unpack_type` between `SET_BYTEORDER` and `RESTORE_BYTEORDER`. -/
def unpackUntagged (pTS : TypeSpec) (pDecl : Option Declarator) (dimension : ℕ)
    (dimtag : Option DimensionTag) (pBI : Option BitfieldInfo) : Pk SV :=
  match pDecl.filter fun d => decide (dimension < d.dims.length) with
  | some d => unpackArray perl unpackType pTS d dimension dimtag
  | none =>
    if pDecl.any Declarator.pointer_flag then do
      let rv ← unpackPointer cbc
      hookCall perl ((typespecHooks cbc.heap pTS).bind TypeHooks.unpackPtr) rv
    else match pTS with
      | .typedef t =>
        let td := cbc.heap.typedefAt t
        unpackType td.type (some td.decl) 0 pBI
      | .compound _ s =>
        match (cbc.heap.structAt s).declarations with
        | none => pure .undef
        | some _ => unpackStruct s none
      | .enum e => unpackEnum perl cbc (cbc.heap.enumAt e) pBI
      | .basic flags => unpackBasic perl cbc flags pBI

def unpackTypeStep : UnpackTypeFn := fun pTS pDecl dimension pBI =>
  match pDecl, dimension with
  | some d, 0 => do
    let hook := d.tags.hooks.bind TypeHooks.unpack
    match d.tags.format with
    | some format => do
      let rv ← within (.declarator d) do
        let (size, flexible) ← preparePackFormat perl d d.tags.dimension
        unpackFormat format (u32 size) flexible
      hookCall perl hook rv
    | none => do
      let rv ← inScope (.declarator d) d.tags
        (unpackUntagged perl cbc unpackType unpackStruct pTS pDecl dimension d.tags.dimension pBI)
      hookCall perl hook rv
  | _, _ =>
    keepByteOrder (unpackUntagged perl cbc unpackType unpackStruct pTS pDecl dimension none pBI)

/-- A member with a name that the hash does not have yet. -/
def unpackMember (pos : ℤ) (type : TypeSpec) (h : Hash) (pDecl : Declarator) : Pk Hash :=
  if pDecl.identifier = "" ∨ (h.lookup pDecl.identifier).isSome then pure h
  else do
    setPos (u64 (pos + pDecl.offset))
    setParent (some h)
    let value ← unpackType type (some pDecl) 0 (match pDecl.ext with
      | .bitfield bit => some bit
      | _ => none)
    setParent none
    pure (h ++ [(pDecl.identifier, value)])

/-- An unnamed compound adds its members to the hash that it is called with. -/
def unpackDeclaration (pos : ℤ) (h : Hash) (pStructDecl : StructDeclaration) : Pk Hash :=
  match pStructDecl.declarators with
  | some declarators => declarators.foldlM (unpackMember unpackType pos pStructDecl.type) h
  | none => do
    let s ← liftCall (followTsptr cbc.heap fuel pStructDecl.type)
    setPos (u64 (pos + pStructDecl.offset))
    match ← unpackStruct s (some h) with
    | .hv h => pure h
    | _ => pure h

/-- The loop of `unpack_struct` over the declarations. -/
def unpackMembers (pStruct : Struct) (h : Hash) : Pk Hash := do
  let st ← get
  (pStruct.declarations.getD []).foldlM
    (unpackDeclaration cbc fuel unpackType unpackStruct (i64 st.pos)) h

/-- `unpack_struct` returns the hash, which for an unnamed compound is the one that it
was called with. -/
def unpackStructStep : UnpackStructFn := fun s hash =>
  let pStruct := cbc.heap.structAt s
  match hash with
  | some h => do
    let h ← inScope (.inlined pStruct) .empty
      (unpackMembers cbc fuel unpackType unpackStruct pStruct h)
    pure (.hv h)
  | none => do
    let hook := pStruct.tags.hooks.bind TypeHooks.unpack
    match pStruct.tags.format with
    | some format => do
      let sv ← within (.compound pStruct) (unpackFormat format pStruct.size false)
      hookCall perl hook sv
    | none => do
      let h ← inScope (.compound pStruct) pStruct.tags
        (unpackMembers cbc fuel unpackType unpackStruct pStruct [])
      hookCall perl hook (.hv h)

end Steps

section Recursion
variable (perl : Perl) (cbc : CBC)

mutual

/-- `unpack_type` -/
def unpackType : ℕ → UnpackTypeFn
  | 0 => fun _ _ _ _ => throw .outOfFuel
  | fuel + 1 => unpackTypeStep perl cbc (unpackType fuel) (unpackStruct fuel)

/-- `unpack_struct` -/
def unpackStruct : ℕ → UnpackStructFn
  | 0 => fun _ _ => throw .outOfFuel
  | fuel + 1 => unpackStructStep perl cbc fuel (unpackType fuel) (unpackStruct fuel)

end

/-- `pk_unpack` -/
def pkUnpack (fuel : ℕ) (pTS : TypeSpec) (pDecl : Option Declarator) (dimension : ℕ) : Pk SV := do
  restoreByteOrder cbc.pLP.byte_order
  unpackType perl cbc fuel pTS pDecl dimension none

end Recursion

end ConvertBinaryC
