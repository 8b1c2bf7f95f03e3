import ConvertBinaryC.CBCFlexibleCount
import ConvertBinaryC.PartRules

/-! ByteOrder tags: packing and unpacking along the type tree, with the byte order passed
down to the values, and the code, which keeps it in its handle. -/
namespace ConvertBinaryC
open StateRules PartRules

/-! Packing and unpacking in a byte order. The byte order of the handle is not looked at. -/
section Reference
variable (perl : Perl) (cbc : CBC)

section Leaves
variable (order : CByteOrder)

def storeIntIn (size : ℤ) (pBI : Option BitfieldInfo) (iv : IntValue) : Pk Unit := do
  let st ← get
  emit (.access st.path pBI.isSome (orderFor cbc pBI order) st.pos size)
  if st.pos + size > st.length then throw .undefinedBehaviour
  else do
    let buffer ← liftCall (storeInteger size.toNat (bitsOf pBI).1 (bitsOf pBI).2
      (orderFor cbc pBI order) st.buffer st.pos.toNat iv)
    modify fun st => { st with buffer := buffer }

def storeIntSvIn (size : ℤ) (sign : Bool) (pBI : Option BitfieldInfo) (s : Scalar) : Pk Unit :=
  let string := s.pok.bind fun bytes =>
    if stringIsInteger (cString bytes) ≠ 0 then some (cString bytes) else none
  let value := if sign then BitVec.ofInt 64 (perl.intOf s).1 else BitVec.ofInt 64 (perl.unsignedOf s).1
  storeIntIn cbc order size pBI ⟨value, sign, string⟩

def storeFloatSvIn (size : ℤ) (flags : TFlags) (s : Scalar) : Pk Unit := do
  if isFpType flags && isFpSize cbc size then do
    let st ← get
    emit (.access st.path false order st.pos size)
    let bytes := List.ofFn (perl.floatBytes size.toNat s)
    let bytes := if order = cbc.nativeByteorder then bytes else bytes.reverse
    storeBytes bytes.length fun i => bytes.getD i 0
  else pure ()

def packPointerIn (sv : SV) : Pk Unit := do
  growBuffer perl (ptrSize cbc)
  match sv with
  | .scalar s => storeIntSvIn perl cbc order (ptrSize cbc) false none s
  | _ => pure ()

def packBasicIn (flags : TFlags) (pBI : Option BitfieldInfo) (sv : SV) : Pk Unit := do
  let (size, flags) := packLoadSize cbc flags pBI
  growBuffer perl size
  match sv with
  | .scalar s =>
    if flags.test (T_DOUBLE ||| T_FLOAT) then storeFloatSvIn perl cbc order size flags s
    else storeIntSvIn perl cbc order size (!flags.test T_UNSIGNED) pBI s
  | _ => pure ()

def packEnumIn (pES : EnumSpecifier) (pBI : Option BitfieldInfo) (sv : SV) : Pk Unit := do
  let size := packEnumSize cbc pES pBI
  let sv ← hookCall perl (pES.tags.hooks.bind TypeHooks.pack) sv
  match pES.tags.format with
  | some format => within (.enum pES) (packFormat perl format size false sv)
  | none => within (.enum pES) do
    growBuffer perl size
    match sv with
    | .scalar s =>
      let value := enumValue perl cbc s
      storeIntIn cbc (pES.tags.orderOr order) size pBI ⟨BitVec.ofInt 64 value, decide (value < 0), none⟩
    | _ => pure ()

def fetchIntIn (size : ℤ) (sign : Bool) (pBI : Option BitfieldInfo) : Pk IntValue := do
  let st ← get
  emit (.access st.path pBI.isSome (orderFor cbc pBI order) st.pos size)
  if st.pos + size > st.length then throw .undefinedBehaviour
  else if IntegerSize size.toNat then
    liftCall (fetchInteger size.toNat sign (bitsOf pBI).1 (bitsOf pBI).2 (orderFor cbc pBI order)
      st.buffer st.pos.toNat ⟨0, sign, none⟩)
  else throw .undefinedBehaviour

def fetchIntSvIn (size : ℤ) (sign : Bool) (pBI : Option BitfieldInfo) : Pk SV := do
  let iv ← fetchIntIn cbc order size sign pBI
  pure (newSViv (if sign then iv.value.toInt else iv.value.toNat))

def fetchFloatSvIn (size : ℤ) (flags : TFlags) : Pk SV := do
  if isFpType flags && isFpSize cbc size then do
    let st ← get
    emit (.access st.path false order st.pos size)
    let bytes ← fetchBytes size.toNat
    pure (newSVnv (perl.floatValue (if order = cbc.nativeByteorder then bytes else bytes.reverse)))
  else pure (newSVnv 0)

def unpackPointerIn : Pk SV := do
  if ← checkBuffer (ptrSize cbc) then pure .undef
  else fetchIntSvIn cbc order (ptrSize cbc) false none

def unpackBasicIn (flags : TFlags) (pBI : Option BitfieldInfo) : Pk SV := do
  let (size, flags) := packLoadSize cbc flags pBI
  if ← checkBuffer size then pure .undef
  else if flags.test (T_FLOAT ||| T_DOUBLE) then fetchFloatSvIn perl cbc order size flags
  else fetchIntSvIn cbc order size (!flags.test T_UNSIGNED) pBI

def unpackEnumIn (pES : EnumSpecifier) (pBI : Option BitfieldInfo) : Pk SV := do
  let size := packEnumSize cbc pES pBI
  let hook := pES.tags.hooks.bind TypeHooks.unpack
  match pES.tags.format with
  | some format => do
    let sv ← within (.enum pES) (unpackFormat format size false)
    hookCall perl hook sv
  | none =>
    if ← checkBuffer size then pure .undef
    else do
      let iv ← within (.enum pES) (fetchIntIn cbc (pES.tags.orderOr order) size pES.signed pBI)
      hookCall perl hook (enumSv cbc pES iv.value.toInt)

end Leaves

section Steps
variable (fuel : ℕ) (packType : CByteOrder → PackTypeFn) (packStruct : CByteOrder → PackStructFn)
  (unpackType : CByteOrder → UnpackTypeFn) (unpackStruct : CByteOrder → UnpackStructFn)
  (order : CByteOrder)

def packUntaggedIn (pTS : TypeSpec) (pDecl : Option Declarator) (dimension : ℕ)
    (dimtag : Option DimensionTag) (pBI : Option BitfieldInfo) (sv : SV) : Pk Unit :=
  match pDecl.filter fun d => decide (dimension < d.dims.length) with
  | some d => packArray perl (packType order) pTS d dimension dimtag sv
  | none =>
    if pDecl.any Declarator.pointer_flag then do
      let sv ← hookCall perl ((typespecHooks cbc.heap pTS).bind TypeHooks.packPtr) sv
      packPointerIn perl cbc order sv
    else match pTS with
      | .typedef t =>
        let td := cbc.heap.typedefAt t
        packType order td.type (some td.decl) 0 pBI sv
      | .compound _ s =>
        match (cbc.heap.structAt s).declarations with
        | none => pure ()
        | some _ => packStruct order s sv false
      | .enum e => packEnumIn perl cbc order (cbc.heap.enumAt e) pBI sv
      | .basic flags => packBasicIn perl cbc order flags pBI sv

/-- A member or a typedef, with the byte order of its tag for all that is below. -/
def packTypeStepIn : PackTypeFn := fun pTS pDecl dimension pBI sv =>
  match pDecl, dimension with
  | some d, 0 => do
    let sv ← hookCall perl (d.tags.hooks.bind TypeHooks.pack) sv
    match d.tags.format with
    | some format => packDeclaratorFormat perl d format sv
    | none =>
      within (.declarator d) (packUntaggedIn perl cbc packType packStruct (d.tags.orderOr order) pTS
        pDecl dimension d.tags.dimension pBI sv)
  | _, _ => packUntaggedIn perl cbc packType packStruct order pTS pDecl dimension none pBI sv

/-- The tags of an unnamed compound do not count. -/
def packStructStepIn : PackStructFn := fun s sv inlined =>
  let pStruct := cbc.heap.structAt s
  if inlined then
    within (.inlined pStruct) (packMembers cbc fuel (packType order) (packStruct order) pStruct sv)
  else do
    let sv ← hookCall perl (pStruct.tags.hooks.bind TypeHooks.pack) sv
    match pStruct.tags.format with
    | some format => within (.compound pStruct) (packFormat perl format pStruct.size false sv)
    | none =>
      within (.compound pStruct) (packMembers cbc fuel (packType (pStruct.tags.orderOr order))
        (packStruct (pStruct.tags.orderOr order)) pStruct sv)

def unpackUntaggedIn (pTS : TypeSpec) (pDecl : Option Declarator) (dimension : ℕ)
    (dimtag : Option DimensionTag) (pBI : Option BitfieldInfo) : Pk SV :=
  match pDecl.filter fun d => decide (dimension < d.dims.length) with
  | some d => unpackArray perl (unpackType order) pTS d dimension dimtag
  | none =>
    if pDecl.any Declarator.pointer_flag then do
      let rv ← unpackPointerIn cbc order
      hookCall perl ((typespecHooks cbc.heap pTS).bind TypeHooks.unpackPtr) rv
    else match pTS with
      | .typedef t =>
        let td := cbc.heap.typedefAt t
        unpackType order td.type (some td.decl) 0 pBI
      | .compound _ s =>
        match (cbc.heap.structAt s).declarations with
        | none => pure .undef
        | some _ => unpackStruct order s none
      | .enum e => unpackEnumIn perl cbc order (cbc.heap.enumAt e) pBI
      | .basic flags => unpackBasicIn perl cbc order flags pBI

def unpackTypeStepIn : UnpackTypeFn := fun pTS pDecl dimension pBI =>
  match pDecl, dimension with
  | some d, 0 => do
    let hook := d.tags.hooks.bind TypeHooks.unpack
    match d.tags.format with
    | some format => do
      let rv ← unpackDeclaratorFormat perl d format
      hookCall perl hook rv
    | none => do
      let rv ← within (.declarator d) (unpackUntaggedIn perl cbc unpackType unpackStruct
        (d.tags.orderOr order) pTS pDecl dimension d.tags.dimension pBI)
      hookCall perl hook rv
  | _, _ => unpackUntaggedIn perl cbc unpackType unpackStruct order pTS pDecl dimension none pBI

def unpackStructStepIn : UnpackStructFn := fun s hash =>
  let pStruct := cbc.heap.structAt s
  match hash with
  | some h => do
    let h ← within (.inlined pStruct)
      (unpackMembers cbc fuel (unpackType order) (unpackStruct order) pStruct h)
    pure (.hv h)
  | none => do
    let hook := pStruct.tags.hooks.bind TypeHooks.unpack
    match pStruct.tags.format with
    | some format => do
      let sv ← within (.compound pStruct) (unpackFormat format pStruct.size false)
      hookCall perl hook sv
    | none => do
      let h ← within (.compound pStruct)
        (unpackMembers cbc fuel (unpackType (pStruct.tags.orderOr order))
          (unpackStruct (pStruct.tags.orderOr order)) pStruct [])
      hookCall perl hook (.hv h)

end Steps

mutual

def packTypeIn : ℕ → CByteOrder → PackTypeFn
  | 0, _ => fun _ _ _ _ _ => throw .outOfFuel
  | fuel + 1, order => packTypeStepIn perl cbc (packTypeIn fuel) (packStructIn fuel) order

def packStructIn : ℕ → CByteOrder → PackStructFn
  | 0, _ => fun _ _ _ => throw .outOfFuel
  | fuel + 1, order => packStructStepIn perl cbc fuel (packTypeIn fuel) (packStructIn fuel) order

end

mutual

def unpackTypeIn : ℕ → CByteOrder → UnpackTypeFn
  | 0, _ => fun _ _ _ _ => throw .outOfFuel
  | fuel + 1, order => unpackTypeStepIn perl cbc (unpackTypeIn fuel) (unpackStructIn fuel) order

def unpackStructIn : ℕ → CByteOrder → UnpackStructFn
  | 0, _ => fun _ _ => throw .outOfFuel
  | fuel + 1, order =>
    unpackStructStepIn perl cbc fuel (unpackTypeIn fuel) (unpackStructIn fuel) order

end

end Reference

/-- The byte order of a handle. -/
def orderPart : Part PackInfo CByteOrder where
  get := PackInfo.order
  put order st := { st with order := order }

section Rules
variable {α β : Type} {m m' : Pk α} {s : PackInfo}

theorem order_lift (c : Call α) : Follows orderPart (liftCall c) (liftCall c) s := by
  cases c with
  | ok a => exact follows_pure a
  | error e => exact follows_throw e

theorem order_emit (e : Event) : Follows orderPart (emit e) (emit e) s :=
  follows_modify (fun _ => rfl) rfl

theorem order_setPos (pos : ℤ) : Follows orderPart (setPos pos) (setPos pos) s :=
  follows_modify (fun _ => rfl) rfl

theorem order_setParent (parent : Option Hash) :
    Follows orderPart (setParent parent) (setParent parent) s :=
  follows_modify (fun _ => rfl) rfl

theorem order_within {scope : Scope} (h : Follows orderPart m m' (s.enter scope)) :
    Follows orderPart (within scope m) (within scope m') s := by
  have henter : Follows orderPart (modify fun st => st.enter scope : Pk PUnit)
      (modify fun st => st.enter scope) s := follows_modify (fun _ => rfl) rfl
  apply henter.bind
  rintro _ t ⟨⟩ _
  apply h.bind
  intro a t _ _
  have hleave : Follows orderPart (modify PackInfo.leave : Pk PUnit) (modify PackInfo.leave) t :=
    follows_modify (fun _ => rfl) rfl
  exact hleave.bind fun _ u _ _ => follows_pure a

/-- Where the code restores its byte order, what it calls may leave another one behind. -/
theorem order_keep (h : Shadows orderPart m m' s) : Follows orderPart (keepByteOrder m) m' s where
  shadows k := by
    cases hm : m s with
    | ok a t =>
      rw [keepByteOrder_ok hm, h.ok hm k]
      rfl
    | error e t =>
      rw [keepByteOrder_error hm, h.error hm k]
      rfl
  restored a t ht := by
    cases hm : m s with
    | ok b u =>
      rw [keepByteOrder_ok hm] at ht
      cases ht
      rfl
    | error e u =>
      rw [keepByteOrder_error hm] at ht
      exact nomatch ht

/-- The byte order that the code sets for a scope. -/
theorem order_inScope {scope : Scope} {tags : CtTagList}
    (h : Shadows orderPart m m' ((s.tagged tags).enter scope)) :
    Follows orderPart (inScope scope tags m) (within scope m') s where
  shadows k := by
    have hrun : m' ((orderPart.put k s).enter scope) =
        orderPart.onto k (m ((s.tagged tags).enter scope)) := h k
    cases hm : m ((s.tagged tags).enter scope) with
    | ok a t =>
      rw [hm] at hrun
      rw [inScope_ok hm, within_ok hrun]
      rfl
    | error e t =>
      rw [hm] at hrun
      rw [inScope_error hm, within_error hrun]
      rfl
  restored a t ht := by
    cases hm : m ((s.tagged tags).enter scope) with
    | ok b u =>
      rw [inScope_ok hm] at ht
      cases ht
      rfl
    | error e u =>
      rw [inScope_error hm] at ht
      exact nomatch ht

end Rules

/-! What does not depend on the byte order. -/
section Blind
variable {perl : Perl} {s : PackInfo}

theorem order_sub (sub : ℕ) (arg : Option SV) :
    Follows orderPart (callSub perl sub arg) (callSub perl sub arg) s := by
  constructor
  · intro k
    cases hcall : perl.call s.calls sub arg with
    | ok sv =>
      have hput : callSub perl sub arg (orderPart.put k s) = _ := callSub_of_ok hcall
      rw [callSub_of_ok hcall, hput]
      rfl
    | error msg =>
      have hput : callSub perl sub arg (orderPart.put k s) = _ := callSub_of_error hcall
      rw [callSub_of_error hcall, hput]
      rfl
  · intro a t ht
    rw [callSub_ok ht]
    rfl

theorem order_hook (hook : Option ℕ) (sv : SV) :
    Follows orderPart (hookCall perl hook sv) (hookCall perl hook sv) s := by
  cases hook with
  | none => exact follows_pure sv
  | some sub => exact order_sub sub (some sv)

theorem order_check (size : ℤ) : Follows orderPart (checkBuffer size) (checkBuffer size) s := by
  apply Follows.get_bind fun _ => rfl
  split_ifs
  · exact (order_setPos _).bind fun _ _ _ _ => follows_pure true
  · exact follows_pure false

theorem order_grow (size : ℤ) : Follows orderPart (growBuffer perl size) (growBuffer perl size) s := by
  apply Follows.get_bind fun _ => rfl
  apply (order_emit _).bind
  intro _ t _ _
  split_ifs
  · exact follows_throw _
  · exact follows_throw _
  · exact follows_modify (fun _ => rfl) rfl
  · exact follows_pure _

theorem order_storeBytes (n : ℕ) (bytes : ℕ → Byte) :
    Follows orderPart (storeBytes n bytes) (storeBytes n bytes) s := by
  by_cases hroom : s.pos + n > s.length
  · have hrun (k : CByteOrder) : storeBytes n bytes (orderPart.put k s) =
        .error .undefinedBehaviour (orderPart.put k s) := congrFun (if_pos hroom) _
    constructor
    · intro k
      rw [hrun k, show storeBytes n bytes s = _ from hrun s.order]
      rfl
    · intro a t ht
      rw [show storeBytes n bytes s = _ from hrun s.order] at ht
      exact nomatch ht
  · have hrun (k : CByteOrder) : storeBytes n bytes (orderPart.put k s) = .ok ()
        { orderPart.put k s with
          buffer := fun i => if s.pos.toNat ≤ i ∧ i < s.pos.toNat + n then bytes (i - s.pos.toNat)
            else s.buffer i } := congrFun (if_neg hroom) _
    constructor
    · intro k
      rw [hrun k, show storeBytes n bytes s = _ from hrun s.order]
      rfl
    · intro a t ht
      rw [show storeBytes n bytes s = _ from hrun s.order] at ht
      cases ht
      rfl

theorem order_fetchBytes (n : ℕ) : Follows orderPart (fetchBytes n) (fetchBytes n) s := by
  apply Follows.get_bind fun _ => rfl
  split_ifs
  · exact follows_throw _
  · exact follows_pure _

theorem order_copyFormat (format : FormatTag) (size len : ℤ) (p : List Byte) :
    Follows orderPart (copyFormat format size len p) (copyFormat format size len p) s := by
  apply Follows.get_bind fun _ => rfl
  exact (order_emit _).bind fun _ t _ _ => order_storeBytes _ _

theorem order_packFormat (format : FormatTag) (size : ℤ) (flexible : Bool) (sv : SV) :
    Follows orderPart (packFormat perl format size flexible sv)
      (packFormat perl format size flexible sv) s := by
  unfold packFormat
  split_ifs
  · apply (order_lift _).bind
    intro ⟨len, size⟩ t _ _
    apply (order_grow _).bind
    exact fun _ u _ _ => order_copyFormat _ _ _ _
  · exact follows_pure _
  · apply (order_grow _).bind
    exact fun _ t _ _ => order_copyFormat _ _ _ _
  · apply (order_grow _).bind
    exact fun _ t _ _ => follows_pure _

theorem order_unpackFormat (format : FormatTag) (size : ℤ) (flexible : Bool) :
    Follows orderPart (unpackFormat format size flexible) (unpackFormat format size flexible) s := by
  apply Follows.get_bind fun _ => rfl
  split_ifs
  · exact follows_pure _
  · apply (order_lift _).bind
    intro size t _ _
    apply (order_emit _).bind
    intro _ u _ _
    apply (order_fetchBytes _).bind
    intro bytes v _ _
    cases format <;> exact follows_pure _
  · apply (order_lift _).bind
    intro size t _ _
    apply (order_emit _).bind
    intro _ u _ _
    apply (order_fetchBytes _).bind
    intro bytes v _ _
    cases format <;> exact follows_pure _

theorem order_dimtag (tag : DimensionTag) (avail : ℤ) :
    Follows orderPart (dimtagEval perl tag avail) (dimtagEval perl tag avail) s := by
  cases tag with
  | none => exact follows_throw _
  | flexible => exact follows_pure _
  | fixed dim => exact follows_pure _
  | member expr =>
    have hmember : Follows orderPart (dimensionFromMember perl expr) (dimensionFromMember perl expr)
        s := by
      apply Follows.get_bind fun _ => rfl
      cases s.parent with
      | none => exact follows_pure _
      | some parent => exact order_lift _
    exact hmember.bind fun dim t _ _ => follows_pure _
  | hook sub =>
    have hhook : Follows orderPart (dimensionFromHook perl sub) (dimensionFromHook perl sub) s := by
      apply Follows.get_bind fun _ => rfl
      exact (order_sub _ _).bind fun sv t _ _ => follows_pure _
    exact hhook.bind fun dim t _ _ => follows_pure _

theorem order_prepare (d : Declarator) (dimtag : Option DimensionTag) :
    Follows orderPart (preparePackFormat perl d dimtag) (preparePackFormat perl d dimtag) s := by
  apply (order_lift _).bind
  intro one t _ _
  split_ifs
  · exact follows_pure _
  · cases dimtag with
    | none => exact follows_pure _
    | some tag =>
      apply (order_dimtag _ _).bind
      intro dim u _ _
      exact (order_lift _).bind fun size v _ _ => follows_pure _

theorem order_packDeclaratorFormat (d : Declarator) (format : FormatTag) (sv : SV) :
    Follows orderPart (packDeclaratorFormat perl d format sv) (packDeclaratorFormat perl d format sv)
      s := by
  apply order_within
  apply (order_prepare d _).bind
  exact fun _ t _ _ => order_packFormat _ _ _ _

theorem order_unpackDeclaratorFormat (d : Declarator) (format : FormatTag) :
    Follows orderPart (unpackDeclaratorFormat perl d format) (unpackDeclaratorFormat perl d format)
      s := by
  apply order_within
  apply (order_prepare d _).bind
  exact fun _ t _ _ => order_unpackFormat _ _ _

theorem order_packCount (d : Declarator) (dimension : ℕ) (dimtag : Option DimensionTag)
    (size avail : ℤ) : Follows orderPart (packCount perl d dimension dimtag size avail)
      (packCount perl d dimension dimtag size avail) s := by
  unfold packCount
  split
  · apply (order_dimtag _ _).bind
    intro n t _ _
    apply (order_lift _).bind
    intro grown u _ _
    exact (order_grow _).bind fun _ v _ _ => follows_pure _
  · split_ifs
    · apply (order_lift _).bind
      intro grown t _ _
      exact (order_grow _).bind fun _ u _ _ => follows_pure _
    · exact follows_pure _
  · exact follows_throw _

theorem order_unpackCount (d : Declarator) (dimension : ℕ) (dimtag : Option DimensionTag)
    (avail : ℤ) : Follows orderPart (unpackCount perl d dimension dimtag avail)
      (unpackCount perl d dimension dimtag avail) s := by
  unfold unpackCount
  split
  · exact order_dimtag _ _
  · exact follows_pure _
  · exact follows_throw _

theorem order_head (d : Declarator) (dimension : ℕ) (dimtag : Option DimensionTag) :
    Follows orderPart (unpackArrayHead perl d dimension dimtag)
      (unpackArrayHead perl d dimension dimtag) s := by
  apply (order_lift _).bind
  intro size t _ _
  apply Follows.get_bind fun _ => rfl
  apply (order_lift _).bind
  intro avail u _ _
  apply (order_unpackCount _ _ _ _).bind
  intro n v _ _
  apply (order_emit _).bind
  intro _ w _ _
  have hextend : Follows orderPart (avExtend perl (loopBound n)) (avExtend perl (loopBound n)) w := by
    unfold avExtend
    split_ifs
    · exact follows_throw _
    · exact follows_pure _
  exact hextend.bind fun _ _ _ _ => follows_pure _

end Blind

/-! The values. -/
section Values
variable {perl : Perl} {cbc : CBC} {s : PackInfo}

theorem order_storeInt (size : ℤ) (pBI : Option BitfieldInfo) (iv : IntValue) :
    Follows orderPart (storeInt cbc size pBI iv) (storeIntIn cbc s.order size pBI iv) s := by
  apply Follows.get_bind fun _ => rfl
  rw [intOrder_eq]
  apply (order_emit _).bind
  intro _ t _ _
  split_ifs
  · exact follows_throw _
  · apply (order_lift _).bind
    exact fun buffer u _ _ => follows_modify (fun _ => rfl) rfl

theorem order_storeFloat (size : ℤ) (flags : TFlags) (v : Scalar) :
    Follows orderPart (storeFloatSv perl cbc size flags v)
      (storeFloatSvIn perl cbc s.order size flags v) s := by
  unfold storeFloatSv storeFloatSvIn
  by_cases hfloat : (isFpType flags && isFpSize cbc size) = true
  · rw [if_pos hfloat, if_pos hfloat]
    apply Follows.get_bind fun _ => rfl
    apply (order_emit _).bind
    exact fun _ t _ _ => order_storeBytes _ _
  · rw [if_neg hfloat, if_neg hfloat]
    exact follows_pure _

theorem order_packPointer (sv : SV) :
    Follows orderPart (packPointer perl cbc sv) (packPointerIn perl cbc s.order sv) s := by
  apply (order_grow _).bind
  intro _ t _ ht
  rw [← show t.order = s.order from ht]
  cases sv with
  | scalar v => exact order_storeInt _ _ _
  | _ => exact follows_pure _

theorem order_packBasic (flags : TFlags) (pBI : Option BitfieldInfo) (sv : SV) :
    Follows orderPart (packBasic perl cbc flags pBI sv) (packBasicIn perl cbc s.order flags pBI sv)
      s := by
  unfold packBasic packBasicIn
  generalize packLoadSize cbc flags pBI = loaded
  apply (order_grow _).bind
  intro _ t _ ht
  rw [← show t.order = s.order from ht]
  cases sv with
  | scalar v =>
    dsimp only
    split_ifs
    · exact order_storeFloat _ _ _
    · exact order_storeInt _ _ _
  | _ => exact follows_pure _

theorem order_packEnum (pES : EnumSpecifier) (pBI : Option BitfieldInfo) (sv : SV) :
    Follows orderPart (packEnum perl cbc pES pBI sv) (packEnumIn perl cbc s.order pES pBI sv) s := by
  apply (order_hook _ _).bind
  intro sv t _ ht
  rw [← show t.order = s.order from ht]
  cases pES.tags.format with
  | some format => exact order_within (order_packFormat _ _ _ _)
  | none =>
    apply order_inScope
    apply Follows.shadows
    apply (order_grow _).bind
    intro _ u _ hu
    have horder : u.order = pES.tags.orderOr t.order := hu
    rw [← horder]
    cases sv with
    | scalar v => exact order_storeInt _ _ _
    | _ => exact follows_pure _

theorem order_fetchInt (cbc : CBC) (s : PackInfo) (size : ℤ) (sign : Bool)
    (pBI : Option BitfieldInfo) :
    Follows orderPart (fetchInt cbc size sign pBI) (fetchIntIn cbc s.order size sign pBI) s := by
  apply Follows.get_bind fun _ => rfl
  rw [intOrder_eq]
  apply (order_emit _).bind
  intro _ t _ _
  split_ifs
  · exact follows_throw _
  · exact order_lift _
  · exact follows_throw _

theorem order_fetchIntSv (size : ℤ) (sign : Bool) (pBI : Option BitfieldInfo) :
    Follows orderPart (fetchIntSv cbc size sign pBI) (fetchIntSvIn cbc s.order size sign pBI) s :=
  (order_fetchInt _ _ _ _ _).bind fun _ _ _ _ => follows_pure _

theorem order_fetchFloat (size : ℤ) (flags : TFlags) :
    Follows orderPart (fetchFloatSv perl cbc size flags)
      (fetchFloatSvIn perl cbc s.order size flags) s := by
  unfold fetchFloatSv fetchFloatSvIn
  by_cases hfloat : (isFpType flags && isFpSize cbc size) = true
  · rw [if_pos hfloat, if_pos hfloat]
    apply Follows.get_bind fun _ => rfl
    apply (order_emit _).bind
    intro _ t _ _
    exact (order_fetchBytes _).bind fun bytes u _ _ => follows_pure _
  · rw [if_neg hfloat, if_neg hfloat]
    exact follows_pure _

theorem order_unpackPointer :
    Follows orderPart (unpackPointer cbc) (unpackPointerIn cbc s.order) s := by
  apply (order_check _).bind
  intro short t _ ht
  rw [← show t.order = s.order from ht]
  split_ifs
  · exact follows_pure _
  · exact order_fetchIntSv _ _ _

theorem order_unpackBasic (flags : TFlags) (pBI : Option BitfieldInfo) :
    Follows orderPart (unpackBasic perl cbc flags pBI) (unpackBasicIn perl cbc s.order flags pBI)
      s := by
  unfold unpackBasic unpackBasicIn
  generalize packLoadSize cbc flags pBI = loaded
  apply (order_check _).bind
  intro short t _ ht
  rw [← show t.order = s.order from ht]
  split_ifs
  · exact follows_pure _
  · exact order_fetchFloat _ _
  · exact order_fetchIntSv _ _ _

/-- Without a Format tag `unpack_enum` returns at once, with the byte order of its tag
left behind, or fetches the integer in the scope of the enum. -/
theorem unpackEnum_checked {pES : EnumSpecifier} {pBI : Option BitfieldInfo}
    (hformat : pES.tags.format = none) {short : Bool} {pos : ℤ}
    (hcheck : checkBuffer (packEnumSize cbc pES pBI) s = .ok short { s with pos := pos }) :
    unpackEnum perl cbc pES pBI s =
      if short then .ok .undef { s.tagged pES.tags with pos := pos }
      else (inScope (.enum pES) pES.tags
        (fetchInt cbc (packEnumSize cbc pES pBI) pES.signed pBI) >>= fun iv =>
          hookCall perl (pES.tags.hooks.bind TypeHooks.unpack) (enumSv cbc pES iv.value.toInt))
        { s with pos := pos } := by
  have htagged : checkBuffer (packEnumSize cbc pES pBI) (s.tagged pES.tags) =
      .ok short { s.tagged pES.tags with pos := pos } :=
    (order_check _).shadows.ok hcheck (pES.tags.byteOrder.getD s.order)
  unfold unpackEnum
  rw [hformat]
  generalize packEnumSize cbc pES pBI = size at htagged
  dsimp only
  rw [bind_of_ok (show byteOrder s = .ok s.order s from rfl),
    bind_of_ok (show setByteOrder pES.tags s = .ok () (s.tagged pES.tags) from rfl),
    bind_of_ok htagged]
  cases short with
  | true => rfl
  | false =>
    rw [if_neg Bool.false_ne_true, if_neg Bool.false_ne_true]
    -- both sides run the fetch from the same handle
    cases hfetch : fetchInt cbc size pES.signed pBI
        { (s.tagged pES.tags).enter (.enum pES) with pos := pos } with
    | ok iv t =>
      have hscope : inScope (.enum pES) pES.tags (fetchInt cbc size pES.signed pBI)
          { s with pos := pos } = .ok iv { t.leave with order := s.order } := inScope_ok hfetch
      have hwithin : within (.enum pES) (fetchInt cbc size pES.signed pBI)
          { s.tagged pES.tags with pos := pos } = .ok iv t.leave := within_ok hfetch
      rw [bind_of_ok hscope, bind_of_ok hwithin]
      rfl
    | error e t =>
      have hscope : inScope (.enum pES) pES.tags (fetchInt cbc size pES.signed pBI)
          { s with pos := pos } = .error e t := inScope_error hfetch
      have hwithin : within (.enum pES) (fetchInt cbc size pES.signed pBI)
          { s.tagged pES.tags with pos := pos } = .error e t := within_error hfetch
      rw [bind_of_error hscope, bind_of_error hwithin]

/-- The type that the enum is unpacked for restores the byte order. -/
theorem order_unpackEnum (pES : EnumSpecifier) (pBI : Option BitfieldInfo) :
    Shadows orderPart (unpackEnum perl cbc pES pBI) (unpackEnumIn perl cbc s.order pES pBI) s := by
  cases hformat : pES.tags.format with
  | some format =>
    unfold unpackEnum unpackEnumIn
    rw [hformat]
    intro k
    dsimp only
    rw [bind_of_ok (show byteOrder s = .ok s.order s from rfl)]
    exact ((order_within (order_unpackFormat _ _ _)).bind fun sv t _ _ => order_hook _ _).shadows k
  | none =>
    obtain ⟨short, pos, hcheck⟩ := checkBuffer_eq (packEnumSize cbc pES pBI) s
    intro k
    have hchecked := (order_check _).shadows.ok hcheck k
    rw [unpackEnum_checked hformat hcheck]
    unfold unpackEnumIn
    rw [hformat]
    dsimp only
    rw [bind_of_ok hchecked]
    cases short with
    | true => rfl
    | false =>
      rw [if_neg Bool.false_ne_true, if_neg Bool.false_ne_true]
      have hinner := order_fetchInt cbc
        ((({ s with pos := pos } : PackInfo).tagged pES.tags).enter (.enum pES))
        (packEnumSize cbc pES pBI) pES.signed pBI
      have hfetch : Follows orderPart
          (inScope (.enum pES) pES.tags (fetchInt cbc (packEnumSize cbc pES pBI) pES.signed pBI))
          (within (.enum pES) (fetchIntIn cbc (pES.tags.orderOr s.order) (packEnumSize cbc pES pBI)
            pES.signed pBI)) { s with pos := pos } :=
        order_inScope hinner.shadows
      exact (hfetch.bind fun iv t _ _ => order_hook _ _).shadows k

end Values

section Pack
variable {perl : Perl} {cbc : CBC} {fuel : ℕ} {packType : PackTypeFn} {packStruct : PackStructFn}
  {packTypeIn : CByteOrder → PackTypeFn} {packStructIn : CByteOrder → PackStructFn}
  (htype : ∀ pTS pDecl dimension pBI sv s, Follows orderPart (packType pTS pDecl dimension pBI sv)
    (packTypeIn s.order pTS pDecl dimension pBI sv) s)
  (hstruct : ∀ t sv inlined s, Follows orderPart (packStruct t sv inlined)
    (packStructIn s.order t sv inlined) s)
  (s : PackInfo)
include htype

theorem order_packElement (pTS : TypeSpec) (d : Declarator) (dimension : ℕ) (pos size : ℤ)
    (elem : Option SV × ℕ) :
    Follows orderPart (packElement packType pTS d dimension pos size elem)
      (packElement (packTypeIn s.order) pTS d dimension pos size elem) s := by
  obtain ⟨elem, i⟩ := elem
  cases elem with
  | none => exact follows_pure _
  | some sv =>
    apply order_within
    apply (order_lift _).bind
    intro distance t _ ht
    apply (order_setPos _).bind
    intro _ u _ hu
    have horder : u.order = s.order := hu.trans ht
    rw [← horder]
    exact htype _ _ _ _ _ u

theorem order_packArray (pTS : TypeSpec) (d : Declarator) (dimension : ℕ)
    (dimtag : Option DimensionTag) (sv : SV) :
    Follows orderPart (packArray perl packType pTS d dimension dimtag sv)
      (packArray perl (packTypeIn s.order) pTS d dimension dimtag sv) s := by
  cases sv with
  | av elems =>
    apply (order_lift _).bind
    intro size t₁ _ ht₁
    apply (order_packCount _ _ _ _ _).bind
    intro n t₂ _ ht₂
    apply Follows.get_bind fun _ => rfl
    apply (order_emit _).bind
    intro _ t₃ _ ht₃
    have horder : t₃.order = s.order := ht₃.trans (ht₂.trans ht₁)
    apply follows_forM
    intro elem _ u hu
    have hback : u.order = s.order := Eq.trans hu horder
    rw [← hback]
    exact order_packElement htype _ _ _ _ _ _ _
  | _ =>
    apply (order_lift _).bind
    exact fun size t _ _ => order_grow _

theorem order_packMember (h : Hash) (pos : ℤ) (type : TypeSpec) (d : Declarator) :
    Follows orderPart (packMember packType h pos type d) (packMember (packTypeIn s.order) h pos type d)
      s := by
  unfold packMember
  split
  · apply (order_setPos _).bind
    intro _ t _ ht
    apply (order_setParent _).bind
    intro _ u _ hu
    have horder : u.order = s.order := hu.trans ht
    rw [← horder]
    exact (htype _ _ _ _ _ u).bind fun _ v _ _ => order_setParent _
  · exact follows_pure _

include hstruct

theorem order_packMembers (pStruct : Struct) (sv : SV) :
    Follows orderPart (packMembers cbc fuel packType packStruct pStruct sv)
      (packMembers cbc fuel (packTypeIn s.order) (packStructIn s.order) pStruct sv) s := by
  apply Follows.get_bind fun _ => rfl
  cases sv with
  | hv h =>
    apply follows_forM
    intro sd _ t ht
    have horder : t.order = s.order := ht
    rw [← horder]
    unfold packDeclaration
    cases sd.declarators with
    | some declarators =>
      apply follows_forM
      intro d _ u hu
      rw [← show u.order = t.order from hu]
      exact order_packMember htype _ _ _ _ _
    | none =>
      apply (order_lift _).bind
      intro t' u _ hu
      apply (order_setPos _).bind
      intro _ v _ hv
      have hback : v.order = t.order := hv.trans hu
      rw [← hback]
      exact hstruct _ _ _ v
  | _ => exact follows_pure _

theorem order_packUntagged (pTS : TypeSpec) (pDecl : Option Declarator) (dimension : ℕ)
    (dimtag : Option DimensionTag) (pBI : Option BitfieldInfo) (sv : SV) :
    Follows orderPart (packUntagged perl cbc packType packStruct pTS pDecl dimension dimtag pBI sv)
      (packUntaggedIn perl cbc packTypeIn packStructIn s.order pTS pDecl dimension dimtag pBI sv)
      s := by
  unfold packUntagged packUntaggedIn
  cases pDecl.filter fun d => decide (dimension < d.dims.length) with
  | some d => exact order_packArray htype _ _ _ _ _ _
  | none =>
    dsimp only
    split_ifs
    · apply (order_hook _ _).bind
      intro sv t _ ht
      rw [← show t.order = s.order from ht]
      exact order_packPointer sv
    · cases pTS with
      | typedef t => exact htype _ _ _ _ _ s
      | compound kind t =>
        dsimp only
        cases (cbc.heap.structAt t).declarations with
        | none => exact follows_pure _
        | some declarations => exact hstruct _ _ _ s
      | enum e => exact order_packEnum _ _ _
      | basic flags => exact order_packBasic _ _ _

theorem order_packTypeStep (pTS : TypeSpec) (pDecl : Option Declarator) (dimension : ℕ)
    (pBI : Option BitfieldInfo) (sv : SV) :
    Follows orderPart (packTypeStep perl cbc packType packStruct pTS pDecl dimension pBI sv)
      (packTypeStepIn perl cbc packTypeIn packStructIn s.order pTS pDecl dimension pBI sv) s := by
  have hplain : Follows orderPart (keepByteOrder
        (packUntagged perl cbc packType packStruct pTS pDecl dimension none pBI sv))
      (packUntaggedIn perl cbc packTypeIn packStructIn s.order pTS pDecl dimension none pBI sv) s :=
    order_keep (order_packUntagged htype hstruct _ _ _ _ _ _ _).shadows
  cases pDecl with
  | none => exact hplain
  | some d =>
    cases dimension with
    | succ dimension => exact hplain
    | zero =>
      apply (order_hook _ _).bind
      intro sv t _ ht
      rw [← show t.order = s.order from ht]
      cases d.tags.format with
      | some format => exact order_packDeclaratorFormat d format sv
      | none =>
        exact order_inScope (order_packUntagged htype hstruct
          ((t.tagged d.tags).enter (.declarator d)) pTS (some d) 0 d.tags.dimension pBI sv).shadows

theorem order_packStructStep (t : ℕ) (sv : SV) (inlined : Bool) :
    Follows orderPart (packStructStep perl cbc fuel packType packStruct t sv inlined)
      (packStructStepIn perl cbc fuel packTypeIn packStructIn s.order t sv inlined) s := by
  unfold packStructStep packStructStepIn
  cases inlined with
  | true =>
    exact order_inScope (order_packMembers htype hstruct
      ((s.tagged .empty).enter (.inlined (cbc.heap.structAt t))) (cbc.heap.structAt t) sv).shadows
  | false =>
    apply (order_hook _ _).bind
    intro sv u _ hu
    rw [← show u.order = s.order from hu]
    cases (cbc.heap.structAt t).tags.format with
    | some format => exact order_within (order_packFormat _ _ _ _)
    | none =>
      exact order_inScope (order_packMembers htype hstruct
        ((u.tagged (cbc.heap.structAt t).tags).enter (.compound (cbc.heap.structAt t)))
        (cbc.heap.structAt t) sv).shadows

end Pack

section Unpack
variable {perl : Perl} {cbc : CBC} {fuel : ℕ} {unpackType : UnpackTypeFn}
  {unpackStruct : UnpackStructFn} {unpackTypeIn : CByteOrder → UnpackTypeFn}
  {unpackStructIn : CByteOrder → UnpackStructFn}
  (htype : ∀ pTS pDecl dimension pBI s, Follows orderPart (unpackType pTS pDecl dimension pBI)
    (unpackTypeIn s.order pTS pDecl dimension pBI) s)
  (hstruct : ∀ t hash s, Follows orderPart (unpackStruct t hash) (unpackStructIn s.order t hash) s)
  (s : PackInfo)
include htype

theorem order_unpackElement (pTS : TypeSpec) (d : Declarator) (dimension : ℕ) (pos size : ℤ)
    (i : ℕ) :
    Follows orderPart (unpackElement unpackType pTS d dimension pos size i)
      (unpackElement (unpackTypeIn s.order) pTS d dimension pos size i) s := by
  apply order_within
  apply (order_lift _).bind
  intro distance t _ ht
  apply (order_setPos _).bind
  intro _ u _ hu
  have horder : u.order = s.order := hu.trans ht
  rw [← horder]
  exact htype _ _ _ _ u

theorem order_unpackArray (pTS : TypeSpec) (d : Declarator) (dimension : ℕ)
    (dimtag : Option DimensionTag) :
    Follows orderPart (unpackArray perl unpackType pTS d dimension dimtag)
      (unpackArray perl (unpackTypeIn s.order) pTS d dimension dimtag) s := by
  apply (order_head _ _ _).bind
  rintro ⟨size, pos, n⟩ t _ ht
  rw [← show t.order = s.order from ht]
  have hloop : Follows orderPart
      ((List.range n.toNat).mapM (unpackElement unpackType pTS d dimension pos size))
      ((List.range n.toNat).mapM (unpackElement (unpackTypeIn t.order) pTS d dimension pos size))
      t := by
    apply follows_mapM
    intro i _ u hu
    rw [← show u.order = t.order from hu]
    exact order_unpackElement htype _ _ _ _ _ _ _
  exact hloop.bind fun elems u _ _ => follows_pure _

theorem order_unpackMember (pos : ℤ) (type : TypeSpec) (h : Hash) (d : Declarator) :
    Follows orderPart (unpackMember unpackType pos type h d)
      (unpackMember (unpackTypeIn s.order) pos type h d) s := by
  unfold unpackMember
  split_ifs
  · exact follows_pure _
  · apply (order_setPos _).bind
    intro _ t _ ht
    apply (order_setParent _).bind
    intro _ u _ hu
    have horder : u.order = s.order := hu.trans ht
    rw [← horder]
    apply (htype _ _ _ _ u).bind
    intro value v _ _
    exact (order_setParent _).bind fun _ w _ _ => follows_pure _

include hstruct

theorem order_unpackMembers (pStruct : Struct) (h : Hash) :
    Follows orderPart (unpackMembers cbc fuel unpackType unpackStruct pStruct h)
      (unpackMembers cbc fuel (unpackTypeIn s.order) (unpackStructIn s.order) pStruct h) s := by
  apply Follows.get_bind fun _ => rfl
  apply follows_foldlM
  intro sd _ h t ht
  rw [← show t.order = s.order from ht]
  unfold unpackDeclaration
  cases sd.declarators with
  | some declarators =>
    apply follows_foldlM
    intro d _ h u hu
    rw [← show u.order = t.order from hu]
    exact order_unpackMember htype _ _ _ _ _
  | none =>
    apply (order_lift _).bind
    intro t' u _ hu
    apply (order_setPos _).bind
    intro _ v _ hv
    have hback : v.order = t.order := hv.trans hu
    rw [← hback]
    apply (hstruct _ _ v).bind
    intro sv w _ _
    cases sv <;> exact follows_pure _

/-- An enum may leave the byte order of its tag behind. -/
theorem order_unpackUntagged (pTS : TypeSpec) (pDecl : Option Declarator) (dimension : ℕ)
    (dimtag : Option DimensionTag) (pBI : Option BitfieldInfo) :
    Shadows orderPart (unpackUntagged perl cbc unpackType unpackStruct pTS pDecl dimension dimtag pBI)
      (unpackUntaggedIn perl cbc unpackTypeIn unpackStructIn s.order pTS pDecl dimension dimtag pBI)
      s := by
  unfold unpackUntagged unpackUntaggedIn
  cases pDecl.filter fun d => decide (dimension < d.dims.length) with
  | some d => exact (order_unpackArray htype _ _ _ _ _).shadows
  | none =>
    dsimp only
    split_ifs
    · exact (order_unpackPointer.bind fun rv t _ _ => order_hook _ _).shadows
    · cases pTS with
      | typedef t => exact (htype _ _ _ _ s).shadows
      | compound kind t =>
        dsimp only
        cases (cbc.heap.structAt t).declarations with
        | none => exact (follows_pure _).shadows
        | some declarations => exact (hstruct _ _ s).shadows
      | enum e => exact order_unpackEnum _ _
      | basic flags => exact (order_unpackBasic _ _).shadows

theorem order_unpackTypeStep (pTS : TypeSpec) (pDecl : Option Declarator) (dimension : ℕ)
    (pBI : Option BitfieldInfo) :
    Follows orderPart (unpackTypeStep perl cbc unpackType unpackStruct pTS pDecl dimension pBI)
      (unpackTypeStepIn perl cbc unpackTypeIn unpackStructIn s.order pTS pDecl dimension pBI) s := by
  have hplain : Follows orderPart (keepByteOrder
        (unpackUntagged perl cbc unpackType unpackStruct pTS pDecl dimension none pBI))
      (unpackUntaggedIn perl cbc unpackTypeIn unpackStructIn s.order pTS pDecl dimension none pBI) s :=
    order_keep (order_unpackUntagged htype hstruct _ _ _ _ _ _)
  cases pDecl with
  | none => exact hplain
  | some d =>
    cases dimension with
    | succ dimension => exact hplain
    | zero =>
      cases hformat : d.tags.format with
      | some format =>
        rw [unpackTypeStep_format hformat]
        simp only [unpackTypeStepIn, hformat]
        exact (order_unpackDeclaratorFormat d format).bind fun rv t _ _ => order_hook _ _
      | none =>
        rw [unpackTypeStep_plain hformat]
        simp only [unpackTypeStepIn, hformat]
        refine Follows.bind (order_inScope (order_unpackUntagged htype hstruct
          ((s.tagged d.tags).enter (.declarator d)) pTS (some d) 0 d.tags.dimension pBI)) ?_
        exact fun rv t _ _ => order_hook _ _

theorem order_unpackStructStep (t : ℕ) (hash : Option Hash) :
    Follows orderPart (unpackStructStep perl cbc fuel unpackType unpackStruct t hash)
      (unpackStructStepIn perl cbc fuel unpackTypeIn unpackStructIn s.order t hash) s := by
  unfold unpackStructStep unpackStructStepIn
  cases hash with
  | some h =>
    refine Follows.bind (order_inScope (order_unpackMembers htype hstruct
      ((s.tagged .empty).enter (.inlined (cbc.heap.structAt t))) (cbc.heap.structAt t) h).shadows) ?_
    exact fun h u _ _ => follows_pure _
  | none =>
    dsimp only
    cases (cbc.heap.structAt t).tags.format with
    | some format =>
      exact (order_within (order_unpackFormat _ _ _)).bind fun sv u _ _ => order_hook _ _
    | none =>
      refine Follows.bind (order_inScope (order_unpackMembers htype hstruct
        ((s.tagged (cbc.heap.structAt t).tags).enter (.compound (cbc.heap.structAt t)))
        (cbc.heap.structAt t) []).shadows) ?_
      exact fun h u _ _ => order_hook _ _

end Unpack

section Recursion
variable (perl : Perl) (cbc : CBC)

theorem order_pack (fuel : ℕ) :
    (∀ pTS pDecl dimension pBI sv s, Follows orderPart
      (packType perl cbc fuel pTS pDecl dimension pBI sv)
      (packTypeIn perl cbc fuel s.order pTS pDecl dimension pBI sv) s) ∧
    ∀ t sv inlined s, Follows orderPart (packStruct perl cbc fuel t sv inlined)
      (packStructIn perl cbc fuel s.order t sv inlined) s := by
  induction fuel with
  | zero => exact ⟨fun _ _ _ _ _ _ => follows_throw _, fun _ _ _ _ => follows_throw _⟩
  | succ fuel ih =>
    constructor
    · exact fun pTS pDecl dimension pBI sv s =>
        order_packTypeStep ih.1 ih.2 s pTS pDecl dimension pBI sv
    · exact fun t sv inlined s => order_packStructStep ih.1 ih.2 s t sv inlined

theorem order_unpack (fuel : ℕ) :
    (∀ pTS pDecl dimension pBI s, Follows orderPart
      (unpackType perl cbc fuel pTS pDecl dimension pBI)
      (unpackTypeIn perl cbc fuel s.order pTS pDecl dimension pBI) s) ∧
    ∀ t hash s, Follows orderPart (unpackStruct perl cbc fuel t hash)
      (unpackStructIn perl cbc fuel s.order t hash) s := by
  induction fuel with
  | zero => exact ⟨fun _ _ _ _ _ => follows_throw _, fun _ _ _ => follows_throw _⟩
  | succ fuel ih =>
    constructor
    · exact fun pTS pDecl dimension pBI s => order_unpackTypeStep ih.1 ih.2 s pTS pDecl dimension pBI
    · exact fun t hash s => order_unpackStructStep ih.1 ih.2 s t hash

end Recursion

/-- In every state `m` does what `m'` does with the byte order of the handle, and returns with
the byte order that it was called with. -/
def InOrder {α : Type} (m : Pk α) (m' : CByteOrder → Pk α) : Prop :=
  ∀ st, Follows orderPart m (m' st.order) st

/-- The code stores and fetches, calls, grows and fails just as it does with the byte order
passed down along the type tree, and all four functions return with the byte order that they
were called with; `pk_pack` and `pk_unpack` start with the configured one. -/
theorem byteOrder_tags_scoped (perl : Perl) (cbc : CBC) (fuel : ℕ) :
    (∀ pTS pDecl dimension pBI sv, InOrder (packType perl cbc fuel pTS pDecl dimension pBI sv)
      fun order => packTypeIn perl cbc fuel order pTS pDecl dimension pBI sv) ∧
    (∀ s sv inlined, InOrder (packStruct perl cbc fuel s sv inlined)
      fun order => packStructIn perl cbc fuel order s sv inlined) ∧
    (∀ pTS pDecl dimension pBI, InOrder (unpackType perl cbc fuel pTS pDecl dimension pBI)
      fun order => unpackTypeIn perl cbc fuel order pTS pDecl dimension pBI) ∧
    (∀ s hash, InOrder (unpackStruct perl cbc fuel s hash)
      fun order => unpackStructIn perl cbc fuel order s hash) ∧
    (∀ pTS pDecl dimension sv st, Shadows orderPart (pkPack perl cbc fuel pTS pDecl dimension sv)
      (packTypeIn perl cbc fuel cbc.pLP.byte_order pTS pDecl dimension none sv) st) ∧
    (∀ pTS pDecl dimension st, Shadows orderPart (pkUnpack perl cbc fuel pTS pDecl dimension)
      (unpackTypeIn perl cbc fuel cbc.pLP.byte_order pTS pDecl dimension none) st) := by
  have hpack := order_pack perl cbc fuel
  have hunpack := order_unpack perl cbc fuel
  refine ⟨fun pTS pDecl dimension pBI sv st => hpack.1 _ _ _ _ _ st,
    fun s sv inlined st => hpack.2 _ _ _ st, fun pTS pDecl dimension pBI st => hunpack.1 _ _ _ _ st,
    fun s hash st => hunpack.2 _ _ st, ?_, ?_⟩
  · intro pTS pDecl dimension sv st k
    exact (hpack.1 pTS pDecl dimension none sv
      (orderPart.put cbc.pLP.byte_order st)).shadows k
  · intro pTS pDecl dimension st k
    exact (hunpack.1 pTS pDecl dimension none (orderPart.put cbc.pLP.byte_order st)).shadows k

/-- `struct pair { int x; int y; }` and `struct { int a; struct pair b; }`, where `b` is tagged
big-endian and `y` little-endian. -/
def orderedPair : Heap where
  structAt
    | 0 => { structOf "" [declaration (.basic T_INT) [memberAt "a" 0 4 4],
        declaration (.compound .struct 1)
          [{ memberAt "b" 4 8 8 with tags := { CtTagList.empty with byteOrder := some .bigEndian } }]]
        with size := 12 }
    | _ => { structOf "pair" [declaration (.basic T_INT) [memberAt "x" 0 4 4],
        declaration (.basic T_INT) [{ memberAt "y" 4 4 4 with
          tags := { CtTagList.empty with byteOrder := some .littleEndian } }]]
        with size := 8 }
  enumAt _ := ⟨0, false, false, 4, 4, ⟨"order.h", 1⟩, none, .empty, ""⟩
  typedefAt _ := ⟨.basic T_INT, declNew ""⟩

/-- `{ a => 1, b => { x => 1, y => 1 } }` -/
def orderedPairHash : SV :=
  .hv [("a", newSViv 1), ("b", .hv [("x", newSViv 1), ("y", newSViv 1)])]

/-- The bytes that are stored, in both ways. -/
theorem byteOrder_tags_scoped_pair :
    Shadows orderPart (pkPack slotPerl (cbc64 orderedPair) 10 (.compound .struct 0) none 0
        orderedPairHash)
      (packTypeIn slotPerl (cbc64 orderedPair) 10 .littleEndian (.compound .struct 0) none 0 none
        orderedPairHash) (pkCreate [] 0) ∧
      (List.range 12).map (finalState (pkPack slotPerl (cbc64 orderedPair) 10 (.compound .struct 0)
        none 0 orderedPairHash (pkCreate [] 0))).buffer = [1, 0, 0, 0, 0, 0, 0, 1, 1, 0, 0, 0] :=
  ⟨(byteOrder_tags_scoped slotPerl (cbc64 orderedPair) 10).2.2.2.2.1 (.compound .struct 0) none 0
    orderedPairHash (pkCreate [] 0), by decide +kernel⟩

end ConvertBinaryC
