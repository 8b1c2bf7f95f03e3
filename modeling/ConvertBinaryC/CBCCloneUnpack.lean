import ConvertBinaryC.CarryRules
import ConvertBinaryC.CBCUnpack
import ConvertBinaryC.CTLibCloneRuns

/-! Packing and unpacking with a clone. The compounds that a run is inside of are those of the clone,
and nothing else is different. -/
namespace ConvertBinaryC
open CarryRules

section Rename
variable (ρ : ParserObject → ℕ)

def Scope.rename : Scope → Scope
  | .declarator pDecl => .declarator pDecl
  | .element index => .element index
  | .compound pStruct => .compound (pStruct.rename ρ)
  | .inlined pStruct => .inlined (pStruct.rename ρ)
  | .enum pES => .enum pES

def Event.rename : Event → Event
  | .access path bitfield order pos size =>
    .access (path.map (Scope.rename ρ)) bitfield order pos size
  | .copy path pos size => .copy (path.map (Scope.rename ρ)) pos size
  | .grow path required => .grow (path.map (Scope.rename ρ)) required
  | .elements path flexible pos length size count =>
    .elements (path.map (Scope.rename ρ)) flexible pos length size count

def PackInfo.rename (st : PackInfo) : PackInfo :=
  { st with path := st.path.map (Scope.rename ρ), trace := st.trace.map (Event.rename ρ) }

/-- The second heap has copies of the listed objects of the first one. -/
structure Heap.Copies (heap heap' : Heap) (Listed : ParserObject → Prop) : Prop where
  enum : ∀ e, Listed (.enumSpecifier e) → heap'.enumAt (ρ (.enumSpecifier e)) = heap.enumAt e
  struct : ∀ s, Listed (.struct s) → heap'.structAt (ρ (.struct s)) = (heap.structAt s).rename ρ
  typedef : ∀ t, Listed (.typedef t) → heap'.typedefAt (ρ (.typedef t)) = (heap.typedefAt t).rename ρ
  member_object : ∀ s, Listed (.struct s) → ∀ sd ∈ (heap.structAt s).declarations.getD [],
    ∀ o, sd.type.object = some o → Listed o
  type_object : ∀ t, Listed (.typedef t) → ∀ o, (heap.typedefAt t).type.object = some o → Listed o

end Rename

section Steps
variable {ρ : ParserObject → ℕ} {α : Type}

theorem liftCall_carries (c : Call α) : Carries (PackInfo.rename ρ) (liftCall c) (liftCall c) := by
  cases c with
  | error e => exact carries_throw e
  | ok a => exact carries_pure a

theorem liftCall_bind {β γ : Type} {g : α → β} {P : α → Prop} {c : Call α} {c' : Call β}
    {f : α → Pk γ} {f' : β → Pk γ} (hc : Maps g P c c')
    (h : ∀ a, P a → Carries (PackInfo.rename ρ) (f a) (f' (g a))) :
    Carries (PackInfo.rename ρ) (liftCall c >>= f) (liftCall c' >>= f') := by
  obtain ⟨rfl, hholds⟩ := hc
  cases c with
  | error e => exact carries_throw e
  | ok a => exact h a (hholds a rfl)

theorem emit_carries (e : Event) :
    Carries (PackInfo.rename ρ) (emit e) (emit (e.rename ρ)) := by
  apply carries_modify
  intro s
  unfold PackInfo.emit PackInfo.rename
  rw [List.map_append, List.map_singleton]

theorem within_carries (scope : Scope) {m m' : Pk α} (hm : Carries (PackInfo.rename ρ) m m') :
    Carries (PackInfo.rename ρ) (within scope m) (within (scope.rename ρ) m') := by
  unfold within
  apply Carries.bind
  · exact carries_modify fun _ => rfl
  · intro _
    apply hm.bind
    intro a
    apply Carries.bind
    · apply carries_modify
      intro s
      unfold PackInfo.rename
      rw [List.map_tail]
    · exact fun _ => carries_pure a

theorem setPos_carries (pos : ℤ) : Carries (PackInfo.rename ρ) (setPos pos) (setPos pos) :=
  carries_modify fun _ => rfl

theorem setParent_carries (parent : Option Hash) :
    Carries (PackInfo.rename ρ) (setParent parent) (setParent parent) := carries_modify fun _ => rfl

theorem restoreByteOrder_carries (old : CByteOrder) :
    Carries (PackInfo.rename ρ) (restoreByteOrder old) (restoreByteOrder old) :=
  carries_modify fun _ => rfl

theorem setByteOrder_carries (tags : CtTagList) :
    Carries (PackInfo.rename ρ) (setByteOrder tags) (setByteOrder tags) := carries_modify fun _ => rfl

theorem byteOrder_carries : Carries (PackInfo.rename ρ) byteOrder byteOrder := fun _ => rfl

theorem keepByteOrder_carries {m m' : Pk α} (hm : Carries (PackInfo.rename ρ) m m') :
    Carries (PackInfo.rename ρ) (keepByteOrder m) (keepByteOrder m') := by
  unfold keepByteOrder
  apply byteOrder_carries.bind
  intro old_byte_order
  apply hm.bind
  intro a
  apply (restoreByteOrder_carries old_byte_order).bind
  exact fun _ => carries_pure a

theorem inScope_carries (scope : Scope) (tags : CtTagList) {m m' : Pk α}
    (hm : Carries (PackInfo.rename ρ) m m') :
    Carries (PackInfo.rename ρ) (inScope scope tags m) (inScope (scope.rename ρ) tags m') := by
  unfold inScope
  apply keepByteOrder_carries
  apply (setByteOrder_carries tags).bind
  exact fun _ => within_carries scope hm

theorem checkBuffer_carries (size : ℤ) :
    Carries (PackInfo.rename ρ) (checkBuffer size) (checkBuffer size) := by
  unfold checkBuffer
  apply carries_get_bind
  intro s
  apply carries_ite
  · apply (setPos_carries s.length).bind
    exact fun _ => carries_pure true
  · exact carries_pure false

section Perl
variable (perl : Perl)

theorem callSub_carries (sub : ℕ) (arg : Option SV) :
    Carries (PackInfo.rename ρ) (callSub perl sub arg) (callSub perl sub arg) := by
  unfold callSub
  apply carries_get_bind
  intro s
  apply (carries_set rfl).bind
  intro _
  -- The count of the calls is all that a sub is given of the state.
  have hcalls : (s.rename ρ).calls = s.calls := rfl
  rw [hcalls]
  cases perl.call s.calls sub arg with
  | ok sv => exact carries_pure sv
  | error msg => exact carries_throw _

theorem hookCall_carries (hook : Option ℕ) (sv : SV) :
    Carries (PackInfo.rename ρ) (hookCall perl hook sv) (hookCall perl hook sv) := by
  cases hook with
  | none => exact carries_pure sv
  | some sub => exact callSub_carries perl sub (some sv)

theorem dimtagEval_carries (tag : DimensionTag) (avail : ℤ) :
    Carries (PackInfo.rename ρ) (dimtagEval perl tag avail) (dimtagEval perl tag avail) := by
  cases tag with
  | none => exact carries_throw _
  | flexible => exact carries_pure avail
  | fixed dim => exact carries_pure (i64 dim)
  | member expr =>
    apply Carries.bind
    · apply carries_get_bind
      intro s
      -- The parent is a Perl hash, which holds no pointer into the tables.
      have hparent : (s.rename ρ).parent = s.parent := rfl
      rw [hparent]
      cases s.parent with
      | none => exact carries_pure _
      | some parent => exact liftCall_carries _
    · exact fun dim => carries_pure dim.1
  | hook sub =>
    apply Carries.bind
    · apply carries_get_bind
      intro s
      apply (callSub_carries perl sub (s.parent.map .hv)).bind
      exact fun sv => carries_pure _
    · exact fun dim => carries_pure dim.1

theorem preparePackFormat_carries (pDecl : Declarator) (dimtag : Option DimensionTag) :
    Carries (PackInfo.rename ρ) (preparePackFormat perl pDecl dimtag)
      (preparePackFormat perl pDecl dimtag) := by
  unfold preparePackFormat
  apply (liftCall_carries _).bind
  intro one
  apply carries_ite
  · exact carries_pure (one, true)
  · cases dimtag with
    | none => exact carries_pure (pDecl.size, false)
    | some tag =>
      apply (dimtagEval_carries perl tag 0).bind
      intro dim
      apply (liftCall_carries _).bind
      exact fun size => carries_pure (i32 size, false)

end Perl

section Leaves
variable (perl : Perl) (cbc : CBC)

theorem fetchInt_carries (size : ℤ) (sign : Bool) (pBI : Option BitfieldInfo) :
    Carries (PackInfo.rename ρ) (fetchInt cbc size sign pBI) (fetchInt cbc size sign pBI) := by
  unfold fetchInt
  apply carries_get_bind
  intro s
  apply (emit_carries (.access s.path pBI.isSome (intOrder cbc s pBI) s.pos size)).bind
  intro _
  apply carries_ite
  · exact carries_throw _
  · apply carries_ite
    · exact liftCall_carries _
    · exact carries_throw _

theorem fetchIntSv_carries (size : ℤ) (sign : Bool) (pBI : Option BitfieldInfo) :
    Carries (PackInfo.rename ρ) (fetchIntSv cbc size sign pBI) (fetchIntSv cbc size sign pBI) := by
  apply (fetchInt_carries cbc size sign pBI).bind
  exact fun iv => carries_pure _

theorem fetchBytes_carries (n : ℕ) : Carries (PackInfo.rename ρ) (fetchBytes n) (fetchBytes n) := by
  unfold fetchBytes
  apply carries_get_bind
  intro s
  apply carries_ite
  · exact carries_throw _
  · exact carries_pure _

theorem fetchFloatSv_carries (size : ℤ) (flags : TFlags) :
    Carries (PackInfo.rename ρ) (fetchFloatSv perl cbc size flags)
      (fetchFloatSv perl cbc size flags) := by
  unfold fetchFloatSv
  apply carries_ite
  · apply carries_get_bind
    intro s
    apply (emit_carries (.access s.path false s.order s.pos size)).bind
    intro _
    apply (fetchBytes_carries size.toNat).bind
    exact fun bytes => carries_pure _
  · exact carries_pure _

theorem unpackPointer_carries :
    Carries (PackInfo.rename ρ) (unpackPointer cbc) (unpackPointer cbc) := by
  apply (checkBuffer_carries (ptrSize cbc)).bind
  intro short
  apply carries_ite
  · exact carries_pure _
  · exact fetchIntSv_carries cbc (ptrSize cbc) false none

theorem unpackBasic_carries (flags : TFlags) (pBI : Option BitfieldInfo) :
    Carries (PackInfo.rename ρ) (unpackBasic perl cbc flags pBI) (unpackBasic perl cbc flags pBI) := by
  apply (checkBuffer_carries (packLoadSize cbc flags pBI).1).bind
  intro short
  apply carries_ite
  · exact carries_pure _
  · apply carries_ite
    · exact fetchFloatSv_carries perl cbc _ _
    · exact fetchIntSv_carries cbc _ _ pBI

theorem unpackFormat_carries (format : FormatTag) (size : ℤ) (flexible : Bool) :
    Carries (PackInfo.rename ρ) (unpackFormat format size flexible)
      (unpackFormat format size flexible) := by
  unfold unpackFormat
  apply carries_get_bind
  intro s
  apply carries_ite
  · exact carries_pure _
  · apply (liftCall_carries _).bind
    intro size
    apply (emit_carries (.copy s.path s.pos size)).bind
    intro _
    apply (fetchBytes_carries size.toNat).bind
    intro bytes
    cases format with
    | binary => exact carries_pure _
    | string => exact carries_pure _

theorem unpackEnum_carries (pES : EnumSpecifier) (pBI : Option BitfieldInfo) :
    Carries (PackInfo.rename ρ) (unpackEnum perl cbc pES pBI) (unpackEnum perl cbc pES pBI) := by
  unfold unpackEnum
  apply byteOrder_carries.bind
  intro old_byte_order
  cases pES.tags.format with
  | some format =>
    apply (within_carries (.enum pES) (unpackFormat_carries format _ false)).bind
    exact fun sv => hookCall_carries perl _ sv
  | none =>
    apply (setByteOrder_carries pES.tags).bind
    intro _
    apply (checkBuffer_carries _).bind
    intro short
    apply carries_ite
    · exact carries_pure _
    · apply (within_carries (.enum pES) (fetchInt_carries cbc _ pES.signed pBI)).bind
      intro iv
      apply (restoreByteOrder_carries old_byte_order).bind
      exact fun _ => hookCall_carries perl _ _

end Leaves

section Arrays
variable (perl : Perl)

theorem unpackCount_carries (pDecl : Declarator) (dimension : ℕ) (dimtag : Option DimensionTag)
    (avail : ℤ) : Carries (PackInfo.rename ρ) (unpackCount perl pDecl dimension dimtag avail)
      (unpackCount perl pDecl dimension dimtag avail) := by
  unfold unpackCount
  cases dimtag with
  | some tag => exact dimtagEval_carries perl tag avail
  | none =>
    cases pDecl.dims[dimension]? with
    | none => exact carries_throw _
    | some v => exact carries_pure _

theorem avExtend_carries (s : ℤ) :
    Carries (PackInfo.rename ρ) (avExtend perl s) (avExtend perl s) := by
  unfold avExtend
  apply carries_ite
  · exact carries_throw _
  · exact carries_pure _

theorem unpackArrayHead_carries (pDecl : Declarator) (dimension : ℕ) (dimtag : Option DimensionTag) :
    Carries (PackInfo.rename ρ) (unpackArrayHead perl pDecl dimension dimtag)
      (unpackArrayHead perl pDecl dimension dimtag) := by
  unfold unpackArrayHead
  apply (liftCall_carries _).bind
  intro size
  apply carries_get_bind
  intro st
  apply (liftCall_carries _).bind
  intro avail
  apply (unpackCount_carries perl pDecl dimension dimtag avail).bind
  intro s
  apply (emit_carries (.elements st.path (isFlexible pDecl dimension dimtag) st.pos st.length size
    (loopBound s))).bind
  intro _
  apply (avExtend_carries perl _).bind
  exact fun _ => carries_pure _

end Arrays

/-- The end of `followTsptr`. -/
def compoundAt : TypeSpec → Call ℕ
  | .compound _ pStruct => .ok pStruct
  | _ => .error (.fatal "Unnamed member was not struct or union")

section Types
variable {Listed : ParserObject → Prop} {heap heap' : Heap} (hcopies : heap.Copies ρ heap' Listed)
include hcopies

theorem Heap.Copies.typespec_hooks {pTS : TypeSpec} (hlisted : ∀ o, pTS.object = some o → Listed o) :
    typespecHooks heap' (pTS.rename ρ) = typespecHooks heap pTS := by
  cases pTS with
  | basic tflags => rfl
  | enum pES => exact congrArg (fun pES => pES.tags.hooks) (hcopies.enum pES (hlisted _ rfl))
  | compound kind s => exact congrArg (fun s => s.tags.hooks) (hcopies.struct s (hlisted _ rfl))
  | typedef t => exact congrArg (fun td => td.decl.tags.hooks) (hcopies.typedef t (hlisted _ rfl))

/-- The chain of typedefs leads to the copy of what it leads to. -/
theorem Heap.Copies.follow_typedef (fuel : ℕ) {t : ℕ} (ht : Listed (.typedef t)) :
    Maps (TypeSpec.rename ρ) (fun spec => ∀ o, spec.object = some o → Listed o)
      (followTypedef heap fuel t) (followTypedef heap' fuel (ρ (.typedef t))) := by
  induction fuel generalizing t with
  | zero => exact maps_error _
  | succ fuel ih =>
    have hobject := hcopies.type_object t ht
    unfold followTypedef
    rw [hcopies.typedef t ht, Typedef.rename]
    dsimp only
    generalize (heap.typedefAt t).type = type at hobject ⊢
    -- A typedef of a pointer or of an array ends the chain like a type that is no typedef.
    cases type with
    | basic tflags => exact maps_ok hobject
    | enum pES => exact maps_ok hobject
    | compound kind s => exact maps_ok hobject
    | typedef t' =>
      dsimp only [TypeSpec.rename]
      split_ifs
      · exact ih (hobject _ rfl)
      · exact maps_ok hobject

omit hcopies in
/-- The compound at the end of the chain. -/
theorem compoundAt_maps {spec : TypeSpec} (hlisted : ∀ o, spec.object = some o → Listed o) :
    Maps (fun s => ρ (.struct s)) (fun s => Listed (.struct s)) (compoundAt spec)
      (compoundAt (spec.rename ρ)) := by
  cases spec with
  | basic tflags => exact maps_error _
  | enum pES => exact maps_error _
  | typedef t => exact maps_error _
  | compound kind s => exact maps_ok (hlisted _ rfl)

theorem Heap.Copies.follow_tsptr (fuel : ℕ) {pTS : TypeSpec}
    (hlisted : ∀ o, pTS.object = some o → Listed o) :
    Maps (fun s => ρ (.struct s)) (fun s => Listed (.struct s)) (followTsptr heap fuel pTS)
      (followTsptr heap' fuel (pTS.rename ρ)) := by
  cases pTS with
  | basic tflags => exact compoundAt_maps hlisted
  | enum pES => exact compoundAt_maps hlisted
  | compound kind s => exact compoundAt_maps hlisted
  | typedef t => exact (hcopies.follow_typedef fuel (hlisted _ rfl)).bind fun _ => compoundAt_maps

end Types

theorem declarations_rename (s : Struct) : (s.rename ρ).declarations.getD [] =
    (s.declarations.getD []).map (StructDeclaration.rename ρ) := by
  unfold Struct.rename
  cases s.declarations with
  | none => rfl
  | some list => rfl

/-- The call for the type, and the call for its copy. -/
def UnpackTypeFn.Carries (ρ : ParserObject → ℕ) (Listed : ParserObject → Prop)
    (f f' : UnpackTypeFn) : Prop :=
  ∀ pTS pDecl dimension pBI, (∀ o, pTS.object = some o → Listed o) →
    CarryRules.Carries (PackInfo.rename ρ) (f pTS pDecl dimension pBI)
      (f' (pTS.rename ρ) pDecl dimension pBI)

def UnpackStructFn.Carries (ρ : ParserObject → ℕ) (Listed : ParserObject → Prop)
    (f f' : UnpackStructFn) : Prop :=
  ∀ s hash, Listed (.struct s) →
    CarryRules.Carries (PackInfo.rename ρ) (f s hash) (f' (ρ (.struct s)) hash)

section Unpack
variable (perl : Perl) (cbc : CBC) {heap' : Heap} {Listed : ParserObject → Prop}
  {unpackType unpackType' : UnpackTypeFn} {unpackStruct unpackStruct' : UnpackStructFn}
  (hcopies : cbc.heap.Copies ρ heap' Listed)
  (htype : UnpackTypeFn.Carries ρ Listed unpackType unpackType')
  (hstruct : UnpackStructFn.Carries ρ Listed unpackStruct unpackStruct')

include htype in
theorem unpackArray_carries {pTS : TypeSpec} (hlisted : ∀ o, pTS.object = some o → Listed o)
    (pDecl : Declarator) (dimension : ℕ) (dimtag : Option DimensionTag) :
    Carries (PackInfo.rename ρ) (unpackArray perl unpackType pTS pDecl dimension dimtag)
      (unpackArray perl unpackType' (pTS.rename ρ) pDecl dimension dimtag) := by
  unfold unpackArray
  apply (unpackArrayHead_carries perl pDecl dimension dimtag).bind
  intro (size, pos, s)
  apply Carries.bind
  · apply carries_mapM
    intro i _
    apply within_carries (.element i)
    apply (liftCall_carries _).bind
    intro distance
    apply (setPos_carries _).bind
    intro _
    exact htype pTS (some pDecl) (dimension + 1) none hlisted
  · exact fun elems => carries_pure _

include htype hstruct hcopies in
theorem unpackUntagged_carries {pTS : TypeSpec} (hlisted : ∀ o, pTS.object = some o → Listed o)
    (pDecl : Option Declarator) (dimension : ℕ) (dimtag : Option DimensionTag)
    (pBI : Option BitfieldInfo) :
    Carries (PackInfo.rename ρ)
      (unpackUntagged perl cbc unpackType unpackStruct pTS pDecl dimension dimtag pBI)
      (unpackUntagged perl { cbc with heap := heap' } unpackType' unpackStruct' (pTS.rename ρ) pDecl
        dimension dimtag pBI) := by
  unfold unpackUntagged
  split
  · exact unpackArray_carries perl htype hlisted _ dimension dimtag
  · apply carries_ite
    · apply (unpackPointer_carries cbc).bind
      intro rv
      show Carries _ _ (hookCall perl ((typespecHooks heap' (pTS.rename ρ)).bind _) rv)
      rw [hcopies.typespec_hooks hlisted]
      exact hookCall_carries perl _ rv
    · cases pTS with
      | basic flags => exact unpackBasic_carries perl cbc flags pBI
      | enum e =>
        show Carries _ _ (unpackEnum perl { cbc with heap := heap' }
          (heap'.enumAt (ρ (.enumSpecifier e))) pBI)
        rw [hcopies.enum e (hlisted _ rfl)]
        exact unpackEnum_carries perl cbc _ pBI
      | compound kind s =>
        dsimp only [TypeSpec.rename]
        rw [hcopies.struct s (hlisted _ rfl), Struct.rename]
        dsimp only
        cases (cbc.heap.structAt s).declarations with
        | none => exact carries_pure _
        | some list => exact hstruct s none (hlisted _ rfl)
      | typedef t =>
        show Carries _ _ (unpackType' (heap'.typedefAt (ρ (.typedef t))).type
          (some (heap'.typedefAt (ρ (.typedef t))).decl) 0 pBI)
        rw [hcopies.typedef t (hlisted _ rfl)]
        exact htype _ _ 0 pBI (hcopies.type_object t (hlisted _ rfl))

include htype hstruct hcopies in
theorem unpackTypeStep_carries : UnpackTypeFn.Carries ρ Listed
    (unpackTypeStep perl cbc unpackType unpackStruct)
    (unpackTypeStep perl { cbc with heap := heap' } unpackType' unpackStruct') := by
  intro pTS pDecl dimension pBI hlisted
  have huntagged := @unpackUntagged_carries ρ perl cbc heap' Listed unpackType unpackType'
    unpackStruct unpackStruct' hcopies htype hstruct pTS hlisted pDecl dimension
  unfold unpackTypeStep
  split
  · next d =>
    cases d.tags.format with
    | some format =>
      apply Carries.bind
      · apply within_carries (.declarator d)
        apply (preparePackFormat_carries perl d d.tags.dimension).bind
        intro (size, flexible)
        exact unpackFormat_carries format (u32 size) flexible
      · exact fun rv => hookCall_carries perl _ rv
    | none =>
      apply (inScope_carries (.declarator d) d.tags (huntagged d.tags.dimension pBI)).bind
      exact fun rv => hookCall_carries perl _ rv
  · exact keepByteOrder_carries (huntagged none pBI)

include htype in
theorem unpackMember_carries {type : TypeSpec} (hlisted : ∀ o, type.object = some o → Listed o)
    (pos : ℤ) (h : Hash) (pDecl : Declarator) :
    Carries (PackInfo.rename ρ) (unpackMember unpackType pos type h pDecl)
      (unpackMember unpackType' pos (type.rename ρ) h pDecl) := by
  unfold unpackMember
  apply carries_ite
  · exact carries_pure h
  · apply (setPos_carries _).bind
    intro _
    apply (setParent_carries _).bind
    intro _
    apply (htype type (some pDecl) 0 _ hlisted).bind
    intro value
    apply (setParent_carries _).bind
    exact fun _ => carries_pure _

include htype hstruct hcopies in
theorem unpackDeclaration_carries (fuel : ℕ) {sd : StructDeclaration}
    (hlisted : ∀ o, sd.type.object = some o → Listed o) (pos : ℤ) (h : Hash) :
    Carries (PackInfo.rename ρ) (unpackDeclaration cbc fuel unpackType unpackStruct pos h sd)
      (unpackDeclaration { cbc with heap := heap' } fuel unpackType' unpackStruct' pos h
        (sd.rename ρ)) := by
  unfold unpackDeclaration StructDeclaration.rename
  dsimp only
  cases sd.declarators with
  | some declarators =>
    have hloop := @carries_foldlM _ _ _ _ (PackInfo.rename ρ) id _ _ declarators
      (fun h d _ => unpackMember_carries htype hlisted pos h d) h
    rw [List.map_id] at hloop
    exact hloop
  | none =>
    apply liftCall_bind (hcopies.follow_tsptr fuel hlisted)
    intro s hs
    apply (setPos_carries _).bind
    intro _
    apply (hstruct s (some h) hs).bind
    intro sv
    split
    · exact carries_pure _
    · exact carries_pure _

include htype hstruct hcopies in
theorem unpackMembers_carries (fuel : ℕ) {s : ℕ} (hs : Listed (.struct s)) (h : Hash) :
    Carries (PackInfo.rename ρ)
      (unpackMembers cbc fuel unpackType unpackStruct (cbc.heap.structAt s) h)
      (unpackMembers { cbc with heap := heap' } fuel unpackType' unpackStruct'
        ((cbc.heap.structAt s).rename ρ) h) := by
  unfold unpackMembers
  apply carries_get_bind
  intro st
  rw [declarations_rename]
  apply carries_foldlM
  intro h sd hsd
  exact unpackDeclaration_carries cbc hcopies htype hstruct fuel
    (hcopies.member_object s hs sd hsd) _ h

include htype hstruct hcopies in
theorem unpackStructStep_carries (fuel : ℕ) : UnpackStructFn.Carries ρ Listed
    (unpackStructStep perl cbc fuel unpackType unpackStruct)
    (unpackStructStep perl { cbc with heap := heap' } fuel unpackType' unpackStruct') := by
  intro s hash hs
  have hmembers := @unpackMembers_carries ρ cbc heap' Listed unpackType unpackType' unpackStruct
    unpackStruct' hcopies htype hstruct fuel s hs
  unfold unpackStructStep
  dsimp only
  rw [hcopies.struct s hs]
  cases hash with
  | some h =>
    apply (inScope_carries (.inlined (cbc.heap.structAt s)) .empty (hmembers h)).bind
    exact fun h => carries_pure _
  | none =>
    have htags : ((cbc.heap.structAt s).rename ρ).tags = (cbc.heap.structAt s).tags := rfl
    rw [htags]
    cases (cbc.heap.structAt s).tags.format with
    | some format =>
      apply (within_carries (.compound (cbc.heap.structAt s))
        (unpackFormat_carries format _ false)).bind
      exact fun sv => hookCall_carries perl _ sv
    | none =>
      apply (inScope_carries (.compound (cbc.heap.structAt s)) _ (hmembers [])).bind
      exact fun h => hookCall_carries perl _ _

end Unpack

section Recursion
variable (perl : Perl) (cbc : CBC) {heap' : Heap} {Listed : ParserObject → Prop}
  (hcopies : cbc.heap.Copies ρ heap' Listed)
include hcopies

/-- By induction on the depth, for both functions at once. -/
theorem unpack_carries (fuel : ℕ) :
    UnpackTypeFn.Carries ρ Listed (unpackType perl cbc fuel)
        (unpackType perl { cbc with heap := heap' } fuel) ∧
      UnpackStructFn.Carries ρ Listed (unpackStruct perl cbc fuel)
        (unpackStruct perl { cbc with heap := heap' } fuel) := by
  induction fuel with
  | zero =>
    constructor
    · exact fun _ _ _ _ _ => carries_throw _
    · exact fun _ _ _ => carries_throw _
  | succ fuel ih =>
    constructor
    · exact unpackTypeStep_carries perl cbc hcopies ih.1 ih.2
    · exact unpackStructStep_carries perl cbc hcopies ih.1 ih.2 fuel

theorem pkUnpack_carries (fuel : ℕ) {pTS : TypeSpec} (hlisted : ∀ o, pTS.object = some o → Listed o)
    (pDecl : Option Declarator) (dimension : ℕ) :
    Carries (PackInfo.rename ρ) (pkUnpack perl cbc fuel pTS pDecl dimension)
      (pkUnpack perl { cbc with heap := heap' } fuel (pTS.rename ρ) pDecl dimension) := by
  unfold pkUnpack
  apply (restoreByteOrder_carries _).bind
  intro _
  exact (unpack_carries perl cbc hcopies fuel).1 pTS pDecl dimension none hlisted

end Recursion
end Steps
end ConvertBinaryC
