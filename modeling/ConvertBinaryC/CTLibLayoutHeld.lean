import ConvertBinaryC.CTLibExactParse

/-! The layout of a compound whose nested types are laid out already: no question about
a member starts another layout, so the layout is a run over its members. -/
namespace ConvertBinaryC
open FoldRules BitCounterRules

/-- Two heaps that differ at most in the compound `s`. -/
structure SameBut (s : ℕ) (heap heap' : Heap) : Prop where
  typedefs : heap'.typedefAt = heap.typedefAt
  enums : heap'.enumAt = heap.enumAt
  structs : ∀ t, t ≠ s → heap'.structAt t = heap.structAt t

theorem SameBut.refl (s : ℕ) (heap : Heap) : SameBut s heap heap := ⟨rfl, rfl, fun _ _ => rfl⟩

theorem SameBut.setStruct {s : ℕ} {heap heap' : Heap} (h : SameBut s heap heap')
    (pStruct : Struct) : SameBut s heap (heap'.setStruct s pStruct) where
  typedefs := h.typedefs
  enums := h.enums
  structs := fun t ht => (Heap.setStruct_of_ne _ _ ht).trans (h.structs t ht)

def Member.dims (m : Member) : List Value := (m.pDecl.map Declarator.dims).getD []

section Info
variable (rule : ExactRule) (arch : NativeArch) (pLP : LayoutParam) (heap : Heap) (s : ℕ)

/-- The type information about a member of `s` by its declaration: sizes of arrays are
products of integers, and a compound has what its layout has recorded. There is none if a
layout has to be started, or for an array of a negative size. -/
def declaredInfo : ℕ → Member → Option TypeInfo
  | 0, _ => none
  | depth + 1, m => do
    let info ← (if m.pDecl.any Declarator.pointer_flag then
        some (TypeInfo.scalar (loadSize pLP.ptr_size arch.ptr_size))
      else
        match m.type with
        | .typedef t => declaredInfo depth (heap.typedefAt t).member
        | .enum pES => some (TypeInfo.scalar (enumTypeSize pLP (heap.enumAt pES)))
        | .compound _ t =>
          if t ≠ s ∧ ¬((heap.structAt t).declarations.isSome ∧ (heap.structAt t).align = 0) then
            some (structInfo arch pLP (heap.structAt t))
          else none
        | .basic tflags => some (TypeInfo.scalar (basicSize arch pLP tflags)) : Option TypeInfo)
    (exactDeclare rule info m.dims).toOption

/-- The products that `getTypeInfo` forms for a member are longs. -/
def Member.LongProducts (depth : ℕ) (m : Member) : Prop :=
  (declaredInfo .coded arch pLP heap s depth m).isSome

variable {rule arch pLP heap s}

/-- What a member's type says, before its dimensions are applied. -/
def DeclaredBase (rule : ExactRule) (arch : NativeArch) (pLP : LayoutParam) (heap : Heap) (s depth : ℕ)
    (m : Member) (base : TypeInfo) : Prop :=
  if m.pDecl.any Declarator.pointer_flag then
    base = TypeInfo.scalar (loadSize pLP.ptr_size arch.ptr_size)
  else
    match m.type with
    | .typedef t => declaredInfo rule arch pLP heap s depth (heap.typedefAt t).member = some base
    | .enum pES => base = TypeInfo.scalar (enumTypeSize pLP (heap.enumAt pES))
    | .compound _ t =>
      (t ≠ s ∧ ¬((heap.structAt t).declarations.isSome ∧ (heap.structAt t).align = 0)) ∧
        base = structInfo arch pLP (heap.structAt t)
    | .basic tflags => base = TypeInfo.scalar (basicSize arch pLP tflags)

theorem declaredInfo_some_iff {depth : ℕ} {m : Member} {info : TypeInfo} :
    declaredInfo rule arch pLP heap s (depth + 1) m = some info ↔
      ∃ base, DeclaredBase rule arch pLP heap s depth m base ∧
        exactDeclare rule base m.dims = .ok info := by
  have htoOption {x : Call TypeInfo} : x.toOption = some info ↔ x = .ok info := by
    cases x with
    | error e => exact ⟨fun h => (nomatch h), fun h => (nomatch h)⟩
    | ok i => exact ⟨fun h => congrArg _ (Option.some.inj h), fun h => congrArg _ (Except.ok.inj h)⟩
  rw [declaredInfo, Option.bind_eq_bind, Option.bind_eq_some_iff]
  refine exists_congr fun base => and_congr ?_ htoOption
  unfold DeclaredBase
  split_ifs with hptr
  · rw [Option.some.injEq, eq_comm]
  · cases m.type with
    | basic tflags =>
      dsimp only
      rw [Option.some.injEq, eq_comm]
    | enum pES =>
      dsimp only
      rw [Option.some.injEq, eq_comm]
    | typedef t => exact Iff.rfl
    | compound kind t =>
      dsimp only
      split_ifs with hheld
      · rw [Option.some.injEq, eq_comm]
        exact ⟨fun h => ⟨hheld, h⟩, fun h => h.2⟩
      · exact ⟨fun h => (nomatch h), fun h => absurd h.1 hheld⟩

theorem declaredInfo_base {depth : ℕ} {m : Member} {info : TypeInfo}
    (h : declaredInfo rule arch pLP heap s depth m = some info) :
    ∃ below base, DeclaredBase rule arch pLP heap s below m base ∧
      exactDeclare rule base m.dims = .ok info := by
  cases depth with
  | zero => exact nomatch h
  | succ depth => exact ⟨depth, declaredInfo_some_iff.mp h⟩

/-- A product that the code can form is a product. -/
theorem DeclaredBase.declared {depth : ℕ} {m : Member} {base : TypeInfo}
    (h : DeclaredBase .coded arch pLP heap s depth m base)
    (ih : ∀ {m info}, declaredInfo .coded arch pLP heap s depth m = some info →
      declaredInfo .declared arch pLP heap s depth m = some info) :
    DeclaredBase .declared arch pLP heap s depth m base := by
  unfold DeclaredBase at h ⊢
  split_ifs at h ⊢
  · exact h
  · cases htype : m.type with
    | typedef t =>
      rw [htype] at h
      exact ih h
    | basic tflags =>
      rw [htype] at h
      exact h
    | enum pES =>
      rw [htype] at h
      exact h
    | compound kind t =>
      rw [htype] at h
      exact h

theorem declaredInfo_of_coded {depth : ℕ} {m : Member} {info : TypeInfo}
    (h : declaredInfo .coded arch pLP heap s depth m = some info) :
    declaredInfo .declared arch pLP heap s depth m = some info := by
  induction depth generalizing m info with
  | zero => exact nomatch h
  | succ depth ih =>
    obtain ⟨base, hbase, hdeclare⟩ := declaredInfo_some_iff.mp h
    refine declaredInfo_some_iff.mpr ⟨base, hbase.declared ih, ?_⟩
    obtain ⟨hnonneg, -, rfl⟩ := exactDeclare_ok hdeclare
    unfold exactDeclare
    exact if_neg fun hbad => hbad.elim (not_lt.mpr hnonneg) Bool.noConfusion

/-- The answer about a member, which changes nothing: it is what the declaration says as far as
an unsigned can tell, and there is one if and only if the products are longs. -/
structure AskedAs (arch : NativeArch) (pLP : LayoutParam) (heap : Heap) (s depth : ℕ) (m : Member)
    (exact : TypeInfo) (asked : Call TypeInfo) : Prop where
  asks : ∀ st : LayoutState, SameBut s heap st.heap →
    getTypeInfo arch pLP depth st m.type m.pDecl = asked >>= fun info => .ok (st, info)
  same : ∀ info, asked = .ok info → SameInfo info exact
  long : (∃ info, asked = .ok info) ↔ declaredInfo .coded arch pLP heap s depth m = some exact

/-- The answer about a type becomes one about a declarator by its dimensions. -/
theorem AskedAs.declare {depth : ℕ} {m : Member} {base exact : TypeInfo} {asked : Call TypeInfo}
    (hasks : ∀ st : LayoutState, SameBut s heap st.heap →
      getTypeInfo arch pLP (depth + 1) st m.type m.pDecl =
        asked >>= fun info => info.declare m.dims >>= fun info => .ok (st, info))
    (hsame : ∀ info, asked = .ok info → SameInfo info base)
    (hlong : (∃ info, asked = .ok info) ↔ DeclaredBase .coded arch pLP heap s depth m base)
    (hunique : ∀ base', DeclaredBase .coded arch pLP heap s depth m base' → base' = base)
    (hdeclare : exactDeclare .declared base m.dims = .ok exact) :
    AskedAs arch pLP heap s (depth + 1) m exact (asked >>= fun info => info.declare m.dims) where
  asks := by
    intro st hst
    rw [hasks st hst, bind_assoc]
  same := by
    intro info hinfo
    obtain ⟨i, hi, hinfo⟩ := bind_ok hinfo
    obtain ⟨info', hinfo', hsame'⟩ :=
      (hsame i hi).declare (exactDeclare_coded (hsame i hi) hinfo hdeclare)
    rw [hinfo] at hinfo'
    exact Except.ok.inj hinfo' ▸ hsame'
  long := by
    rw [declaredInfo_some_iff]
    constructor
    · rintro ⟨info, hinfo⟩
      obtain ⟨i, hi, hinfo⟩ := bind_ok hinfo
      exact ⟨base, hlong.mp ⟨i, hi⟩, exactDeclare_coded (hsame i hi) hinfo hdeclare⟩
    · rintro ⟨base', hbase', hcoded⟩
      obtain rfl := hunique base' hbase'
      obtain ⟨i, hi⟩ := hlong.mpr hbase'
      obtain ⟨info, hinfo, -⟩ := (hsame i hi).declare hcoded
      exact ⟨info, by rw [hi, call_bind_apply, hinfo]⟩

theorem declaredInfo_asked (hoptions : SmallOptions arch pLP) (hsane : heap.Sane pLP) {depth : ℕ}
    {m : Member} {exact : TypeInfo}
    (h : declaredInfo .declared arch pLP heap s depth m = some exact) :
    ∃ asked, AskedAs arch pLP heap s depth m exact asked := by
  induction depth generalizing m exact with
  | zero => exact nomatch h
  | succ depth ih =>
    obtain ⟨base, hbase, hdeclare⟩ := declaredInfo_some_iff.mp h
    -- a type about which the code always knows as much as the declaration says
    have hknown (hsame : SameInfo base base)
        (hasks : ∀ st : LayoutState, SameBut s heap st.heap →
          getTypeInfo arch pLP (depth + 1) st m.type m.pDecl =
            base.declare m.dims >>= fun info => .ok (st, info))
        (hcoded : ∀ base', DeclaredBase .coded arch pLP heap s depth m base' ↔ base' = base) :
        ∃ asked, AskedAs arch pLP heap s (depth + 1) m exact asked :=
      ⟨_, @AskedAs.declare arch pLP heap s depth m base exact (.ok base) hasks
        (fun info hinfo => Except.ok.inj hinfo ▸ hsame)
        ⟨fun _ => (hcoded base).mpr rfl, fun _ => ⟨base, rfl⟩⟩ (fun base' => (hcoded base').mp)
        hdeclare⟩
    obtain ⟨type, pDecl⟩ := m
    unfold DeclaredBase at hbase
    dsimp only at hbase
    by_cases hptr : (pDecl.any Declarator.pointer_flag) = true
    · rw [if_pos hptr] at hbase
      subst hbase
      refine hknown (sameInfo_scalar hoptions.ptr) (fun st _ => ?_) fun base' => ?_
      · unfold getTypeInfo
        rw [if_pos hptr]
        rfl
      · unfold DeclaredBase
        rw [if_pos hptr]
    · rw [if_neg hptr] at hbase
      cases type with
      | basic tflags =>
        subst hbase
        refine hknown (sameInfo_scalar (hoptions.basic tflags)) (fun st _ => ?_) fun base' => ?_
        · unfold getTypeInfo
          rw [if_neg hptr]
          rfl
        · unfold DeclaredBase
          rw [if_neg hptr]
      | enum pES =>
        subst hbase
        refine hknown (sameInfo_scalar (hsane.enums pES)) (fun st hst => ?_) fun base' => ?_
        · unfold getTypeInfo
          rw [if_neg hptr, ← hst.enums]
          rfl
        · unfold DeclaredBase
          rw [if_neg hptr]
      | compound kind t =>
        obtain ⟨hheld, rfl⟩ := hbase
        have hlaid (hbody : (heap.structAt t).declarations.isSome) :
            (heap.structAt t).align ≠ 0 := fun hzero => hheld.2 ⟨hbody, hzero⟩
        refine hknown (sameInfo_struct hoptions hsane hlaid) (fun st hst => ?_) fun base' => ?_
        · unfold getTypeInfo
          rw [if_neg hptr]
          dsimp only
          rw [hst.structs t hheld.1, if_neg hheld.2]
          dsimp only [call_bind_apply]
          rw [hst.structs t hheld.1]
          rfl
        · unfold DeclaredBase
          rw [if_neg hptr]
          exact and_iff_right hheld
      | typedef t =>
        obtain ⟨asked, hasked⟩ := ih hbase
        refine ⟨_, AskedAs.declare (fun st hst => ?_) hasked.same ?_ (fun base' hbase' => ?_)
          hdeclare⟩
        · have hinner := hasked.asks st hst
          rw [← hst.typedefs] at hinner
          unfold getTypeInfo
          rw [if_neg hptr]
          show (getTypeInfo arch pLP depth st (st.heap.typedefAt t).member.type
            (st.heap.typedefAt t).member.pDecl >>= _) = _
          rw [hinner, bind_assoc]
          rfl
        · rw [hasked.long]
          unfold DeclaredBase
          rw [if_neg hptr]
        · unfold DeclaredBase at hbase'
          rw [if_neg hptr] at hbase'
          exact Option.some.inj ((declaredInfo_of_coded hbase').symm.trans hbase)

end Info

section Query
variable {σ : Type} {query : TypeQuery σ} {kind : CompoundKind} {alignment : ℤ} (I : σ → Prop)

/-- The question about a member is answered with its information, and the layouter
is left alone. -/
def Knows (I : σ → Prop) (query : TypeQuery σ) (step : MemberStep) : Prop :=
  ∀ x f, I x → ∃ x', I x' ∧
    query x f step.member.type step.member.pDecl = .ok (x', f.bl, step.info)

variable {I}

theorem queryDeclarators_of_run {type : TypeSpec} {declarators : List Declarator}
    {steps : List MemberStep} {x : σ} {f f' : Frame} {offset : ℤ} {placed : List Placed}
    (hmembers : steps.map MemberStep.member = declarators.map fun pDecl => ⟨type, some pDecl⟩)
    (hquery : ∀ step ∈ steps, Knows I query step) (hx : I x)
    (hrun : mapAccumM (memberStep kind alignment) f steps = .ok (f', placed)) :
    ∃ x' offset' declarators', I x' ∧
      mapAccumM (queryDeclarator query kind alignment type) (x, f, offset) declarators =
        .ok ((x', f', offset'), declarators') ∧
      declarators'.map Placed.declarator = placed := by
  induction declarators generalizing steps x f offset placed with
  | nil =>
    obtain rfl := List.map_eq_nil_iff.mp hmembers
    cases hrun
    exact ⟨x, offset, [], hx, rfl, rfl⟩
  | cons pDecl declarators ih =>
    obtain ⟨step, steps, rfl, hstep, hsteps⟩ := List.map_eq_cons_iff.mp hmembers
    obtain ⟨⟨f₁, p₁⟩, hfirst, hrun⟩ := bind_ok hrun
    obtain ⟨⟨f₂, ps⟩, hrest, hrun⟩ := bind_ok hrun
    cases hrun
    obtain ⟨x₁, hx₁, hask⟩ := hquery step List.mem_cons_self x f hx
    obtain ⟨member, info⟩ := step
    dsimp only at hstep
    subst hstep
    obtain ⟨⟨⟨f₃, o₃⟩, d⟩, hlayout, hfirst⟩ := bind_ok hfirst
    cases hfirst
    obtain ⟨o₁, hlayout⟩ := layoutDeclarator_offset offset hlayout
    obtain ⟨x', o', ds, hx', hds, hplaced⟩ := @ih steps x₁ _ o₁ _ hsteps
      (fun step hstep => hquery step (List.mem_cons_of_mem _ hstep)) hx₁ hrest
    refine ⟨x', o', d :: ds, hx', mapAccumM_cons_ok ?_ hds, by rw [List.map_cons, hplaced]⟩
    unfold queryDeclarator
    dsimp only at hask ⊢
    rw [hask, call_bind_apply]
    dsimp only
    rw [hlayout, call_bind_apply]

theorem layoutDeclaration_of_run {pStructDecl : StructDeclaration} {steps : List MemberStep}
    {x : σ} {f f' : Frame} {placed : List Placed}
    (hmembers : steps.map MemberStep.member = pStructDecl.members)
    (hquery : ∀ step ∈ steps, Knows I query step) (hx : I x)
    (hrun : mapAccumM (memberStep kind alignment) f steps = .ok (f', placed)) :
    ∃ x' pStructDecl', I x' ∧ layoutDeclaration query kind alignment (x, f) pStructDecl =
      .ok ((x', f'), pStructDecl') ∧ pStructDecl'.placed = placed := by
  -- the end of the declaration, whatever its members were
  have hend {x' : σ} {o : ℤ} {ds : Option (List Declarator)}
      (h : queryMembers query kind alignment pStructDecl (x, f, startOffset kind) =
        .ok ((x', f', o), ds)) :
      layoutDeclaration query kind alignment (x, f) pStructDecl = .ok ((x', f'), { pStructDecl with
        declarators := ds
        offset := if o < 0 then i32 f'.size else o
        size := i32 (f'.size - if o < 0 then i32 f'.size else o) }) := by
    show (queryMembers query kind alignment pStructDecl (x, f, startOffset kind) >>= _) = _
    rw [h]
    rfl
  unfold StructDeclaration.members at hmembers
  cases hd : pStructDecl.declarators with
  | some declarators =>
    rw [hd] at hmembers
    obtain ⟨x', o, ds, hx', hds, hplaced⟩ := @queryDeclarators_of_run σ query kind alignment I
      pStructDecl.type declarators steps x f f' (startOffset kind) placed hmembers hquery hx hrun
    have hask : queryMembers query kind alignment pStructDecl (x, f, startOffset kind) =
        .ok ((x', f', o), some ds) := by
      unfold queryMembers
      rw [hd]
      dsimp only
      rw [hds]
      rfl
    exact ⟨x', _, hx', hend hask, hplaced⟩
  | none =>
    rw [hd] at hmembers
    obtain ⟨step, steps, rfl, hstep, hsteps⟩ := List.map_eq_cons_iff.mp hmembers
    obtain rfl := List.map_eq_nil_iff.mp hsteps
    obtain ⟨⟨f₁, p₁⟩, hfirst, hrun⟩ := bind_ok hrun
    cases hrun
    obtain ⟨x', hx', hanswer⟩ := hquery step List.mem_cons_self x (finishOpenBitfield f) hx
    obtain ⟨member, info⟩ := step
    dsimp only at hstep
    subst hstep
    obtain ⟨⟨pos, f₂⟩, hplace, hfirst⟩ := bind_ok hfirst
    cases hfirst
    have hask : queryMembers query kind alignment pStructDecl (x, f, startOffset kind) =
        .ok ((x', f', if startOffset kind < 0 then i32 pos else startOffset kind), none) := by
      unfold queryMembers queryUnnamed
      rw [hd]
      dsimp only at hanswer hplace ⊢
      rw [hanswer, call_bind_apply]
      dsimp only
      rw [hplace]
      rfl
    exact ⟨x', _, hx', hend hask, rfl⟩

theorem layoutDeclarations_of_run {declarations : List StructDeclaration}
    {steps : List MemberStep} {x : σ} {f f' : Frame} {placed : List Placed}
    (hmembers : steps.map MemberStep.member = declarations.flatMap StructDeclaration.members)
    (hquery : ∀ step ∈ steps, Knows I query step) (hx : I x)
    (hrun : mapAccumM (memberStep kind alignment) f steps = .ok (f', placed)) :
    ∃ x' declarations', I x' ∧ mapAccumM (layoutDeclaration query kind alignment) (x, f)
        declarations = .ok ((x', f'), declarations') ∧
      declarations'.flatMap StructDeclaration.placed = placed := by
  induction declarations generalizing steps x f placed with
  | nil =>
    obtain rfl := List.map_eq_nil_iff.mp hmembers
    cases hrun
    exact ⟨x, [], hx, rfl, rfl⟩
  | cons pStructDecl declarations ih =>
    rw [List.flatMap_cons] at hmembers
    obtain ⟨first, rest, rfl, hfirst, hrest⟩ := List.map_eq_append_iff.mp hmembers
    obtain ⟨f₁, ps, ps', hrunFirst, hrunRest, rfl⟩ := mapAccumM_append_inv hrun
    obtain ⟨x₁, d, hx₁, hd, hplaced⟩ := layoutDeclaration_of_run hfirst
      (fun step hstep => hquery step (List.mem_append_left _ hstep)) hx hrunFirst
    obtain ⟨x', ds, hx', hds, hplaced'⟩ := ih hrest
      (fun step hstep => hquery step (List.mem_append_right _ hstep)) hx₁ hrunRest
    exact ⟨x', d :: ds, hx', mapAccumM_cons_ok hd hds, by rw [List.flatMap_cons, hplaced, hplaced']⟩

/-- If the run over the members ends, so does the layout, with the same members. -/
theorem layoutStruct_of_run {arch : NativeArch} {pLP : LayoutParam} {bl : BitfieldLayouter}
    {pStruct : Struct} {steps : List MemberStep} {x : σ} {f : Frame} {placed : List Placed}
    (hbody : pStruct.declarations.isSome)
    (hmembers : steps.map MemberStep.member = pStruct.members)
    (hquery : ∀ step ∈ steps, Knows I query step) (hx : I x)
    (hrun : mapAccumM (memberStep pStruct.kind (structAlignment arch pLP pStruct))
      (initialFrame arch pLP bl pStruct) steps = .ok (f, placed))
    (halign : (finishOpenBitfield f).align ≠ 0) :
    ∃ x' pStruct', I x' ∧ layoutStruct arch pLP query x bl pStruct =
        .ok (x', (finishOpenBitfield f).bl, pStruct') ∧
      pStruct'.placed = placed ∧ pStruct'.align = (finishOpenBitfield f).align ∧
      pStruct'.size = paddedSize (finishOpenBitfield f).size (finishOpenBitfield f).align := by
  obtain ⟨declarations, hdecl⟩ := Option.isSome_iff_exists.mp hbody
  have hflat : steps.map MemberStep.member =
      declarations.flatMap StructDeclaration.members := by
    rw [hmembers, Struct.members, hdecl]
    rfl
  obtain ⟨x', ds, hx', hds, hplaced⟩ := layoutDeclarations_of_run hflat hquery hx hrun
  refine ⟨x', { Frame.store { finishOpenBitfield f with
    size := paddedSize (finishOpenBitfield f).size (finishOpenBitfield f).align } pStruct with
    declarations := some ds }, hx', ?_, hplaced, rfl, rfl⟩
  unfold layoutStruct
  rw [hdecl]
  dsimp only
  rw [hds, call_bind_apply]
  dsimp only [finishStruct]
  rw [if_neg halign, call_bind_apply]

end Query

section Held
variable {arch : NativeArch} {pLP : LayoutParam} {heap : Heap} {s depth : ℕ}

/-- The answer of the code about a member for which no layout has to be started. -/
def heldInfo (arch : NativeArch) (pLP : LayoutParam) (heap : Heap) (depth : ℕ) (m : Member) :
    Call TypeInfo := do
  let (_, info) ← getTypeInfo arch pLP depth ⟨heap, blCreateGeneric⟩ m.type m.pDecl
  .ok info

theorem heldInfo_asked (hoptions : SmallOptions arch pLP) (hsane : heap.Sane pLP) {m : Member}
    {exact : TypeInfo} (h : declaredInfo .declared arch pLP heap s depth m = some exact) :
    AskedAs arch pLP heap s depth m exact (heldInfo arch pLP heap depth m) := by
  obtain ⟨asked, hasked⟩ := declaredInfo_asked hoptions hsane h
  have hheld : heldInfo arch pLP heap depth m = asked := by
    unfold heldInfo
    rw [hasked.asks ⟨heap, blCreateGeneric⟩ (.refl s heap), bind_assoc]
    exact bind_pure asked
  rw [hheld]
  exact hasked

theorem AskedAs.query {m : Member} {exact : TypeInfo} {asked : Call TypeInfo}
    (h : AskedAs arch pLP heap s depth m exact asked) {heap' : Heap} (hsame : SameBut s heap heap')
    (f : Frame) :
    heapQuery (getTypeInfo arch pLP depth) s heap' f m.type m.pDecl = asked >>= fun info =>
      .ok (heap'.setStruct s (f.store (heap'.structAt s)), f.bl, info) := by
  have hask := h.asks ⟨heap'.setStruct s (f.store (heap'.structAt s)), f.bl⟩ (hsame.setStruct _)
  unfold heapQuery
  rw [hask, bind_assoc]
  rfl

variable {bl : BitfieldLayouter}

/-- The layout of a compound is a run over its members, if it ends. -/
theorem layoutCompound_run {members : List Member} {st : LayoutState}
    (hbody : (heap.structAt s).declarations.isSome) (hmembers : members = (heap.structAt s).members)
    (hasked : ∀ m ∈ members, ∃ exact,
      AskedAs arch pLP heap s depth m exact (heldInfo arch pLP heap depth m))
    (h : layoutCompound arch pLP (depth + 1) ⟨heap, bl⟩ s = .ok st) :
    ∃ steps f placed, Steps (heldInfo arch pLP heap depth) members steps ∧
      mapAccumM (memberStep (heap.structAt s).kind (structAlignment arch pLP (heap.structAt s)))
        (initialFrame arch pLP bl (heap.structAt s)) steps = .ok (f, placed) ∧
      (st.heap.structAt s).size =
        paddedSize (finishOpenBitfield f).size (finishOpenBitfield f).align := by
  subst hmembers
  unfold layoutCompound at h
  obtain ⟨⟨heap', bl', pStruct⟩, hlayout, h⟩ := bind_ok h
  cases h
  have hinforms : Informs (SameBut s heap) (heapQuery (getTypeInfo arch pLP depth) s)
      (heldInfo arch pLP heap depth) (heap.structAt s).members := by
    intro m hm x f x' bl₁ i hx hquery
    obtain ⟨exact, hm⟩ := hasked m hm
    rw [hm.query hx] at hquery
    obtain ⟨i', hi', hquery⟩ := bind_ok hquery
    cases hquery
    exact ⟨hx.setStruct _, rfl, hi'⟩
  obtain ⟨steps, f, hsteps, hrun, -, -, -, hsize⟩ :=
    layoutStruct_run hbody hinforms (.refl s heap) hlayout
  refine ⟨steps, f, _, hsteps, hrun, ?_⟩
  dsimp only
  rw [Heap.setStruct_self, hsize]

/-- If the run over the members ends, so does the layout. -/
theorem layoutCompound_of_run {members : List Member} {steps : List MemberStep} {f : Frame} {placed : List Placed}
    (hbody : (heap.structAt s).declarations.isSome) (hmembers : members = (heap.structAt s).members)
    (hasked : ∀ m ∈ members, ∃ exact,
      AskedAs arch pLP heap s depth m exact (heldInfo arch pLP heap depth m))
    (hsteps : Steps (heldInfo arch pLP heap depth) members steps)
    (hrun : mapAccumM (memberStep (heap.structAt s).kind
      (structAlignment arch pLP (heap.structAt s))) (initialFrame arch pLP bl (heap.structAt s))
        steps = .ok (f, placed))
    (halign : (finishOpenBitfield f).align ≠ 0) :
    ∃ st, layoutCompound arch pLP (depth + 1) ⟨heap, bl⟩ s = .ok st ∧
      (st.heap.structAt s).placed = placed ∧
      (st.heap.structAt s).align = (finishOpenBitfield f).align ∧
      (st.heap.structAt s).size =
        paddedSize (finishOpenBitfield f).size (finishOpenBitfield f).align := by
  subst hmembers
  have hquery (step : MemberStep) (hstep : step ∈ steps) :
      Knows (SameBut s heap) (heapQuery (getTypeInfo arch pLP depth) s) step := by
    intro heap' f' hsame
    have hmem : step.member ∈ (heap.structAt s).members :=
      hsteps.1 ▸ List.mem_map_of_mem hstep
    obtain ⟨exact, hm⟩ := hasked _ hmem
    refine ⟨_, hsame.setStruct (f'.store (heap'.structAt s)), ?_⟩
    rw [hm.query hsame, hsteps.2 step hstep, call_bind_apply]
  obtain ⟨heap', pStruct, -, hok, hplaced, hstructAlign, hstructSize⟩ :=
    @layoutStruct_of_run _ (heapQuery (getTypeInfo arch pLP depth) s) (SameBut s heap) arch pLP bl
      (heap.structAt s) steps heap f placed hbody hsteps.1 hquery (.refl s heap) hrun halign
  refine ⟨⟨heap'.setStruct s pStruct, (finishOpenBitfield f).bl⟩, ?_, ?_⟩
  · unfold layoutCompound
    dsimp only
    rw [hok]
    rfl
  · dsimp only
    rw [Heap.setStruct_self]
    exact ⟨hplaced, hstructAlign, hstructSize⟩

/-- The code sees a member as it is declared. -/
structure MemberStep.Sees (code declared : MemberStep) : Prop where
  member : code.member = declared.member
  size : code.info.size = declared.info.size
  align : code.info.align = declared.info.align
  item_size : declared.member.dims = [] → code.info.item_size = declared.info.item_size

/-- Without dimensions an item is all there is. -/
theorem declaredInfo_item {rule : ExactRule} {m : Member} {info : TypeInfo} (hdims : m.dims = [])
    (h : declaredInfo rule arch pLP heap s depth m = some info) : info.item_size = info.size := by
  obtain ⟨-, base, -, hdeclare⟩ := declaredInfo_base h
  obtain ⟨-, -, rfl⟩ := exactDeclare_ok hdeclare
  rw [hdims]
  exact (mul_one base.size).symm

theorem heldInfo_item {m : Member} {info : TypeInfo} (hdims : m.dims = [])
    (h : heldInfo arch pLP heap depth m = .ok info) : info.item_size = info.size := by
  obtain ⟨⟨st, i⟩, hask, h⟩ := bind_ok h
  cases h
  cases depth with
  | zero => exact nomatch hask
  | succ depth =>
    unfold getTypeInfo at hask
    obtain ⟨⟨st₁, base⟩, -, hask⟩ := bind_ok hask
    obtain ⟨declared, hdeclare, hask⟩ := bind_ok hask
    cases hask
    have hnone : (m.pDecl.map Declarator.dims).getD [] = [] := hdims
    rw [hnone, TypeInfo.declare_nil] at hdeclare
    cases hdeclare
    rfl

theorem AskedAs.sees {code declared : MemberStep}
    (h : AskedAs arch pLP heap s depth declared.member declared.info
      (heldInfo arch pLP heap depth declared.member))
    (hmember : code.member = declared.member)
    (hheld : heldInfo arch pLP heap depth code.member = .ok code.info)
    (hdeclared : declaredInfo .declared arch pLP heap s depth declared.member = some declared.info)
    (hsize : declared.info.size < 4294967296) : code.Sees declared := by
  rw [hmember] at hheld
  have hsame := h.same _ hheld
  refine ⟨hmember, hsame.size_eq hsize, hsame.align, fun hdims => ?_⟩
  rw [heldInfo_item hdims hheld, declaredInfo_item hdims hdeclared, hsame.size_eq hsize]

/-- The steps of the code beside those of the declarations. -/
theorem sees_all {members : List Member} {codeSteps steps : List MemberStep}
    (hcode : Steps (heldInfo arch pLP heap depth) members codeSteps)
    (hmembers : steps.map MemberStep.member = members)
    (hasked : ∀ step ∈ steps, AskedAs arch pLP heap s depth step.member step.info
      (heldInfo arch pLP heap depth step.member))
    (hdeclared : ∀ step ∈ steps,
      declaredInfo .declared arch pLP heap s depth step.member = some step.info)
    (hsizes : ∀ step ∈ steps, step.info.size < 4294967296) :
    List.Forall₂ MemberStep.Sees codeSteps steps := by
  obtain ⟨hmap, hheld⟩ := hcode
  subst hmembers
  induction steps generalizing codeSteps with
  | nil =>
    obtain rfl := List.map_eq_nil_iff.mp hmap
    exact .nil
  | cons step steps ih =>
    obtain ⟨code, codeSteps, rfl, hmember, hmap⟩ := List.map_eq_cons_iff.mp hmap
    rw [List.forall_mem_cons] at hasked hdeclared hsizes hheld
    exact .cons (hasked.1.sees hmember hheld.1 hdeclared.1 hsizes.1)
      (ih hasked.2 hdeclared.2 hsizes.2 hheld.2 hmap)

/-- What the steps of the code have from those of the declarations. -/
theorem map_sees {α : Type} {codeSteps steps : List MemberStep} {g : MemberStep → α}
    (h : List.Forall₂ MemberStep.Sees codeSteps steps)
    (hg : ∀ {code declared : MemberStep}, code.Sees declared → g code = g declared) :
    codeSteps.map g = steps.map g := by
  rw [← List.forall₂_eq_eq_eq, List.forall₂_map_left_iff, List.forall₂_map_right_iff]
  exact h.imp fun _ _ hsees => hg hsees

/-- The members of `s` with their declared type information. -/
structure DeclaredSteps (arch : NativeArch) (pLP : LayoutParam) (heap : Heap) (s depth : ℕ)
    (steps : List MemberStep) : Prop where
  members : steps.map MemberStep.member = (heap.structAt s).members
  declared : ∀ step ∈ steps,
    declaredInfo .declared arch pLP heap s depth step.member = some step.info

section Declared
variable {codeSteps steps : List MemberStep} (h : DeclaredSteps arch pLP heap s depth steps)
  (hoptions : SmallOptions arch pLP) (hsane : heap.Sane pLP)
include h hoptions hsane

theorem DeclaredSteps.asked {step : MemberStep} (hstep : step ∈ steps) :
    AskedAs arch pLP heap s depth step.member step.info
      (heldInfo arch pLP heap depth step.member) :=
  heldInfo_asked hoptions hsane (h.declared step hstep)

theorem DeclaredSteps.known (m : Member) (hm : m ∈ (heap.structAt s).members) :
    ∃ exact, AskedAs arch pLP heap s depth m exact (heldInfo arch pLP heap depth m) := by
  obtain ⟨step, hstep, rfl⟩ := List.mem_map.mp (h.members ▸ hm)
  exact ⟨step.info, h.asked hoptions hsane hstep⟩

/-- The code's information about a member, as far as the layout has asked for it. -/
theorem DeclaredSteps.same
    (hcode : Steps (heldInfo arch pLP heap depth) (heap.structAt s).members codeSteps)
    {step : MemberStep} (hstep : step ∈ steps) :
    ∃ info, heldInfo arch pLP heap depth step.member = .ok info ∧ SameInfo info step.info := by
  have hmem : step.member ∈ codeSteps.map MemberStep.member :=
    hcode.1 ▸ h.members ▸ List.mem_map_of_mem hstep
  obtain ⟨code, hmem, hmember⟩ := List.mem_map.mp hmem
  have hheld := hcode.2 code hmem
  rw [hmember] at hheld
  exact ⟨code.info, hheld, (h.asked hoptions hsane hstep).same _ hheld⟩

/-- The layout can ask for the members if and only if their products are longs. -/
theorem DeclaredSteps.long_iff :
    (∃ codeSteps, Steps (heldInfo arch pLP heap depth) (heap.structAt s).members codeSteps) ↔
      ∀ step ∈ steps, step.member.LongProducts arch pLP heap s depth := by
  constructor
  · rintro ⟨codeSteps, hcode⟩ step hstep
    obtain ⟨info, hheld, -⟩ := h.same hoptions hsane hcode hstep
    have hlong := (h.asked hoptions hsane hstep).long.mp ⟨info, hheld⟩
    exact Option.isSome_iff_exists.mpr ⟨_, hlong⟩
  · intro hlong
    apply exists_steps
    intro m hm
    obtain ⟨step, hstep, rfl⟩ := List.mem_map.mp (h.members ▸ hm)
    obtain ⟨info, hinfo⟩ := Option.isSome_iff_exists.mp (hlong step hstep)
    have hsame := (declaredInfo_of_coded hinfo).symm.trans (h.declared step hstep)
    exact (h.asked hoptions hsane hstep).long.mpr (hinfo.trans hsame)

/-- If the sizes fit, the code sees the members as they are declared. -/
theorem DeclaredSteps.sees
    (hcode : Steps (heldInfo arch pLP heap depth) (heap.structAt s).members codeSteps)
    (hsizes : ∀ step ∈ steps, step.info.size < 4294967296) :
    List.Forall₂ MemberStep.Sees codeSteps steps :=
  sees_all hcode h.members (fun _ hstep => h.asked hoptions hsane hstep) h.declared hsizes

/-- All sizes that the code asks for are unsigned. -/
theorem DeclaredSteps.size_lt
    (hcode : Steps (heldInfo arch pLP heap depth) (heap.structAt s).members codeSteps)
    {code : MemberStep} (hmem : code ∈ codeSteps) :
    (0 ≤ code.info.size ∧ code.info.size < 4294967296) ∧ Small code.info.align := by
  obtain ⟨exact, hm⟩ := h.known hoptions hsane code.member (hcode.1 ▸ List.mem_map_of_mem hmem)
  have hsame := hm.same _ (hcode.2 code hmem)
  refine ⟨⟨hsame.nonneg, hsame.lt⟩, ?_⟩
  rw [hsame.align]
  exact ⟨hsame.align_pos, hsame.align_lt⟩

end Declared

end Held

section Rule
variable {arch : NativeArch} {pLP : LayoutParam} {heap : Heap} {s depth : ℕ} {alignment : ℤ}

/-- Basic types and enums, also behind typedefs. -/
inductive ScalarType (heap : Heap) : TypeSpec → Prop
  | basic (tflags : TFlags) : ScalarType heap (.basic tflags)
  | enum (pES : ℕ) : ScalarType heap (.enum pES)
  | typedef (t : ℕ) : ScalarType heap (heap.typedefAt t).type →
    (heap.typedefAt t).decl.dims = [] → ScalarType heap (.typedef t)

/-- The alignment of a scalar type is its size. -/
theorem ScalarType.declared {rule : ExactRule} {type : TypeSpec} (h : ScalarType heap type)
    {pDecl : Option Declarator} {info : TypeInfo} (hdims : Member.dims ⟨type, pDecl⟩ = [])
    (hinfo : declaredInfo rule arch pLP heap s depth ⟨type, pDecl⟩ = some info) :
    info.align = info.size := by
  induction h generalizing depth pDecl info with
  | basic tflags =>
    obtain ⟨below, base, hbase, hdeclare⟩ := declaredInfo_base hinfo
    obtain ⟨-, -, rfl⟩ := exactDeclare_ok hdeclare
    rw [hdims]
    unfold DeclaredBase at hbase
    split_ifs at hbase
    · exact hbase ▸ (mul_one _).symm
    · exact hbase ▸ (mul_one _).symm
  | enum pES =>
    obtain ⟨below, base, hbase, hdeclare⟩ := declaredInfo_base hinfo
    obtain ⟨-, -, rfl⟩ := exactDeclare_ok hdeclare
    rw [hdims]
    unfold DeclaredBase at hbase
    split_ifs at hbase
    · exact hbase ▸ (mul_one _).symm
    · exact hbase ▸ (mul_one _).symm
  | typedef t _ htd ih =>
    obtain ⟨below, base, hbase, hdeclare⟩ := declaredInfo_base hinfo
    obtain ⟨-, -, rfl⟩ := exactDeclare_ok hdeclare
    rw [hdims]
    unfold DeclaredBase at hbase
    split_ifs at hbase
    · exact hbase ▸ (mul_one _).symm
    · have hinner : Member.dims ⟨(heap.typedefAt t).type, some (heap.typedefAt t).decl⟩ = [] := htd
      exact (ih hinner hbase).trans (mul_one _).symm

/-- The members that the rule is about: bit-fields of integral types and enums that are no
wider than these, and any ordinary members. -/
def MemberStep.Covered (heap : Heap) (alignment : ℤ) (step : MemberStep) : Prop :=
  match step.member.pDecl.map Declarator.ext with
  | some (.bitfield bit) => ScalarType heap step.member.type ∧ step.info.item_size ≤ 8 ∧
      step.info.item_size ≤ alignment ∧ 0 ≤ bit.bits ∧ bit.bits ≤ 8 * step.info.item_size
  | _ => True

theorem MemberStep.Covered.regular {step : MemberStep} (h : step.Covered heap alignment)
    (hdeclared : declaredInfo .declared arch pLP heap s depth step.member = some step.info)
    (hsize : 0 ≤ step.info.size) (halign : 0 < step.info.align) : step.Regular alignment := by
  obtain ⟨⟨type, pDecl⟩, info⟩ := step
  unfold Covered at h
  unfold Regular
  dsimp only at h hdeclared hsize halign ⊢
  cases hext : pDecl.map Declarator.ext with
  | none => exact ⟨hsize, halign⟩
  | some ext =>
    rw [hext] at h
    cases ext with
    | plain => exact ⟨hsize, halign⟩
    | array dims => exact ⟨hsize, halign⟩
    | bitfield bit =>
      obtain ⟨hscalar, hrest⟩ := h
      obtain ⟨decl, rfl, hdecl⟩ := Option.map_eq_some_iff.mp hext
      have hdims : Member.dims ⟨type, some decl⟩ = [] := by
        simp only [Member.dims, Option.map_some, Option.getD_some, Declarator.dims, hdecl]
      have hitem := declaredInfo_item hdims hdeclared
      have hscale := hscalar.declared hdims hdeclared
      exact ⟨hscale.trans hitem.symm, by rw [hitem, ← hscale]; exact halign, hrest⟩

theorem MemberStep.dims_of_bitfield {step : MemberStep} {bit : BitfieldInfo}
    (h : step.member.pDecl.map Declarator.ext = some (.bitfield bit)) : step.member.dims = [] := by
  obtain ⟨decl, hdecl, hext⟩ := Option.map_eq_some_iff.mp h
  rw [Member.dims, hdecl, Option.map_some, Option.getD_some, Declarator.dims, hext]

theorem MemberStep.Sees.item {code declared : MemberStep} (h : code.Sees declared) :
    code.item alignment = declared.item alignment := by
  unfold MemberStep.item
  rw [h.member, h.size, h.align]
  split
  · rename_i bit hext
    rw [h.item_size (MemberStep.dims_of_bitfield hext)]
  · rfl

theorem MemberStep.Sees.startFits {code declared : MemberStep} (h : code.Sees declared) :
    code.StartFits = declared.StartFits := by
  funext start
  unfold MemberStep.StartFits
  rw [h.member]
  split
  · rename_i bit hext
    rw [h.item_size (MemberStep.dims_of_bitfield hext)]
  · rfl
  · rfl

theorem MemberStep.Sees.regular {code declared : MemberStep} (h : code.Sees declared) :
    code.Regular alignment = declared.Regular alignment := by
  unfold MemberStep.Regular
  rw [h.member, h.size, h.align]
  split
  · rename_i bit hext
    rw [h.item_size (MemberStep.dims_of_bitfield hext)]
  · rfl

/-- The struct is laid out as the counter of bits says. -/
structure Struct.FollowsCounter (alignment compoundAlignment : ℤ) (steps : List MemberStep)
    (pStruct : Struct) : Prop where
  starts : List.Forall₂ Placed.StartsAt pStruct.placed
    (starts 0 (steps.map (MemberStep.item alignment)))
  align : pStruct.align = alignAll alignment (min alignment compoundAlignment) steps
  size : pStruct.size =
    roundUp (byteCeil (stopAll 0 (steps.map (MemberStep.item alignment)))) pStruct.align

/-- The products that are formed are longs, and the offsets that are recorded and the size fit
their fields. -/
structure CounterFits (arch : NativeArch) (pLP : LayoutParam) (heap : Heap) (s depth : ℕ)
    (alignment compoundAlignment : ℤ) (steps : List MemberStep) : Prop where
  products : ∀ step ∈ steps, step.member.LongProducts arch pLP heap s depth
  starts : List.Forall₂ MemberStep.StartFits steps
    (starts 0 (steps.map (MemberStep.item alignment)))
  size : roundUp (byteCeil (stopAll 0 (steps.map (MemberStep.item alignment))))
    (alignAll alignment (min alignment compoundAlignment) steps) < 4294967296

theorem alignAll_pos (alignment : ℤ) {a : ℤ} (ha : 0 < a) (steps : List MemberStep) :
    0 < alignAll alignment a steps := by
  unfold alignAll
  generalize steps.map (fun step => min step.info.align alignment) = l
  induction l generalizing a with
  | nil => exact ha
  | cons b l ih => exact ih (lt_max_of_lt_left ha)

theorem memberStep_size_lt {kind : CompoundKind} {f f' : Frame} {step : MemberStep}
    {placed : Placed} (hinfo : step.info.size < 4294967296) (hf : f.size < 4294967296)
    (h : memberStep kind alignment f step = .ok (f', placed)) : f'.size < 4294967296 := by
  unfold memberStep at h
  cases hdecl : step.member.pDecl with
  | none =>
    rw [hdecl] at h
    obtain ⟨⟨pos, f₁⟩, hplace, h⟩ := bind_ok h
    cases h
    have hnoted : (noteFlags (finishOpenBitfield f) step.info false).size < 4294967296 :=
      finishOpenBitfield_lt hf
    exact placeMember_lt hnoted hinfo hplace
  | some pDecl =>
    rw [hdecl] at h
    obtain ⟨⟨⟨f₁, o⟩, d⟩, hlayout, h⟩ := bind_ok h
    cases h
    exact (layoutDeclarator_below hf hinfo (by decide) hlayout).1

theorem paddedSize_lt {size align : ℤ} (hsize : size < 4294967296) :
    paddedSize size align < 4294967296 := by
  unfold paddedSize
  split_ifs
  · exact u32_lt _
  · exact hsize

/-- Whatever is laid out has a size that is an unsigned. -/
theorem run_size_lt {kind : CompoundKind} {f f' : Frame} {steps : List MemberStep}
    {placed : List Placed} (hinfo : ∀ step ∈ steps, step.info.size < 4294967296)
    (hf : f.size < 4294967296)
    (h : mapAccumM (memberStep kind alignment) f steps = .ok (f', placed)) :
    paddedSize (finishOpenBitfield f').size (finishOpenBitfield f').align < 4294967296 :=
  paddedSize_lt (finishOpenBitfield_lt (mapAccumM_invariant
    (fun step hstep _ _ _ hb hok => memberStep_size_lt (hinfo step hstep) hb hok) hf h))

/-- The layout by the steps of the code, if the size fits. -/
theorem layoutCompound_counter {bl : BitfieldLayouter} {members : List Member}
    {steps : List MemberStep} (hoptions : SmallOptions arch pLP) (hsane : heap.Sane pLP)
    (hkind : (heap.structAt s).kind = .struct) (hbody : (heap.structAt s).declarations.isSome)
    (hfresh : (heap.structAt s).size = 0) (hbl : ∃ u, bl.blc = .generic u)
    (horder : pLP.byte_order = .littleEndian) (hmembers : members = (heap.structAt s).members)
    (hasked : ∀ m ∈ members, ∃ exact,
      AskedAs arch pLP heap s depth m exact (heldInfo arch pLP heap depth m))
    (hsteps : Steps (heldInfo arch pLP heap depth) members steps)
    (hregular : ∀ step ∈ steps, step.Regular (structAlignment arch pLP (heap.structAt s)))
    (hsize : roundUp (byteCeil (stopAll 0 (steps.map
        (MemberStep.item (structAlignment arch pLP (heap.structAt s))))))
      (alignAll (structAlignment arch pLP (heap.structAt s))
        (min (structAlignment arch pLP (heap.structAt s)) (layoutCompoundAlignment arch pLP))
        steps) < 4294967296) :
    ∃ st, layoutCompound arch pLP (depth + 1) ⟨heap, bl⟩ s = .ok st ∧
      ((st.heap.structAt s).FollowsCounter (structAlignment arch pLP (heap.structAt s))
          (layoutCompoundAlignment arch pLP) steps ↔
        List.Forall₂ MemberStep.StartFits steps (starts 0 (steps.map
          (MemberStep.item (structAlignment arch pLP (heap.structAt s)))))) := by
  have hA := structAlignment_small hoptions hsane s
  have hcompound := hoptions.compound_alignment
  have hrunOk := @layoutCompound_of_run arch pLP heap s depth bl members steps
  generalize halignment : structAlignment arch pLP (heap.structAt s) = alignment at *
  have hleast : Small (min alignment (layoutCompoundAlignment arch pLP)) :=
    ⟨lt_min hA.1 hcompound.1, (min_le_left _ _).trans_lt hA.2⟩
  have hinit : FrameAt alignment 0 (min alignment (layoutCompoundAlignment arch pLP))
      (initialFrame arch pLP bl (heap.structAt s)) := by
    obtain ⟨u, hu⟩ := hbl
    have halignInit : (initialFrame arch pLP bl (heap.structAt s)).align =
        min alignment (layoutCompoundAlignment arch pLP) := by
      have hmin : (if alignment < layoutCompoundAlignment arch pLP then alignment
          else layoutCompoundAlignment arch pLP) = min alignment (layoutCompoundAlignment arch pLP) := by
        split_ifs <;> omega
      simp only [initialFrame, halignment, hmin]
      exact u16_of_lt hleast.1.le hleast.2
    refine ⟨⟨u, hu, fun h => absurd h Bool.noConfusion⟩, fun _ => ⟨?_, halignInit⟩, horder,
      halignment, le_rfl, by decide, hleast.1, hleast.2⟩
    show 8 * (heap.structAt s).size = 0
    rw [hfresh, mul_zero]
  have hpos := alignAll_pos alignment hleast.1 steps
  have hproper (item : Item) (hitem : item ∈ steps.map (MemberStep.item alignment)) :
      item.Proper := by
    obtain ⟨step, hstep, rfl⟩ := List.mem_map.mp hitem
    exact (hregular step hstep).proper hA.1
  have hstop : stopAll 0 (steps.map (MemberStep.item alignment)) ≤ 34359738360 := by
    have hle := (roundUp_isLeast (byteCeil (stopAll 0 (steps.map (MemberStep.item alignment))))
      hpos).1.1
    unfold byteCeil at hle hsize
    omega
  have hnonneg : 0 ≤ byteCeil (stopAll 0 (steps.map (MemberStep.item alignment))) := by
    have hle := le_stopAll hproper 0
    unfold byteCeil
    omega
  obtain ⟨f, placed, hrun, hat, hplaced⟩ := hinit.run hA.1 hA.2 hregular hstop
  obtain ⟨hend, hclosed⟩ := hat.finishOpen
  obtain ⟨hbytes, halign⟩ := hend.closed hclosed
  obtain ⟨st, hok, hmem, hstructAlign, hstructSize⟩ := hrunOk hbody hmembers hasked hsteps
    (by rw [hkind]; exact hrun) (by rw [halign]; exact hpos.ne')
  refine ⟨st, hok, ?_⟩
  rw [← hplaced]
  constructor
  · intro hfollows
    rw [← hmem]
    exact hfollows.starts
  · intro hstarts
    rw [← hmem] at hstarts
    refine ⟨hstarts, hstructAlign.trans halign, ?_⟩
    have hsame : (finishOpenBitfield f).size =
        byteCeil (stopAll 0 (steps.map (MemberStep.item alignment))) := by omega
    rw [hstructSize, hstructAlign, halign, hsame]
    exact paddedSize_eq_roundUp hnonneg hsize hpos

/-- What the rule makes of the steps of the code is what it makes of the declared ones. -/
theorem followsCounter_congr {codeSteps steps : List MemberStep} {compoundAlignment : ℤ}
    {pStruct : Struct} (h : List.Forall₂ MemberStep.Sees codeSteps steps) :
    pStruct.FollowsCounter alignment compoundAlignment codeSteps ↔
      pStruct.FollowsCounter alignment compoundAlignment steps := by
  have hitems : codeSteps.map (MemberStep.item alignment) = steps.map (MemberStep.item alignment) :=
    map_sees h MemberStep.Sees.item
  have haligns : alignAll alignment (min alignment compoundAlignment) codeSteps =
      alignAll alignment (min alignment compoundAlignment) steps := by
    unfold alignAll
    rw [map_sees h fun {code declared} hsees => by rw [hsees.align]]
  constructor
  · rintro ⟨hstarts, halign, hsize⟩
    exact ⟨hitems ▸ hstarts, haligns ▸ halign, hitems ▸ hsize⟩
  · rintro ⟨hstarts, halign, hsize⟩
    exact ⟨hitems ▸ hstarts, haligns ▸ halign, hitems ▸ hsize⟩

/-- A struct whose size fits has only members whose sizes do. -/
theorem declared_size_lt {steps : List MemberStep} (hA : 0 < alignment)
    (hregular : ∀ step ∈ steps, step.Regular alignment)
    (hdeclared : ∀ step ∈ steps,
      declaredInfo .declared arch pLP heap s depth step.member = some step.info)
    (hstop : byteCeil (stopAll 0 (steps.map (MemberStep.item alignment))) < 4294967296)
    {step : MemberStep} (hstep : step ∈ steps) : step.info.size < 4294967296 := by
  have hproper (item : Item) (hitem : item ∈ steps.map (MemberStep.item alignment)) :
      item.Proper := by
    obtain ⟨step, hstep, rfl⟩ := List.mem_map.mp hitem
    exact (hregular step hstep).proper hA
  have hbit := hregular step hstep
  have hmem : step.item alignment ∈ steps.map (MemberStep.item alignment) :=
    List.mem_map_of_mem hstep
  unfold MemberStep.Regular at hbit
  unfold MemberStep.item at hmem
  split at hmem
  · rename_i bit hext
    rw [hext] at hbit
    have hitem := declaredInfo_item (MemberStep.dims_of_bitfield hext) (hdeclared step hstep)
    have hsmall := hbit.2.2.1
    omega
  · have hle := size_le_stopAll hproper le_rfl hmem
    unfold byteCeil at hstop
    omega

section Layout
variable {bl : BitfieldLayouter} {steps : List MemberStep}
  (hoptions : SmallOptions arch pLP) (hsane : heap.Sane pLP)
  (hkind : (heap.structAt s).kind = .struct) (hbody : (heap.structAt s).declarations.isSome)
  (hfresh : (heap.structAt s).size = 0) (hbl : ∃ u, bl.blc = .generic u)
  (horder : pLP.byte_order = .littleEndian)
  (hsteps : DeclaredSteps arch pLP heap s depth steps)
  (hcovered : ∀ step ∈ steps, step.Covered heap (structAlignment arch pLP (heap.structAt s)))
include hoptions hsane hkind hbody hfresh hbl horder hsteps hcovered

/-- The layout of a struct whose size fits, if the code can form the products. -/
theorem layoutCompound_declared {codeSteps : List MemberStep}
    (hcode : Steps (heldInfo arch pLP heap depth) (heap.structAt s).members codeSteps)
    (hsize : roundUp (byteCeil (stopAll 0 (steps.map
        (MemberStep.item (structAlignment arch pLP (heap.structAt s))))))
      (alignAll (structAlignment arch pLP (heap.structAt s))
        (min (structAlignment arch pLP (heap.structAt s)) (layoutCompoundAlignment arch pLP))
        steps) < 4294967296) :
    ∃ st, layoutCompound arch pLP (depth + 1) ⟨heap, bl⟩ s = .ok st ∧
      ((st.heap.structAt s).FollowsCounter (structAlignment arch pLP (heap.structAt s))
          (layoutCompoundAlignment arch pLP) steps ↔
        List.Forall₂ MemberStep.StartFits steps (starts 0 (steps.map
          (MemberStep.item (structAlignment arch pLP (heap.structAt s)))))) := by
  have hA := structAlignment_small hoptions hsane s
  have hcompound := hoptions.compound_alignment
  have hcounter := @layoutCompound_counter arch pLP heap s depth bl (heap.structAt s).members
    codeSteps hoptions hsane hkind hbody hfresh hbl horder rfl
  generalize structAlignment arch pLP (heap.structAt s) = alignment at *
  have hregular (step : MemberStep) (hstep : step ∈ steps) : step.Regular alignment := by
    obtain ⟨info, -, hsame⟩ := hsteps.same hoptions hsane hcode hstep
    exact (hcovered step hstep).regular (hsteps.declared step hstep) hsame.exact_nonneg
      hsame.align_pos
  have hpos := alignAll_pos alignment
    (lt_min hA.1 hcompound.1) steps
  have hstop := (roundUp_isLeast (byteCeil (stopAll 0 (steps.map (MemberStep.item alignment))))
    hpos).1.1.trans_lt hsize
  have hsees := hsteps.sees hoptions hsane hcode
    (fun step hstep => declared_size_lt hA.1 hregular hsteps.declared hstop hstep)
  have hitems : codeSteps.map (MemberStep.item alignment) = steps.map (MemberStep.item alignment) :=
    map_sees hsees MemberStep.Sees.item
  have haligns : alignAll alignment (min alignment (layoutCompoundAlignment arch pLP)) codeSteps =
      alignAll alignment (min alignment (layoutCompoundAlignment arch pLP)) steps := by
    unfold alignAll
    rw [map_sees hsees fun {code declared} hsees => by rw [hsees.align]]
  obtain ⟨st, hok, hfollows⟩ := hcounter (hsteps.known hoptions hsane) hcode
    (fun code hmem => by
      have hmem : code.Regular alignment ∈ steps.map (MemberStep.Regular alignment) :=
        map_sees hsees MemberStep.Sees.regular ▸ List.mem_map_of_mem hmem
      obtain ⟨step, hstep, hsame⟩ := List.mem_map.mp hmem
      exact hsame ▸ hregular step hstep)
    (by rw [hitems, haligns]; exact hsize)
  refine ⟨st, hok, ?_⟩
  rw [← followsCounter_congr hsees, hfollows, hitems, ← List.forall₂_map_left_iff (f := MemberStep.StartFits)
    (R := fun fits start => fits start), map_sees hsees MemberStep.Sees.startFits,
    List.forall₂_map_left_iff]

/-- The Generic class with the little-endian order: the members of a struct start where the
counter of bits says, and the struct ends after the last one, if and only if all numbers fit
their fields. -/
theorem layoutCompound_follows_iff :
    (∃ st, layoutCompound arch pLP (depth + 1) ⟨heap, bl⟩ s = .ok st ∧
      (st.heap.structAt s).FollowsCounter (structAlignment arch pLP (heap.structAt s))
        (layoutCompoundAlignment arch pLP) steps) ↔
      CounterFits arch pLP heap s depth (structAlignment arch pLP (heap.structAt s))
        (layoutCompoundAlignment arch pLP) steps := by
  have hlaid {codeSteps : List MemberStep} := @layoutCompound_declared arch pLP heap s depth bl
    steps hoptions hsane hkind hbody hfresh hbl horder hsteps hcovered codeSteps
  constructor
  · rintro ⟨st, hok, hfollows⟩
    obtain ⟨codeSteps, f, placed, hcode, hrun, hend⟩ :=
      layoutCompound_run hbody rfl (hsteps.known hoptions hsane) hok
    have hlt : (st.heap.structAt s).size < 4294967296 := by
      rw [hend]
      apply run_size_lt (fun code hmem => (hsteps.size_lt hoptions hsane hcode hmem).1.2) _ hrun
      show (heap.structAt s).size < 4294967296
      omega
    have hsize := hfollows.size ▸ hlt
    rw [hfollows.align] at hsize
    obtain ⟨st', hok', hiff⟩ := hlaid hcode hsize
    rw [hok] at hok'
    cases hok'
    exact ⟨(hsteps.long_iff hoptions hsane).mp ⟨codeSteps, hcode⟩, hiff.mp hfollows, hsize⟩
  · rintro ⟨hproducts, hstarts, hsize⟩
    obtain ⟨codeSteps, hcode⟩ := (hsteps.long_iff hoptions hsane).mpr hproducts
    obtain ⟨st, hok, hiff⟩ := hlaid hcode hsize
    exact ⟨st, hok, hiff.mpr hstarts⟩

end Layout

end Rule

/-- `struct { char c; short a : 9; int b : 20; int : 0; char d; }` -/
def mixedBits : Struct :=
  structOf "mixed" [declaration (.basic T_CHAR) [declNew "c"],
    declaration (.basic T_SHORT) [bitfieldDecl "a" 9],
    declaration (.basic T_INT) [bitfieldDecl "b" 20, bitfieldDecl "" 0],
    declaration (.basic T_CHAR) [declNew "d"]]

/-- The members of `mixedBits` with what is known about their types. -/
def mixedSteps : List MemberStep :=
  [⟨⟨.basic T_CHAR, some (declNew "c")⟩, ⟨1, 1, 1, false, false, false⟩⟩,
    ⟨⟨.basic T_SHORT, some (bitfieldDecl "a" 9)⟩, ⟨2, 2, 2, false, false, false⟩⟩,
    ⟨⟨.basic T_INT, some (bitfieldDecl "b" 20)⟩, ⟨4, 4, 4, false, false, false⟩⟩,
    ⟨⟨.basic T_INT, some (bitfieldDecl "" 0)⟩, ⟨4, 4, 4, false, false, false⟩⟩,
    ⟨⟨.basic T_CHAR, some (declNew "d")⟩, ⟨1, 1, 1, false, false, false⟩⟩]

theorem mixedSteps_declared (step : MemberStep) (h : step ∈ mixedSteps) :
    declaredInfo .declared lp64 alignment4 (singleHeap mixedBits) 0 1 step.member =
      some step.info ∧ step.Covered (singleHeap mixedBits) 4 := by
  simp only [mixedSteps, List.mem_cons, List.not_mem_nil, or_false] at h
  rcases h with rfl | rfl | rfl | rfl | rfl
  · exact ⟨by decide, trivial⟩
  · exact ⟨by decide, .basic _, by decide⟩
  · exact ⟨by decide, .basic _, by decide⟩
  · exact ⟨by decide, .basic _, by decide⟩
  · exact ⟨by decide, trivial⟩

theorem mixedBits_follows_iff :
    (∃ st, layoutCompound lp64 alignment4 2 ⟨singleHeap mixedBits, blCreateGeneric⟩ 0 = .ok st ∧
      (st.heap.structAt 0).FollowsCounter 4 1 mixedSteps) ↔
      CounterFits lp64 alignment4 (singleHeap mixedBits) 0 1 4 1 mixedSteps :=
  @layoutCompound_follows_iff lp64 alignment4 (singleHeap mixedBits) 0 1 blCreateGeneric mixedSteps
    smallOptions_lp64 (singleHeap_sane rfl rfl rfl) rfl rfl rfl ⟨_, rfl⟩ rfl
    ⟨rfl, fun step h => (mixedSteps_declared step h).1⟩ (fun step h => (mixedSteps_declared step h).2)

/-- `struct { char c[268435456]; int b : 1; }` -/
def farBits : Struct :=
  structOf "far" [declaration (.basic T_CHAR)
      [{ declNew "c" with ext := .array [⟨268435456, false, false⟩] }],
    declaration (.basic T_INT) [bitfieldDecl "b" 1]]

def farSteps : List MemberStep :=
  [⟨⟨.basic T_CHAR, some { declNew "c" with ext := .array [⟨268435456, false, false⟩] }⟩,
      ⟨268435456, 1, 1, false, false, false⟩⟩,
    ⟨⟨.basic T_INT, some (bitfieldDecl "b" 1)⟩, ⟨4, 4, 4, false, false, false⟩⟩]

/-- The offset of a declarator has 29 bits with the sign, so a bit-field at byte 2^28 is
recorded at a negative one. -/
theorem farBits_off_rule :
    DeclaredSteps lp64 alignment4 (singleHeap farBits) 0 1 farSteps ∧
      (∀ step ∈ farSteps, step.Covered (singleHeap farBits) 4) ∧
      ∃ st, layoutCompound lp64 alignment4 2 ⟨singleHeap farBits, blCreateGeneric⟩ 0 = .ok st ∧
        ¬(st.heap.structAt 0).FollowsCounter 4 1 farSteps := by
  refine ⟨⟨rfl, ?_⟩, ?_, ?_⟩
  · intro step h
    simp only [farSteps, List.mem_cons, List.not_mem_nil, or_false] at h
    rcases h with rfl | rfl
    · decide
    · decide
  · intro step h
    simp only [farSteps, List.mem_cons, List.not_mem_nil, or_false] at h
    rcases h with rfl | rfl
    · exact trivial
    · exact ⟨.basic _, by decide⟩
  · have hplaced : (layoutCompound lp64 alignment4 2 ⟨singleHeap farBits, blCreateGeneric⟩
        0).toOption.map (fun st => (st.heap.structAt 0).placed.drop 1) =
        some [bitfieldAt "b" (-268435456) 1 1 0] := by
      decide +kernel
    cases hst : layoutCompound lp64 alignment4 2 ⟨singleHeap farBits, blCreateGeneric⟩ 0 with
    | error e =>
      rw [hst] at hplaced
      cases hplaced
    | ok st =>
      rw [hst] at hplaced
      refine ⟨st, rfl, fun h => ?_⟩
      have hdrop := List.forall₂_drop 1 h.starts
      have hlist : (st.heap.structAt 0).placed.drop 1 = _ := Option.some.inj hplaced
      rw [hlist] at hdrop
      have hstarts : (starts 0 (farSteps.map (MemberStep.item 4))).drop 1 = [2147483648] := by
        decide
      rw [hstarts] at hdrop
      cases hdrop with
      | cons hat _ => exact absurd (hat one_ne_zero) (by decide)

end ConvertBinaryC
