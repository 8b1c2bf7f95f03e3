import ConvertBinaryC.CTLibLayoutReference

/-! The layout of one compound as a run over its members, each with its type
information: the bookkeeping for each declaration is left out, and what is recorded
for each member is kept. -/
namespace ConvertBinaryC
open FoldRules

/-- What the layout records for a member: its declarator, or the offset and the size
of the declaration of an unnamed one. -/
inductive Placed where
  | declarator (pDecl : Declarator)
  | unnamed (offset size : ℤ)
  deriving DecidableEq, Repr

def StructDeclaration.placed (pStructDecl : StructDeclaration) : List Placed :=
  match pStructDecl.declarators with
  | none => [.unnamed pStructDecl.offset pStructDecl.size]
  | some declarators => declarators.map .declarator

/-- The members of a compound in the order in which they are laid out. -/
def Struct.placed (pStruct : Struct) : List Placed :=
  (pStruct.declarations.getD []).flatMap StructDeclaration.placed

/-- A member with its type information. -/
structure MemberStep where
  member : Member
  info : TypeInfo

section Run
variable (kind : CompoundKind) (alignment : ℤ)

def startOffset : ℤ :=
  match kind with
  | .struct => -1
  | .union => 0

/-- The offset of a declaration whose only member is at `pos`. -/
def declarationOffset (pos size : ℤ) : ℤ :=
  let offset := if startOffset kind < 0 then i32 pos else startOffset kind
  if offset < 0 then i32 size else offset

theorem declarationOffset_struct {pos size : ℤ} (h0 : 0 ≤ pos) (h : pos < 2147483648) :
    declarationOffset .struct pos size = pos := by
  have hunfold : declarationOffset .struct pos size =
      if i32 pos < 0 then i32 size else i32 pos := rfl
  rw [hunfold, i32_of_lt (by omega) h, if_neg (by omega)]

theorem declarationOffset_lt (pos size : ℤ) : declarationOffset kind pos size < 2147483648 := by
  have hpos := i32_lt pos
  have hsize := i32_lt size
  unfold declarationOffset startOffset
  cases kind <;> dsimp only <;> split_ifs <;> omega

def memberStep (f : Frame) (step : MemberStep) : Call (Frame × Placed) :=
  match step.member.pDecl with
  | some pDecl => do
    let ((f, _), pDecl) ← layoutDeclarator kind alignment step.info f 0 pDecl
    .ok (f, .declarator pDecl)
  | none => do
    let (pos, f) ← placeMember kind alignment step.info
      (noteFlags (finishOpenBitfield f) step.info false)
    let offset := declarationOffset kind pos f.size
    .ok (f, .unnamed offset (i32 (f.size - offset)))

variable {kind alignment}

/-- The offset of the declaration has no influence on its declarators. -/
theorem layoutDeclarator_offset {info : TypeInfo} {f f' : Frame} {offset offset' : ℤ}
    {pDecl pDecl' : Declarator} (offset₁ : ℤ)
    (h : layoutDeclarator kind alignment info f offset pDecl = .ok ((f', offset'), pDecl')) :
    ∃ o, layoutDeclarator kind alignment info f offset₁ pDecl = .ok ((f', o), pDecl') := by
  unfold layoutDeclarator at h ⊢
  dsimp only at h ⊢
  split at h
  · obtain ⟨⟨f₁, d⟩, hpush, h⟩ := bind_ok h
    cases h
    exact ⟨offset₁, by rw [hpush]; rfl⟩
  · obtain ⟨⟨pos, f₁⟩, hplace, h⟩ := bind_ok h
    cases h
    exact ⟨_, by rw [hplace]; rfl⟩

theorem Declarator.isBitfield_iff {pDecl : Declarator} :
    pDecl.isBitfield = true ↔ ∃ bit, pDecl.ext = .bitfield bit := by
  unfold Declarator.isBitfield
  cases pDecl.ext <;> simp

theorem finishOpenBitfield_noteFlags (f : Frame) (info : TypeInfo) (b : Bool) :
    finishOpenBitfield (noteFlags f info b) = noteFlags (finishOpenBitfield f) info b := by
  obtain ⟨_, _, _, _, _, in_bitfield⟩ := f
  cases in_bitfield <;> rfl

/-- A declarator that is no bit-field closes the open run. -/
theorem layoutDeclarator_ordinary {info : TypeInfo} {f : Frame} {offset : ℤ} {pDecl : Declarator}
    (h : pDecl.isBitfield = false) :
    layoutDeclarator kind alignment info f offset pDecl =
      placeMember kind alignment info (finishOpenBitfield (noteFlags f info false)) >>= fun r =>
        .ok ((r.2, if offset < 0 then i32 r.1 else offset), { pDecl with
          offset := s29 r.1, size := i32 info.size, item_size := i32 info.item_size }) := by
  obtain ⟨_, _, _, _, _, ext, _⟩ := pDecl
  cases ext with
  | plain => rfl
  | array dims => rfl
  | bitfield bit => exact nomatch h

/-- All that a step can do: push a bit-field, or close the open run and place an
ordinary member. -/
theorem memberStep_ok {f f' : Frame} {step : MemberStep} {placed : Placed}
    (h : memberStep kind alignment f step = .ok (f', placed)) :
    (∃ pDecl bit pDecl', step.member.pDecl = some pDecl ∧ pDecl.ext = .bitfield bit ∧
      pushBitfield kind step.info (noteFlags f step.info true) pDecl bit = .ok (f', pDecl') ∧
      placed = .declarator pDecl') ∨
    (step.member.isBitfield = false ∧ ∃ pos,
      placeMember kind alignment step.info (noteFlags (finishOpenBitfield f) step.info false) =
        .ok (pos, f') ∧
      ((∃ pDecl, step.member.pDecl = some pDecl ∧ placed = .declarator { pDecl with
          offset := s29 pos, size := i32 step.info.size, item_size := i32 step.info.item_size }) ∨
        (step.member.pDecl = none ∧
          placed = .unnamed (declarationOffset kind pos f'.size)
            (i32 (f'.size - declarationOffset kind pos f'.size))))) := by
  unfold memberStep at h
  cases hdecl : step.member.pDecl with
  | none =>
    right
    rw [hdecl] at h
    obtain ⟨⟨pos, f₁⟩, hplace, h⟩ := bind_ok h
    cases h
    refine ⟨by rw [Member.isBitfield, hdecl]; rfl, pos, hplace, Or.inr ⟨rfl, rfl⟩⟩
  | some pDecl =>
    rw [hdecl] at h
    obtain ⟨⟨⟨f₁, o⟩, d⟩, hlayout, h⟩ := bind_ok h
    cases h
    by_cases hbit : pDecl.isBitfield = true
    · left
      obtain ⟨bit, hext⟩ := Declarator.isBitfield_iff.mp hbit
      simp only [layoutDeclarator, hbit, hext] at hlayout
      obtain ⟨⟨f₂, d₂⟩, hpush, hlayout⟩ := bind_ok hlayout
      cases hlayout
      exact ⟨pDecl, bit, _, rfl, hext, hpush, rfl⟩
    · right
      rw [Bool.not_eq_true] at hbit
      refine ⟨by rw [Member.isBitfield, hdecl]; exact hbit, ?_⟩
      rw [layoutDeclarator_ordinary hbit] at hlayout
      obtain ⟨⟨pos, f₂⟩, hplace, hlayout⟩ := bind_ok hlayout
      cases hlayout
      rw [finishOpenBitfield_noteFlags] at hplace
      exact ⟨pos, hplace, Or.inl ⟨pDecl, rfl, rfl⟩⟩

/-- The steps of a run ask what the layout asks. -/
def Steps (info : Member → Call TypeInfo) (members : List Member) (steps : List MemberStep) :
    Prop :=
  steps.map MemberStep.member = members ∧ ∀ step ∈ steps, info step.member = .ok step.info

theorem Steps.append {info : Member → Call TypeInfo} {ms ms' : List Member}
    {steps steps' : List MemberStep} (h : Steps info ms steps) (h' : Steps info ms' steps') :
    Steps info (ms ++ ms') (steps ++ steps') := by
  refine ⟨by rw [List.map_append, h.1, h'.1], fun step hstep => ?_⟩
  rcases List.mem_append.mp hstep with hstep | hstep
  · exact h.2 step hstep
  · exact h'.2 step hstep

/-- Members have steps if there is information about each. -/
theorem exists_steps {info : Member → Call TypeInfo} {members : List Member}
    (h : ∀ m ∈ members, ∃ i, info m = .ok i) : ∃ steps, Steps info members steps := by
  induction members with
  | nil => exact ⟨[], rfl, fun _ hs => absurd hs List.not_mem_nil⟩
  | cons m members ih =>
    obtain ⟨i, hi⟩ := h m List.mem_cons_self
    obtain ⟨steps, hsteps⟩ := ih fun m hm => h m (List.mem_cons_of_mem _ hm)
    have hfirst : Steps info [m] [⟨m, i⟩] :=
      ⟨rfl, fun step hstep => List.mem_singleton.mp hstep ▸ hi⟩
    exact ⟨_, hfirst.append hsteps⟩

variable {σ : Type} {query : TypeQuery σ} {I : σ → Prop} {info : Member → Call TypeInfo}

/-- The questions about the members are answered with their information, and the layouter is
left alone. -/
def Informs (I : σ → Prop) (query : TypeQuery σ) (info : Member → Call TypeInfo)
    (members : List Member) : Prop :=
  ∀ m ∈ members, ∀ x f x' bl i, I x → query x f m.type m.pDecl = .ok (x', bl, i) →
    I x' ∧ bl = f.bl ∧ info m = .ok i

theorem informs_known (info : Member → Call TypeInfo) (members : List Member) :
    Informs (fun _ => True) (knownQuery info) info members := by
  intro m _ x f x' bl i _ h
  obtain ⟨i', hinfo, h⟩ := bind_ok h
  cases h
  exact ⟨trivial, rfl, hinfo⟩

theorem queryDeclarators_run {type : TypeSpec} {declarators declarators' : List Declarator}
    {x x' : σ} {f f' : Frame} {offset offset' : ℤ}
    (hinforms : Informs I query info (declarators.map fun pDecl => ⟨type, some pDecl⟩)) (hx : I x)
    (h : mapAccumM (queryDeclarator query kind alignment type) (x, f, offset)
      declarators = .ok ((x', f', offset'), declarators')) :
    I x' ∧ ∃ steps, Steps info (declarators.map fun pDecl => ⟨type, some pDecl⟩) steps ∧
      mapAccumM (memberStep kind alignment) f steps =
        .ok (f', declarators'.map Placed.declarator) := by
  induction declarators generalizing x f offset declarators' with
  | nil =>
    cases h
    exact ⟨hx, [], ⟨rfl, fun _ hs => absurd hs List.not_mem_nil⟩, rfl⟩
  | cons pDecl declarators ih =>
    obtain ⟨⟨⟨x₁, f₁, o₁⟩, d₁⟩, hstep, h⟩ := bind_ok h
    obtain ⟨⟨⟨x₂, f₂, o₂⟩, ds⟩, hrest, h⟩ := bind_ok h
    cases h
    obtain ⟨⟨x₃, bl, i⟩, hquery, hstep⟩ := bind_ok hstep
    obtain ⟨⟨⟨f₃, o₃⟩, d₃⟩, hlayout, hstep⟩ := bind_ok hstep
    cases hstep
    obtain ⟨hx₁, rfl, hinfo⟩ := hinforms _ List.mem_cons_self _ _ _ _ _ hx hquery
    obtain ⟨o, hlayout⟩ := layoutDeclarator_offset 0 hlayout
    obtain ⟨hx', steps, hsteps, hrun⟩ :=
      ih (fun m hm => hinforms m (List.mem_cons_of_mem _ hm)) hx₁ hrest
    refine ⟨hx', ⟨⟨type, some pDecl⟩, i⟩ :: steps, ⟨?_, ?_⟩, ?_⟩
    · rw [List.map_cons, hsteps.1, List.map_cons]
    · intro step hmem
      rcases List.mem_cons.mp hmem with rfl | hmem
      · exact hinfo
      · exact hsteps.2 step hmem
    · have hfirst : memberStep kind alignment f ⟨⟨type, some pDecl⟩, i⟩ =
          .ok (f₁, .declarator d₁) := by
        show (layoutDeclarator kind alignment i f 0 pDecl >>= _) = _
        rw [hlayout]
        rfl
      show (memberStep kind alignment f _ >>= _) = _
      rw [hfirst]
      show (mapAccumM (memberStep kind alignment) f₁ steps >>= _) = _
      rw [hrun]
      rfl

theorem layoutDeclaration_run {pStructDecl pStructDecl' : StructDeclaration} {x x' : σ}
    {f f' : Frame} (hinforms : Informs I query info pStructDecl.members) (hx : I x)
    (h : layoutDeclaration query kind alignment (x, f) pStructDecl =
      .ok ((x', f'), pStructDecl')) :
    I x' ∧ ∃ steps, Steps info pStructDecl.members steps ∧
      mapAccumM (memberStep kind alignment) f steps = .ok (f', pStructDecl'.placed) := by
  obtain ⟨⟨⟨x₁, f₁, o₁⟩, ds⟩, hquery, h⟩ := bind_ok h
  cases h
  unfold queryMembers at hquery
  unfold StructDeclaration.members at hinforms ⊢
  unfold StructDeclaration.placed
  cases hd : pStructDecl.declarators with
  | none =>
    rw [hd] at hquery hinforms
    obtain ⟨⟨x₂, f₂, o₂⟩, hunnamed, hquery⟩ := bind_ok hquery
    cases hquery
    obtain ⟨⟨x₃, bl, i⟩, hask, hunnamed⟩ := bind_ok hunnamed
    obtain ⟨⟨pos, f₃⟩, hplace, hunnamed⟩ := bind_ok hunnamed
    cases hunnamed
    obtain ⟨hx', rfl, hinfo⟩ := hinforms _ List.mem_cons_self _ _ _ _ _ hx hask
    refine ⟨hx', [⟨⟨pStructDecl.type, none⟩, i⟩], ⟨rfl, ?_⟩, ?_⟩
    · intro step hstep
      rw [List.mem_singleton] at hstep
      exact hstep ▸ hinfo
    · show (placeMember kind alignment i _ >>= _) >>= _ = _
      have hplace' : placeMember kind alignment i (noteFlags (finishOpenBitfield f) i false) =
          .ok (pos, f') := hplace
      rw [hplace']
      cases kind <;> rfl
  | some declarators =>
    rw [hd] at hquery hinforms
    obtain ⟨⟨⟨x₂, f₂, o₂⟩, ds'⟩, hdecls, hquery⟩ := bind_ok hquery
    cases hquery
    exact queryDeclarators_run hinforms hx hdecls

theorem layoutDeclarations_run {declarations declarations' : List StructDeclaration} {x x' : σ}
    {f f' : Frame}
    (hinforms : Informs I query info (declarations.flatMap StructDeclaration.members)) (hx : I x)
    (h : mapAccumM (layoutDeclaration query kind alignment) (x, f) declarations =
      .ok ((x', f'), declarations')) :
    I x' ∧ ∃ steps, Steps info (declarations.flatMap StructDeclaration.members) steps ∧
      mapAccumM (memberStep kind alignment) f steps =
        .ok (f', declarations'.flatMap StructDeclaration.placed) := by
  induction declarations generalizing x f declarations' with
  | nil =>
    cases h
    exact ⟨hx, [], ⟨rfl, fun _ hs => absurd hs List.not_mem_nil⟩, rfl⟩
  | cons pStructDecl declarations ih =>
    obtain ⟨⟨⟨x₁, f₁⟩, sd⟩, hstep, h⟩ := bind_ok h
    obtain ⟨⟨⟨x₂, f₂⟩, sds⟩, hrest, h⟩ := bind_ok h
    cases h
    obtain ⟨hx₁, steps, hsteps, hrun⟩ := layoutDeclaration_run
      (fun m hm => hinforms m (List.mem_append_left _ hm)) hx hstep
    obtain ⟨hx', steps', hsteps', hrun'⟩ :=
      ih (fun m hm => hinforms m (List.mem_append_right _ hm)) hx₁ hrest
    exact ⟨hx', steps ++ steps', hsteps.append hsteps', mapAccumM_append_ok hrun hrun'⟩

end Run

/-- A compound that is laid out is the end of a run over its members. -/
theorem layoutStruct_run {σ : Type} {query : TypeQuery σ} {I : σ → Prop}
    {info : Member → Call TypeInfo} {arch : NativeArch} {pLP : LayoutParam}
    {bl bl' : BitfieldLayouter} {pStruct pStruct' : Struct} {x x' : σ}
    (hbody : pStruct.declarations.isSome) (hinforms : Informs I query info pStruct.members)
    (hx : I x) (h : layoutStruct arch pLP query x bl pStruct = .ok (x', bl', pStruct')) :
    ∃ steps f, Steps info pStruct.members steps ∧
      mapAccumM (memberStep pStruct.kind (structAlignment arch pLP pStruct))
        (initialFrame arch pLP bl pStruct) steps = .ok (f, pStruct'.placed) ∧
      (finishOpenBitfield f).align ≠ 0 ∧ pStruct'.kind = pStruct.kind ∧
      pStruct'.align = (finishOpenBitfield f).align ∧
      pStruct'.size = paddedSize (finishOpenBitfield f).size (finishOpenBitfield f).align := by
  obtain ⟨declarations, hdecl⟩ := Option.isSome_iff_exists.mp hbody
  unfold Struct.members at hinforms ⊢
  rw [hdecl] at hinforms ⊢
  simp only [layoutStruct, hdecl] at h
  obtain ⟨⟨⟨x₁, f⟩, declarations'⟩, hrun, h⟩ := bind_ok h
  obtain ⟨⟨bl'', p'⟩, hfinish, h⟩ := bind_ok h
  cases h
  simp only [finishStruct] at hfinish
  split_ifs at hfinish with hzero
  cases hfinish
  obtain ⟨-, steps, hsteps, hrun⟩ := layoutDeclarations_run hinforms hx hrun
  exact ⟨steps, f, hsteps, hrun, hzero, rfl, rfl, rfl⟩

theorem layoutKnown_run {arch : NativeArch} {pLP : LayoutParam} {bl : BitfieldLayouter}
    {info : Member → Call TypeInfo} {pStruct pStruct' : Struct}
    (hbody : pStruct.declarations.isSome)
    (h : layoutKnown arch pLP bl info pStruct = .ok pStruct') :
    ∃ steps f, Steps info pStruct.members steps ∧
      mapAccumM (memberStep pStruct.kind (structAlignment arch pLP pStruct))
        (initialFrame arch pLP bl pStruct) steps = .ok (f, pStruct'.placed) ∧
      (finishOpenBitfield f).align ≠ 0 ∧ pStruct'.kind = pStruct.kind ∧
      pStruct'.align = (finishOpenBitfield f).align ∧
      pStruct'.size = paddedSize (finishOpenBitfield f).size (finishOpenBitfield f).align := by
  obtain ⟨⟨x, bl', p⟩, hlayout, h⟩ := bind_ok h
  cases h
  exact layoutStruct_run hbody (informs_known info _) trivial hlayout

end ConvertBinaryC
