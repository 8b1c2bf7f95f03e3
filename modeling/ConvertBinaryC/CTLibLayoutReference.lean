import ConvertBinaryC.CTLibLayout

/-! The layout of a compound whose nested compounds are laid out before it, as a
function of the declarations alone, and the steps in which two layouts of one
compound agree as long as their layouters agree on what the next steps read. -/
namespace ConvertBinaryC
open FoldRules

/-- A member as the layout asks for its type information; unnamed members have no
declarator. -/
structure Member where
  type : TypeSpec
  pDecl : Option Declarator

def Member.isBitfield (m : Member) : Bool := m.pDecl.any Declarator.isBitfield

def StructDeclaration.members (pStructDecl : StructDeclaration) : List Member :=
  match pStructDecl.declarators with
  | none => [⟨pStructDecl.type, none⟩]
  | some declarators => declarators.map fun pDecl => ⟨pStructDecl.type, some pDecl⟩

def Struct.members (pStruct : Struct) : List Member :=
  (pStruct.declarations.getD []).flatMap StructDeclaration.members

/-- Does a compound have a bit-field of its own? -/
def Struct.hasBitfieldMember (pStruct : Struct) : Bool := pStruct.members.any Member.isBitfield

/-- The type objects whose type information has to be computed. -/
inductive TypeNode where
  | struct (s : ℕ)
  | typedef (t : ℕ)
  deriving DecidableEq

/-- The object that a member holds by value. -/
def Member.node (m : Member) : Option TypeNode :=
  if m.pDecl.any Declarator.pointer_flag then none
  else
    match m.type with
    | .typedef pTypedef => some (.typedef pTypedef)
    | .compound _ s => some (.struct s)
    | _ => none

def Typedef.member (td : Typedef) : Member := ⟨td.type, some td.decl⟩

/-- Containment by value is acyclic. -/
structure TypeRank (heap : Heap) where
  rank : TypeNode → ℕ
  struct_lt : ∀ s, ∀ m ∈ (heap.structAt s).members, ∀ n, m.node = some n →
    rank n < rank (.struct s)
  typedef_lt : ∀ t n, (heap.typedefAt t).member.node = some n → rank n < rank (.typedef t)

section Reference
variable (arch : NativeArch) (pLP : LayoutParam)

/-- `get_type_info_generic` where the information about nested objects is known. -/
def memberInfo (heap : Heap) (nodeInfo : TypeNode → Call TypeInfo) (m : Member) :
    Call TypeInfo := do
  let info ← (if m.pDecl.any Declarator.pointer_flag then
      .ok (TypeInfo.scalar (loadSize pLP.ptr_size arch.ptr_size))
    else
      match m.type with
      | .typedef pTypedef => nodeInfo (.typedef pTypedef)
      | .enum pES => .ok (TypeInfo.scalar (enumTypeSize pLP (heap.enumAt pES)))
      | .compound _ s => nodeInfo (.struct s)
      | .basic tflags => .ok (TypeInfo.scalar (basicSize arch pLP tflags)) : Call TypeInfo)
  info.declare ((m.pDecl.map Declarator.dims).getD [])

/-- Asking for what is known leaves the layouter alone. -/
def knownQuery (info : Member → Call TypeInfo) : TypeQuery Unit := fun _ f type pDecl => do
  let info ← info ⟨type, pDecl⟩
  .ok ((), f.bl, info)

def layoutKnown (bl : BitfieldLayouter) (info : Member → Call TypeInfo) (pStruct : Struct) :
    Call Struct := do
  let (_, _, pStruct) ← layoutStruct arch pLP (knownQuery info) () bl pStruct
  .ok pStruct

/-- The type information of every object, nested objects first. -/
def nodeInfo {heap : Heap} (tr : TypeRank heap) (bl : BitfieldLayouter) (n : TypeNode) :
    Call TypeInfo :=
  let below : TypeNode → Call TypeInfo := fun m =>
    if _h : tr.rank m < tr.rank n then nodeInfo tr bl m else .error .outOfFuel
  match n with
  | .typedef t => memberInfo arch pLP heap below (heap.typedefAt t).member
  | .struct s => do
    let pStruct ← layoutKnown arch pLP bl (memberInfo arch pLP heap below) (heap.structAt s)
    .ok (structInfo arch pLP pStruct)
termination_by tr.rank n

variable {heap : Heap} (tr : TypeRank heap) (bl : BitfieldLayouter)

/-- What is known below a rank. -/
def infoBelow (r : ℕ) (n : TypeNode) : Call TypeInfo :=
  if tr.rank n < r then nodeInfo arch pLP tr bl n else .error .outOfFuel

/-- What the members of a compound are told about their types. -/
def referenceInfo (s : ℕ) : Member → Call TypeInfo :=
  memberInfo arch pLP heap (infoBelow arch pLP tr bl (tr.rank (.struct s)))

/-- The compound as it is laid out after its nested compounds. -/
def referenceStruct (s : ℕ) : Call Struct :=
  layoutKnown arch pLP bl (referenceInfo arch pLP tr bl s) (heap.structAt s)

theorem nodeInfo_typedef (t : ℕ) : nodeInfo arch pLP tr bl (.typedef t) =
    memberInfo arch pLP heap (infoBelow arch pLP tr bl (tr.rank (.typedef t)))
      (heap.typedefAt t).member := by
  rw [nodeInfo]
  rfl

theorem nodeInfo_struct (s : ℕ) : nodeInfo arch pLP tr bl (.struct s) =
    referenceStruct arch pLP tr bl s >>= fun pStruct => .ok (structInfo arch pLP pStruct) := by
  rw [nodeInfo]
  rfl

theorem infoBelow_of_lt {r : ℕ} {n : TypeNode} (h : tr.rank n < r) :
    infoBelow arch pLP tr bl r n = nodeInfo arch pLP tr bl n := if_pos h

variable {arch pLP tr bl}

/-- A compound of which only the tag is known stays as it is. -/
theorem referenceStruct_of_none {s : ℕ} (h : (heap.structAt s).declarations = none) :
    referenceStruct arch pLP tr bl s = .ok (heap.structAt s) := by
  simp only [referenceStruct, layoutKnown, layoutStruct, h]
  rfl

end Reference

/-- Calls of one kind on two layouters of one class agree from equal runs. -/
theorem BitfieldLayouter.reset_related {a b : BitfieldLayouter} (h : b.blc.blank = a.blc.blank) :
    Related (fun a' b' => b'.blc = a'.blc) a.reset b.reset := by
  obtain ⟨blc, _, _, _, offset⟩ := a
  obtain ⟨blc', _, _, _, offset'⟩ := b
  dsimp only at h
  cases blc <;> cases blc' <;> simp only [BLClass.blank, reduceCtorEq] at h
  · exact rfl
  · exact rfl
  · rename_i c d
    have hsize : d.block_size = c.block_size := by
      simp only [BLClass.simple.injEq, BLBlock.mk.injEq] at h
      exact h.1
    simp only [reset, simpleReset, hsize]
    split_ifs
    · trivial
    · obtain ⟨_, _, _⟩ := c
      obtain ⟨_, _, _⟩ := d
      cases hsize
      apply (Related.refl (R := Eq) (fun _ => rfl) _).bind
      rintro bits _ rfl
      exact rfl

theorem BitfieldLayouter.finalize_sameRun {a b : BitfieldLayouter} (h : a.SameRun b) :
    a.finalize.SameRun b.finalize := by
  obtain ⟨blc, _, _, align, offset⟩ := a
  obtain ⟨blc', _, _, align', offset'⟩ := b
  obtain ⟨hblc, halign, hoffset⟩ := h
  dsimp only at hblc halign hoffset
  subst hblc halign hoffset
  cases blc' with
  | generic u => exact ⟨rfl, rfl, rfl⟩
  | microsoft u =>
    simp only [finalize, microsoftFinalize, microsoftFlush]
    split_ifs <;> exact ⟨rfl, rfl, rfl⟩
  | simple c => exact ⟨rfl, rfl, rfl⟩

theorem BitfieldLayouter.push_related {a b : BitfieldLayouter} (p : BLPushParam)
    (hrun : a.SameRun b) (horder : b.byte_order = a.byte_order)
    (hmax : a.blc.usesMaxAlign → b.max_align = a.max_align) :
    Related (fun r r' => r'.1 = r.1 ∧ r'.2.2 = r.2.2 ∧ r.2.1.SameRun r'.2.1)
      (a.push p) (b.push p) := by
  obtain ⟨blc, byte_order, max_align, align, offset⟩ := a
  obtain ⟨blc', byte_order', max_align', align', offset'⟩ := b
  obtain ⟨hblc, halign, hoffset⟩ := hrun
  dsimp only at hblc halign hoffset horder hmax
  subst hblc halign hoffset horder
  cases blc' with
  | generic u =>
    cases hmax rfl
    exact Related.refl (fun _ => ⟨rfl, rfl, rfl, rfl, rfl⟩) _
  | microsoft u =>
    cases hmax rfl
    exact Related.refl (fun _ => ⟨rfl, rfl, rfl, rfl, rfl⟩) _
  | simple c =>
    -- the maximal alignments may differ and no branch looks at them
    simp only [push, simplePush, simplePlace]
    split_ifs <;> exact ⟨rfl, rfl, rfl, rfl, rfl⟩

/-- Two layouts of one compound are in step: they differ at most in what the rest of
the members does not read. `bitsAhead` says that bit-fields follow. -/
structure FrameRel (bitsAhead : Prop) (f g : Frame) : Prop where
  align : g.align = f.align
  size : g.size = f.size
  hasBitfield : g.hasBitfield = f.hasBitfield
  riskyVal : g.riskyVal = f.riskyVal
  in_bitfield : g.in_bitfield = f.in_bitfield
  blank : g.bl.blc.blank = f.bl.blc.blank
  byte_order : g.bl.byte_order = f.bl.byte_order
  run : f.in_bitfield = true → f.bl.SameRun g.bl
  max_align : bitsAhead → f.bl.blc.usesMaxAlign → g.bl.max_align = f.bl.max_align

theorem FrameRel.weaken {P Q : Prop} {f g : Frame} (h : FrameRel P f g) (hQP : Q → P) :
    FrameRel Q f g :=
  { h with max_align := fun hq => h.max_align (hQP hq) }

theorem FrameRel.note {P : Prop} {f g : Frame} (h : FrameRel P f g) (info : TypeInfo)
    (bitfield_flag : Bool) :
    FrameRel P (noteFlags f info bitfield_flag) (noteFlags g info bitfield_flag) :=
  { h with
    hasBitfield := by simp only [noteFlags, h.hasBitfield]
    riskyVal := by simp only [noteFlags, h.riskyVal] }

/-- Closing a run reads the layouter only if the run is open. -/
theorem FrameRel.finish {P : Prop} {f g : Frame} (h : FrameRel P f g)
    (hrun : f.bl.SameRun g.bl) : FrameRel P (finishBitfield f) (finishBitfield g) := by
  have hf := f.bl.finalize_like
  have hg := g.bl.finalize_like
  have hsame := BitfieldLayouter.finalize_sameRun hrun
  have huses := BLClass.usesMaxAlign_of_blank hf.blank
  exact
    { h with
      align := by simp only [finishBitfield, hsame.align]
      size := by simp only [finishBitfield, hsame.offset]
      blank := hg.blank.trans (h.blank.trans hf.blank.symm)
      byte_order := hg.byte_order.trans (h.byte_order.trans hf.byte_order.symm)
      run := fun _ => hsame
      max_align := fun hp hu =>
        hg.max_align.trans ((h.max_align hp (huses ▸ hu)).trans hf.max_align.symm) }

theorem FrameRel.finishOpen {P : Prop} {f g : Frame} (h : FrameRel P f g) :
    FrameRel P (finishOpenBitfield f) (finishOpenBitfield g) := by
  unfold finishOpenBitfield
  rw [h.in_bitfield]
  split_ifs with hopen
  · exact
      { h.finish (h.run hopen) with
        in_bitfield := rfl
        run := fun hfalse => Bool.noConfusion hfalse }
  · exact h

theorem finishOpenBitfield_in_bitfield (f : Frame) :
    (finishOpenBitfield f).in_bitfield = false := by
  unfold finishOpenBitfield
  split_ifs with h
  · rfl
  · exact Bool.eq_false_iff.mpr h

theorem finishOpenBitfield_like (f : Frame) : f.bl.Like (finishOpenBitfield f).bl := by
  unfold finishOpenBitfield
  split_ifs
  · exact f.bl.finalize_like
  · exact .refl _

/-- A member that is no bit-field ends up at the same place. -/
theorem FrameRel.place {P : Prop} {f g : Frame} (h : FrameRel P f g)
    (kind : CompoundKind) (alignment : ℤ) (info : TypeInfo) :
    Related (fun p q => p.1 = q.1 ∧ FrameRel P p.2 q.2 ∧ p.2.bl = f.bl ∧ q.2.bl = g.bl ∧
        p.2.in_bitfield = f.in_bitfield)
      (placeMember kind alignment info f) (placeMember kind alignment info g) := by
  unfold placeMember
  generalize (if info.align > alignment then alignment else info.align) = align
  dsimp only
  rw [h.align, h.size]
  cases kind with
  | struct =>
    dsimp only
    by_cases hzero : align = 0
    · rw [if_pos hzero, if_pos hzero]
      trivial
    · rw [if_neg hzero, if_neg hzero]
      exact ⟨rfl, { h with align := rfl, size := rfl }, rfl, rfl, rfl⟩
  | union => exact ⟨rfl, { h with align := rfl, size := rfl }, rfl, rfl, rfl⟩

/-- Starting a run makes it equal, whatever the layouters did before. -/
theorem FrameRel.start {P : Prop} {f g : Frame} (h : FrameRel P f g)
    (kind : CompoundKind) :
    Related (fun a b => a.SameRun b ∧ f.bl.Like a ∧ g.bl.Like b)
      (startBitfield kind f) (startBitfield kind g) := by
  unfold startBitfield
  rw [h.in_bitfield]
  split_ifs with hopen
  · exact ⟨h.run hopen, .refl _, .refl _⟩
  · apply (BitfieldLayouter.reset_related h.blank).with_ok.bind
    rintro a b ⟨hblc, hf, hg⟩
    have ha := BitfieldLayouter.reset_like hf
    have hb := BitfieldLayouter.reset_like hg
    refine ⟨⟨hblc, h.align, ?_⟩, ⟨ha.blank, ha.byte_order, ha.max_align⟩,
      ⟨hb.blank, hb.byte_order, hb.max_align⟩⟩
    cases kind with
    | struct => exact h.size
    | union => rfl

/-- A bit-field ends up at the same place if the maximal alignments agree. -/
theorem FrameRel.pushed {P : Prop} {f g : Frame} (h : FrameRel True f g)
    (kind : CompoundKind) (info : TypeInfo) (pDecl : Declarator) (bit : BitfieldInfo)
    (hkind : kind = .union → f.in_bitfield = false) :
    Related (fun p q => p.2 = q.2 ∧ FrameRel P p.1 q.1 ∧ f.bl.Like p.1.bl ∧
        g.bl.Like q.1.bl ∧ p.1.in_bitfield = decide (kind = .struct))
      (pushBitfield kind info f pDecl bit) (pushBitfield kind info g pDecl bit) := by
  apply (h.start kind).bind
  rintro a b ⟨hrun, ha, hb⟩
  have horder : b.byte_order = a.byte_order :=
    hb.byte_order.trans (h.byte_order.trans ha.byte_order.symm)
  have hmax : a.blc.usesMaxAlign → b.max_align = a.max_align := fun hu =>
    hb.max_align.trans ((h.max_align trivial
      (BLClass.usesMaxAlign_of_blank ha.blank ▸ hu)).trans ha.max_align.symm)
  apply (BitfieldLayouter.push_related ⟨pDecl, bit, info.item_size, info.align⟩ hrun horder
    hmax).with_ok.bind
  rintro ⟨error, a', pDecl'⟩ ⟨error', b', pDecl''⟩ ⟨⟨herror, hdecl, hrun'⟩, hf, hg⟩
  have ha' := ha.trans (BitfieldLayouter.push_like hf)
  have hb' := hb.trans (BitfieldLayouter.push_like hg)
  dsimp only at herror hdecl hrun' ⊢
  subst herror hdecl
  have hpushed : FrameRel P { f with bl := a' } { g with bl := b' } :=
    { h with
      blank := hb'.blank.trans (h.blank.trans ha'.blank.symm)
      byte_order := hb'.byte_order.trans (h.byte_order.trans ha'.byte_order.symm)
      run := fun _ => hrun'
      max_align := fun _ hu => hb'.max_align.trans ((h.max_align trivial
        (BLClass.usesMaxAlign_of_blank ha'.blank ▸ hu)).trans ha'.max_align.symm) }
  cases error' with
  | bitfieldTooWide => trivial
  | noError =>
    cases kind with
    | struct =>
      exact ⟨rfl, { hpushed with in_bitfield := rfl, run := fun _ => hrun' }, ha', hb', rfl⟩
    | union =>
      exact ⟨rfl, hpushed.finish hrun', ha'.trans (BitfieldLayouter.finalize_like a'),
        hb'.trans (BitfieldLayouter.finalize_like b'), hkind rfl⟩

/-- One declarator of two layouts in step. -/
theorem FrameRel.declarator {P : Prop} {f g : Frame} (kind : CompoundKind) (alignment : ℤ)
    (info : TypeInfo) (offset : ℤ) (pDecl : Declarator)
    (h : FrameRel (pDecl.isBitfield = true ∨ P) f g)
    (hkind : kind = .union → f.in_bitfield = false) :
    Related (fun p q => p.2 = q.2 ∧ p.1.2 = q.1.2 ∧ FrameRel P p.1.1 q.1.1 ∧
        f.bl.Like p.1.1.bl ∧ g.bl.Like q.1.1.bl ∧
        p.1.1.in_bitfield = (pDecl.isBitfield && decide (kind = .struct)) ∧
        (pDecl.isBitfield = false → f.in_bitfield = false → p.1.1.bl = f.bl))
      (layoutDeclarator kind alignment info f offset pDecl)
      (layoutDeclarator kind alignment info g offset pDecl) := by
  have hnote := h.note info pDecl.isBitfield
  have hordinary (hbit : pDecl.isBitfield = false) :
      Related (fun p q => p.1 = q.1 ∧ FrameRel P p.2 q.2 ∧ f.bl.Like p.2.bl ∧
          g.bl.Like q.2.bl ∧ p.2.in_bitfield = (pDecl.isBitfield && decide (kind = .struct)) ∧
          (f.in_bitfield = false → p.2.bl = f.bl))
        (placeMember kind alignment info
          (finishOpenBitfield (noteFlags f info pDecl.isBitfield)))
        (placeMember kind alignment info
          (finishOpenBitfield (noteFlags g info pDecl.isBitfield))) := by
    apply (hnote.finishOpen.place kind alignment info).mono
    rintro ⟨pos, f'⟩ ⟨pos', g'⟩ ⟨hpos, hrel, hbl, hbl', hin⟩
    refine ⟨hpos, hrel.weaken Or.inr, ?_, ?_, ?_, ?_⟩
    · rw [hbl]
      exact finishOpenBitfield_like (noteFlags f info pDecl.isBitfield)
    · rw [hbl']
      exact finishOpenBitfield_like (noteFlags g info pDecl.isBitfield)
    · rw [hin, finishOpenBitfield_in_bitfield, hbit]
      rfl
    · intro hclosed
      rw [hbl, finishOpenBitfield, if_neg (by simpa [noteFlags] using hclosed)]
      rfl
  unfold layoutDeclarator
  dsimp only
  split
  · rename_i bit hext
    have hbit : pDecl.isBitfield = true := by rw [Declarator.isBitfield, hext]
    apply ((hnote.weaken fun _ => Or.inl hbit).pushed (P := P) kind info pDecl bit
      hkind).bind
    rintro ⟨f', pDecl'⟩ ⟨g', pDecl''⟩ ⟨hdecl, hrel, hlike, hlike', hin⟩
    refine ⟨hdecl, rfl, hrel, hlike, hlike', by rw [hin, hbit]; rfl, ?_⟩
    intro hno
    exact absurd (hbit.symm.trans hno) Bool.noConfusion
  · rename_i hext
    have hbit : pDecl.isBitfield = false := by
      unfold Declarator.isBitfield
      split
      · rename_i info' hinfo
        exact absurd hinfo (hext info')
      · rfl
    apply (hordinary hbit).bind
    rintro ⟨pos, f'⟩ ⟨pos', g'⟩ ⟨hpos, hrel, hlike, hlike', hin, hsame⟩
    dsimp only at hpos
    subst hpos
    exact ⟨rfl, rfl, hrel, hlike, hlike', hin, fun _ => hsame⟩

end ConvertBinaryC
