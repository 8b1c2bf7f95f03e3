import ConvertBinaryC.CTLibMirror
import ConvertBinaryC.CTLibLayoutRun

/-! The layouts of one compound with each byte order, in step over its members. They ask
the same questions and place every member at the same offset. -/
namespace ConvertBinaryC
open FoldRules

/-- Declarations whose declarators differ at most in the positions of bit-fields. -/
structure StructDeclaration.Twin (sd sd' : StructDeclaration) : Prop where
  fields : sd' = { sd with declarators := sd'.declarators }
  declarators : Option.Rel (List.Forall₂ Declarator.Twin) sd.declarators sd'.declarators

structure Struct.Twin (pStruct pStruct' : Struct) : Prop where
  fields : pStruct' = { pStruct with declarations := pStruct'.declarations }
  declarations : Option.Rel (List.Forall₂ StructDeclaration.Twin) pStruct.declarations
    pStruct'.declarations

def StructDeclaration.Mirrors (sd sd' : StructDeclaration) : Prop :=
  ∀ ds ds', sd.declarators = some ds → sd'.declarators = some ds' →
    List.Forall₂ Declarator.Mirrors ds ds'

def Struct.Mirrors (pStruct pStruct' : Struct) : Prop :=
  ∀ sds sds', pStruct.declarations = some sds → pStruct'.declarations = some sds' →
    List.Forall₂ StructDeclaration.Mirrors sds sds'

theorem StructDeclaration.Twin.refl (sd : StructDeclaration) : sd.Twin sd := by
  refine ⟨rfl, ?_⟩
  cases sd.declarators with
  | none => exact .none
  | some ds => exact .some (List.forall₂_same.mpr fun d _ => .refl d)

theorem Struct.Twin.refl (pStruct : Struct) : pStruct.Twin pStruct := by
  refine ⟨rfl, ?_⟩
  cases pStruct.declarations with
  | none => exact .none
  | some sds => exact .some (List.forall₂_same.mpr fun sd _ => .refl sd)

/-- A layouter in the layout with the little-endian order. -/
structure BitfieldLayouter.Little (bl : BitfieldLayouter) : Prop where
  order : bl.byte_order = .littleEndian
  max_align : 0 ≤ bl.max_align
  ready : bl.Ready

def Declarator.ByteWide (d : Declarator) : Prop :=
  ∀ bit, d.ext = .bitfield bit → IsWidth bit.bits

/-- The frame of the other layout. -/
def Frame.big (f : Frame) : Frame := { f with bl := f.bl.big }

structure Frame.Little (f : Frame) : Prop where
  bl : f.bl.Little
  align : 0 ≤ f.align ∧ f.align < 65536
  size : 0 ≤ f.size

theorem u16_range (n : ℤ) : 0 ≤ u16 n ∧ u16 n < 65536 :=
  ⟨Int.emod_nonneg _ (by decide), Int.emod_lt_of_pos _ (by decide)⟩

section Layouter
variable {bl : BitfieldLayouter}

theorem finalize_big (bl : BitfieldLayouter) : bl.big.finalize = bl.finalize.big := by
  obtain ⟨class', byte_order, max_align, align, offset⟩ := bl
  cases class' with
  | generic u => rfl
  | microsoft u => exact congrArg Prod.fst (microsoftFlush_big _ _)
  | simple b => rfl

theorem reset_big (bl : BitfieldLayouter) :
    bl.big.reset = bl.reset.map BitfieldLayouter.big := by
  obtain ⟨class', byte_order, max_align, align, offset⟩ := bl
  cases class' with
  | generic u => rfl
  | microsoft u => rfl
  | simple b =>
    unfold BitfieldLayouter.reset simpleReset BitfieldLayouter.big
    dsimp only
    split_ifs
    · rfl
    · cases long (8 * b.block_size) <;> rfl

theorem BitfieldLayouter.Little.of_like {bl' : BitfieldLayouter} (h : bl.Little)
    (hlike : bl.Like bl') (hready : bl'.Ready) : bl'.Little where
  order := hlike.byte_order.trans h.order
  max_align := hlike.max_align ▸ h.max_align
  ready := hready

theorem BitfieldLayouter.Ready.finalize (h : bl.Ready) : bl.finalize.Ready := by
  obtain ⟨class', byte_order, max_align, align, offset⟩ := bl
  cases class' with
  | generic u =>
    obtain ⟨hO, hB, ha⟩ := h
    have hbytes : 0 ≤ (u.bit_offset + 7).tdiv 8 := Int.tdiv_nonneg (by omega) (by omega)
    exact ⟨add_nonneg hO hbytes, hB, ha⟩
  | microsoft u =>
    have hclass : (microsoftFinalize ⟨.microsoft u, byte_order, max_align, align, offset⟩ u).blc =
        .microsoft u := by
      unfold microsoftFinalize microsoftFlush
      split_ifs
      · rfl
      · rfl
    unfold Ready BitfieldLayouter.finalize
    dsimp only
    rw [hclass]
    exact h
  | simple b => exact h

/-- A run starts at an offset of its own. -/
theorem BitfieldLayouter.Ready.start {bl' : BitfieldLayouter} (h : bl.Ready)
    (hreset : bl.reset = .ok bl') (align : ℤ) {offset : ℤ} (hoffset : 0 ≤ offset) :
    ({ bl' with align := align, offset := offset } : BitfieldLayouter).Ready := by
  obtain ⟨class', byte_order, max_align, align', offset'⟩ := bl
  cases class' with
  | generic u =>
    cases hreset
    exact ⟨hoffset, le_rfl, le_rfl⟩
  | microsoft u =>
    cases hreset
    exact le_rfl
  | simple b =>
    unfold BitfieldLayouter.reset simpleReset at hreset
    dsimp only at hreset
    split_ifs at hreset
    obtain ⟨block_bits, hlong, hreset⟩ := bind_ok hreset
    obtain ⟨-, rfl⟩ := long_ok_iff.mp hlong
    cases hreset
    exact le_max_right 0 (i32 (8 * b.block_size))

end Layouter

section Frame
variable {kind : CompoundKind} {alignment : ℤ} {info : TypeInfo} {f : Frame}

theorem finishBitfield_big (f : Frame) : finishBitfield f.big = (finishBitfield f).big := by
  unfold finishBitfield Frame.big
  dsimp only
  rw [finalize_big]
  rfl

theorem finishOpenBitfield_big (f : Frame) :
    finishOpenBitfield f.big = (finishOpenBitfield f).big := by
  unfold finishOpenBitfield
  by_cases hopen : f.in_bitfield = true
  · have hopen' : f.big.in_bitfield = true := hopen
    rw [if_pos hopen, if_pos hopen', finishBitfield_big]
    rfl
  · have hopen' : ¬f.big.in_bitfield = true := hopen
    rw [if_neg hopen, if_neg hopen']

theorem placeMember_big (kind : CompoundKind) (alignment : ℤ) (info : TypeInfo) (f : Frame) :
    placeMember kind alignment info f.big =
      (placeMember kind alignment info f).map fun r => (r.1, r.2.big) := by
  unfold placeMember Frame.big
  dsimp only
  cases kind with
  | struct =>
    dsimp only
    split_ifs <;> rfl
  | union => rfl

theorem startBitfield_big (kind : CompoundKind) (f : Frame) :
    startBitfield kind f.big = (startBitfield kind f).map BitfieldLayouter.big := by
  unfold startBitfield
  by_cases hopen : f.in_bitfield = true
  · have hopen' : f.big.in_bitfield = true := hopen
    rw [if_pos hopen, if_pos hopen']
    rfl
  · have hopen' : ¬f.big.in_bitfield = true := hopen
    have hreset : f.big.bl.reset = f.bl.reset.map BitfieldLayouter.big := reset_big f.bl
    rw [if_neg hopen, if_neg hopen', hreset]
    cases f.bl.reset with
    | error e => rfl
    | ok bl => rfl

theorem Frame.Little.note (h : f.Little) (info : TypeInfo) (bitfield_flag : Bool) :
    (noteFlags f info bitfield_flag).Little := ⟨h.bl, h.align, h.size⟩

theorem Frame.Little.finish (h : f.Little) : (finishBitfield f).Little where
  bl := h.bl.of_like f.bl.finalize_like h.bl.ready.finalize
  align := u16_range _
  size := u32_nonneg _

theorem Frame.Little.finishOpen (h : f.Little) : (finishOpenBitfield f).Little := by
  unfold finishOpenBitfield
  split_ifs
  · exact ⟨h.finish.bl, h.finish.align, h.finish.size⟩
  · exact h

theorem Frame.Little.place {f' : Frame} {pos : ℤ} (h : f.Little)
    (hplace : placeMember kind alignment info f = .ok (pos, f')) : f'.Little := by
  have halign (a : ℤ) : 0 ≤ (if a > f.align then u16 a else f.align) ∧
      (if a > f.align then u16 a else f.align) < 65536 := by
    split_ifs
    · exact u16_range a
    · exact h.align
  unfold placeMember at hplace
  generalize (if info.align > alignment then alignment else info.align) = align at hplace
  cases kind with
  | struct =>
    dsimp only at hplace
    by_cases hzero : align = 0
    · rw [if_pos hzero] at hplace
      cases hplace
    · rw [if_neg hzero] at hplace
      cases hplace
      exact ⟨h.bl, halign align, u32_nonneg _⟩
  | union =>
    cases hplace
    refine ⟨h.bl, halign align, ?_⟩
    have hsize := h.size
    dsimp only
    split_ifs <;> omega

theorem Frame.Little.start {bl : BitfieldLayouter} (h : f.Little)
    (hstart : startBitfield kind f = .ok bl) : bl.Little := by
  unfold startBitfield at hstart
  split_ifs at hstart
  · cases hstart
    exact h.bl
  · obtain ⟨bl', hreset, hstart⟩ := bind_ok hstart
    cases hstart
    have hlike := BitfieldLayouter.reset_like hreset
    refine h.bl.of_like ⟨hlike.blank, hlike.byte_order, hlike.max_align⟩ ?_
    apply h.bl.ready.start hreset
    cases kind with
    | struct => exact h.size
    | union => exact le_rfl

end Frame

/-- The field of a bit-field declarator, in the run that it starts or continues. -/
def FieldFits (kind : CompoundKind) (info : TypeInfo) (f : Frame) (d : Declarator) : Prop :=
  ∀ bit bl, d.ext = .bitfield bit → startBitfield kind f = .ok bl →
    bl.PosFits ⟨d, bit, info.item_size, info.align⟩

theorem push_recorded {bl bl' : BitfieldLayouter} {p : BLPushParam} {d : Declarator}
    (h : bl.push p = .ok (.noError, bl', d)) :
    d = p.pDecl ∨ ∃ offset size pos, d = p.record offset size pos := by
  unfold BitfieldLayouter.push at h
  cases hblc : bl.blc with
  | generic u =>
    rw [hblc] at h
    obtain ⟨v, offset, bit_offset, -, -, -, hcases⟩ := genericPush_ok h
    rcases hcases with ⟨-, -, -, hd, -⟩ | ⟨-, -, hd, -⟩ | ⟨-, used_bytes, -, hd, -⟩
    · exact Or.inl hd
    · exact Or.inl hd
    · exact Or.inr ⟨_, _, _, hd⟩
  | microsoft u =>
    rw [hblc] at h
    obtain ⟨changed, v, -, -, -, hcases⟩ := microsoftPush_ok h
    rcases hcases with ⟨-, hd, -⟩ | ⟨-, offset, bit_offset, -, -, hd, -⟩
    · exact Or.inl hd
    · exact Or.inr ⟨_, _, _, hd⟩
  | simple b =>
    rw [hblc] at h
    have hpush := Except.ok.inj h
    unfold simplePush simplePlace at hpush
    split_ifs at hpush
    · cases hpush
      exact Or.inl rfl
    · cases hpush
      exact Or.inr ⟨_, _, _, rfl⟩
    · cases hpush
      exact Or.inr ⟨_, _, _, rfl⟩

section Declarator
variable {kind : CompoundKind} {alignment : ℤ} {info : TypeInfo} {f : Frame}
  {d d' : Declarator}

/-- What the two layouts have in common after a declarator. -/
structure DeclaratorTwin (fits : Prop) (f f' : Frame) (d d' : Declarator) :
    Prop where
  frame : f' = f.big
  little : f.Little
  twin : d.Twin d'
  holds : d.ByteWide
  mirrors : d.Mirrors d' ↔ fits

theorem pushBitfield_twin {bit bit' : BitfieldInfo} (hf : f.Little) (hd : d.Twin d')
    (hext : d.ext = .bitfield bit) (hext' : d'.ext = .bitfield bit')
    (halign : 0 ≤ i32 info.align) (hholds : d.ByteWide) :
    Related (fun q q' => DeclaratorTwin (FieldFits kind info f d) q.1 q'.1 q.2 q'.2)
      (pushBitfield kind info f d bit) (pushBitfield kind info f.big d' bit') := by
  have hbits : bit'.bits = bit.bits := by
    obtain ⟨b, hb, hpos⟩ := hd.bitfield hext
    have heq : b = bit' := DeclaratorExt.bitfield.inj (hb.symm.trans hext')
    rw [← heq, hpos]
  unfold pushBitfield
  rw [startBitfield_big]
  cases hstart : startBitfield kind f with
  | error e => trivial
  | ok bl =>
    have hbl := hf.start hstart
    have hparam : BLPushParam.Twin ⟨d, bit, info.item_size, info.align⟩
      ⟨d', bit', info.item_size, info.align⟩ := ⟨hd, hbits, rfl, rfl⟩
    have hpushes := push_twin hparam hext hbl.order hbl.ready hbl.max_align halign
      (hholds bit hext)
    have hfits : FieldFits kind info f d ↔ bl.PosFits ⟨d, bit, info.item_size, info.align⟩ := by
      constructor
      · exact fun hall => hall bit bl hext hstart
      · intro hpos b bl₁ hb hbl₁
        have heq : bit = b := DeclaratorExt.bitfield.inj (hext.symm.trans hb)
        have heq' : bl = bl₁ := Except.ok.inj (hstart.symm.trans hbl₁)
        exact heq ▸ heq' ▸ hpos
    apply hpushes.with_ok.bind
    rintro ⟨error, bl₁, d₁⟩ ⟨error', bl₁', d₁'⟩ ⟨htwin, hpush, -⟩
    obtain rfl : error' = error := htwin.error
    obtain rfl : bl₁' = bl₁.big := htwin.layouter
    cases error' with
    | bitfieldTooWide => trivial
    | noError =>
      have hbl₁ := hbl.of_like (BitfieldLayouter.push_like hpush) (htwin.ready rfl)
      have hd₁ : d₁.ByteWide := by
        rcases push_recorded hpush with hsame | ⟨offset, size, pos, hrecord⟩
        · exact hsame ▸ hholds
        · rw [hrecord]
          intro b hb
          cases hb
          exact hholds bit hext
      have hmirrors := (htwin.mirrors rfl).trans hfits.symm
      have hlittle : ({ f with bl := bl₁ } : Frame).Little := ⟨hbl₁, hf.align, hf.size⟩
      cases kind with
      | struct =>
        exact ⟨rfl, ⟨hbl₁, hf.align, hf.size⟩, htwin.twin rfl, hd₁, hmirrors⟩
      | union =>
        exact ⟨finishBitfield_big { f with bl := bl₁ }, hlittle.finish, htwin.twin rfl, hd₁,
          hmirrors⟩

theorem layoutDeclarator_bitfield {bit : BitfieldInfo} (offset : ℤ)
    (hext : d.ext = .bitfield bit) :
    layoutDeclarator kind alignment info f offset d =
      pushBitfield kind info (noteFlags f info d.isBitfield) d bit >>=
        fun r => .ok ((r.1, offset), r.2) := by
  unfold layoutDeclarator
  rw [hext]

/-- One declarator with each byte order. -/
theorem layoutDeclarator_twin (offset : ℤ) (hf : f.Little) (hd : d.Twin d')
    (halign : 0 ≤ i32 info.align) (hholds : d.ByteWide) :
    Related (fun q q' => q'.1.2 = q.1.2 ∧
        DeclaratorTwin (FieldFits kind info f d) q.1.1 q'.1.1 q.2 q'.2)
      (layoutDeclarator kind alignment info f offset d)
      (layoutDeclarator kind alignment info f.big offset d') := by
  have hnote : noteFlags f.big info d'.isBitfield = (noteFlags f info d.isBitfield).big := by
    rw [hd.isBitfield]
    rfl
  by_cases hbit : d.isBitfield = true
  · obtain ⟨bit, hext⟩ := Declarator.isBitfield_iff.mp hbit
    obtain ⟨bit', hext', -⟩ := hd.bitfield hext
    rw [layoutDeclarator_bitfield offset hext, layoutDeclarator_bitfield offset hext', hnote]
    apply (pushBitfield_twin (hf.note info d.isBitfield) hd hext hext' halign hholds).bind
    rintro ⟨f₁, d₁⟩ ⟨f₁', d₁'⟩ htwin
    exact ⟨rfl, htwin⟩
  · have hext (bit : BitfieldInfo) : d.ext ≠ .bitfield bit := fun hext =>
      hbit (Declarator.isBitfield_iff.mpr ⟨bit, hext⟩)
    obtain rfl := hd.plain hext
    rw [Bool.not_eq_true] at hbit
    rw [layoutDeclarator_ordinary hbit, layoutDeclarator_ordinary hbit]
    rw [hbit] at hnote
    rw [hnote, finishOpenBitfield_big, placeMember_big]
    have hopen := (hf.note info false).finishOpen
    cases hplace : placeMember kind alignment info
        (finishOpenBitfield (noteFlags f info false)) with
    | error e => trivial
    | ok r =>
      refine ⟨rfl, rfl, hopen.place hplace, .refl _, fun bit hb => absurd hb (hext bit), ?_⟩
      exact iff_of_true (fun bit _ hb => absurd hb (hext bit)) fun bit _ hb => absurd hb (hext bit)

end Declarator

section Query
variable {σ : Type} {query query' : TypeQuery σ} {R : σ → σ → Prop}

/-- The two layouts get the same answers about types. -/
def QueriesTwin (R : σ → σ → Prop) (query query' : TypeQuery σ) : Prop :=
  ∀ x x' f type d d', R x x' → f.Little → Option.Rel Declarator.Twin d d' →
    Related (fun q q' => R q.1 q'.1 ∧ q'.2.1 = q.2.1.big ∧ q'.2.2 = q.2.2 ∧ q.2.1.Little ∧
      0 ≤ i32 q.2.2.align) (query x f type d) (query' x' f.big type d')

/-- The declarator fits once its type information is known. -/
def DeclaratorFits (query : TypeQuery σ) (kind : CompoundKind) (type : TypeSpec)
    (acc : σ × Frame × ℤ) (d : Declarator) : Prop :=
  ∀ x bl info, query acc.1 acc.2.1 type (some d) = .ok (x, bl, info) →
    FieldFits kind info { acc.2.1 with bl := bl } d

/-- Every declarator of a declaration fits when it is reached. -/
def DeclarationFits (query : TypeQuery σ) (kind : CompoundKind) (alignment : ℤ)
    (acc : σ × Frame) (sd : StructDeclaration) : Prop :=
  ∀ ds, sd.declarators = some ds → AlongM (queryDeclarator query kind alignment sd.type)
    (DeclaratorFits query kind sd.type) (fun _ => True) (acc.1, acc.2, startOffset kind) ds

/-- Every bit-field of a compound fits when it is reached. -/
def StructFits (arch : NativeArch) (pLP : LayoutParam) (query : TypeQuery σ) (x : σ)
    (bl : BitfieldLayouter) (pStruct : Struct) : Prop :=
  ∀ sds, pStruct.declarations = some sds →
    AlongM (layoutDeclaration query pStruct.kind (structAlignment arch pLP pStruct))
      (DeclarationFits query pStruct.kind (structAlignment arch pLP pStruct)) (fun _ => True)
      (x, initialFrame arch pLP bl pStruct) sds

def StructDeclaration.ByteWide (sd : StructDeclaration) : Prop :=
  ∀ ds, sd.declarators = some ds → ∀ d ∈ ds, d.ByteWide

def Struct.ByteWide (pStruct : Struct) : Prop :=
  ∀ sds, pStruct.declarations = some sds → ∀ sd ∈ sds, sd.ByteWide

/-- The accumulators of the two layouts between two declarators. -/
structure AccTwin (R : σ → σ → Prop) (acc acc' : σ × Frame × ℤ) : Prop where
  state : R acc.1 acc'.1
  frame : acc'.2.1 = acc.2.1.big
  offset : acc'.2.2 = acc.2.2
  little : acc.2.1.Little

variable (kind : CompoundKind) (alignment : ℤ)

theorem queryDeclarator_twin (hquery : QueriesTwin R query query') (type : TypeSpec)
    {acc acc' : σ × Frame × ℤ} {d d' : Declarator} (hacc : AccTwin R acc acc')
    (hd : d.Twin d') (hholds : d.ByteWide) :
    Related (fun q q' => AccTwin R q.1 q'.1 ∧ (q.2.ByteWide ∧ q.2.Twin q'.2) ∧
        (q.2.Mirrors q'.2 ↔ DeclaratorFits query kind type acc d))
      (queryDeclarator query kind alignment type acc d)
      (queryDeclarator query' kind alignment type acc' d') := by
  obtain ⟨x, f, offset⟩ := acc
  obtain ⟨x', f', offset'⟩ := acc'
  obtain ⟨hR, hframe, hoffset, hf⟩ := hacc
  obtain rfl : f' = f.big := hframe
  obtain rfl : offset' = offset := hoffset
  have hask := hquery x x' f type (some d) (some d') hR hf (.some hd)
  apply hask.with_ok.bind
  rintro ⟨x₁, bl, info⟩ ⟨x₁', bl', info'⟩ ⟨⟨hR₁, hbl, hinfo, hlittle, halign⟩, hok, -⟩
  obtain rfl : bl' = bl.big := hbl
  obtain rfl : info' = info := hinfo
  have hf₁ : ({ f with bl := bl } : Frame).Little := ⟨hlittle, hf.align, hf.size⟩
  have hfits : FieldFits kind info' { f with bl := bl } d ↔
      DeclaratorFits query kind type (x, f, offset') d := by
    constructor
    · intro hfits x₂ bl₂ info₂ hok₂
      have heq : (x₁, bl, info') = (x₂, bl₂, info₂) := Except.ok.inj (hok.symm.trans hok₂)
      cases heq
      exact hfits
    · exact fun hall => hall x₁ bl info' hok
  apply (layoutDeclarator_twin offset' hf₁ hd halign hholds).bind
  rintro ⟨⟨f₂, o₂⟩, d₂⟩ ⟨⟨f₂', o₂'⟩, d₂'⟩ ⟨ho, htwin⟩
  exact ⟨⟨hR₁, htwin.frame, ho, htwin.little⟩, ⟨htwin.holds, htwin.twin⟩,
    htwin.mirrors.trans hfits⟩

theorem queryUnnamed_twin (hquery : QueriesTwin R query query') (type : TypeSpec)
    {acc acc' : σ × Frame × ℤ} (hacc : AccTwin R acc acc') :
    Related (AccTwin R) (queryUnnamed query kind alignment type acc)
      (queryUnnamed query' kind alignment type acc') := by
  obtain ⟨x, f, offset⟩ := acc
  obtain ⟨x', f', offset'⟩ := acc'
  obtain ⟨hR, hframe, hoffset, hf⟩ := hacc
  obtain rfl : f' = f.big := hframe
  obtain rfl : offset' = offset := hoffset
  have hask := hquery x x' (finishOpenBitfield f) type none none hR hf.finishOpen .none
  unfold queryUnnamed
  dsimp only
  rw [finishOpenBitfield_big]
  apply hask.bind
  rintro ⟨x₁, bl, info⟩ ⟨x₁', bl', info'⟩ ⟨hR₁, hbl, hinfo, hlittle, -⟩
  obtain rfl : bl' = bl.big := hbl
  obtain rfl : info' = info := hinfo
  have hf₁ : (noteFlags { finishOpenBitfield f with bl := bl } info' false).Little :=
    ⟨hlittle, hf.finishOpen.align, hf.finishOpen.size⟩
  have hplaceBig := placeMember_big kind alignment info'
    (noteFlags { finishOpenBitfield f with bl := bl } info' false)
  show Related _ (placeMember kind alignment info' _ >>= _)
    (placeMember kind alignment info'
      (noteFlags { finishOpenBitfield f with bl := bl } info' false).big >>= _)
  rw [hplaceBig]
  cases hplace : placeMember kind alignment info'
      (noteFlags { finishOpenBitfield f with bl := bl } info' false) with
  | error e => trivial
  | ok r => exact ⟨hR₁, rfl, rfl, hf₁.place hplace⟩

/-- The lists of declarators of the two layouts. -/
theorem queryMembers_twin (hquery : QueriesTwin R query query')
    {sd sd' : StructDeclaration} (hsd : sd.Twin sd') (hholds : sd.ByteWide) {x x' : σ}
    {f : Frame} (hacc : AccTwin R (x, f, startOffset kind) (x', f.big, startOffset kind)) :
    Related (fun q q' => AccTwin R q.1 q'.1 ∧
        ((∀ ds, q.2 = some ds → ∀ d ∈ ds, d.ByteWide) ∧
          Option.Rel (List.Forall₂ Declarator.Twin) q.2 q'.2) ∧
        ((∀ ds ds', q.2 = some ds → q'.2 = some ds' → List.Forall₂ Declarator.Mirrors ds ds') ↔
          DeclarationFits query kind alignment (x, f) sd))
      (queryMembers query kind alignment sd (x, f, startOffset kind))
      (queryMembers query' kind alignment sd' (x', f.big, startOffset kind)) := by
  obtain ⟨type, declarators, offset, size⟩ := sd
  have htype := congrArg StructDeclaration.type hsd.fields
  have hdecls := hsd.declarators
  unfold queryMembers DeclarationFits
  rw [htype]
  dsimp only at hdecls ⊢
  generalize sd'.declarators = declarators' at hdecls ⊢
  cases hdecls with
  | none =>
    apply (queryUnnamed_twin kind alignment hquery type hacc).bind
    intro acc acc' hacc'
    exact ⟨hacc', ⟨nofun, .none⟩, iff_of_true nofun nofun⟩
  | @some ds ds' hds =>
    have hin : List.Forall₂ (fun d d' => d.ByteWide ∧ d.Twin d') ds ds' :=
      (List.forall₂_and_left _ _).mpr ⟨hholds ds rfl, hds⟩
    have hstep (d d' : Declarator) (acc acc' : σ × Frame × ℤ) (hd : d.ByteWide ∧ d.Twin d')
        (hacc' : AccTwin R acc acc') :=
      queryDeclarator_twin kind alignment hquery type hacc' hd.2 hd.1
    have hrun := related_along (C := fun d d' => d.ByteWide ∧ d.Twin d')
      (M := Declarator.Mirrors) hstep hin hacc
    apply hrun.bind
    rintro ⟨acc₁, ds₁⟩ ⟨acc₁', ds₁'⟩ ⟨hacc₁, hds₁, hmirrors⟩
    obtain ⟨hholds₁, htwin₁⟩ := (List.forall₂_and_left _ _).mp hds₁
    refine ⟨hacc₁, ⟨?_, .some htwin₁⟩, ?_⟩
    · intro ds hsome
      cases hsome
      exact hholds₁
    · constructor
      · intro hall ds hsome
        cases hsome
        exact hmirrors.mp (hall ds₁ ds₁' rfl rfl)
      · intro hall es es' hsome hsome'
        cases hsome
        cases hsome'
        exact hmirrors.mpr (hall ds rfl)

/-- The accumulators of the two layouts between two declarations. -/
structure FrameTwin (R : σ → σ → Prop) (acc acc' : σ × Frame) : Prop where
  state : R acc.1 acc'.1
  frame : acc'.2 = acc.2.big
  little : acc.2.Little

/-- One declaration with each byte order. -/
theorem layoutDeclaration_twin (hquery : QueriesTwin R query query') {acc acc' : σ × Frame}
    {sd sd' : StructDeclaration} (hacc : FrameTwin R acc acc') (hsd : sd.Twin sd')
    (hholds : sd.ByteWide) :
    Related (fun q q' => FrameTwin R q.1 q'.1 ∧ (q.2.ByteWide ∧ q.2.Twin q'.2) ∧
        (q.2.Mirrors q'.2 ↔ DeclarationFits query kind alignment acc sd))
      (layoutDeclaration query kind alignment acc sd)
      (layoutDeclaration query' kind alignment acc' sd') := by
  obtain ⟨x, f⟩ := acc
  obtain ⟨x', f'⟩ := acc'
  obtain ⟨hR, hframe, hf⟩ := hacc
  obtain rfl : f' = f.big := hframe
  have hstart : AccTwin R (x, f, startOffset kind) (x', f.big, startOffset kind) :=
    ⟨hR, rfl, rfl, hf⟩
  apply (queryMembers_twin kind alignment hquery hsd hholds hstart).bind
  rintro ⟨⟨x₁, f₁, o₁⟩, ds₁⟩ ⟨⟨x₁', f₁', o₁'⟩, ds₁'⟩ ⟨hacc₁, ⟨hholds₁, htwin₁⟩, hmirrors⟩
  obtain ⟨hR₁, hframe₁, hoffset₁, hf₁⟩ := hacc₁
  obtain rfl : f₁' = f₁.big := hframe₁
  obtain rfl : o₁' = o₁ := hoffset₁
  refine ⟨⟨hR₁, rfl, hf₁⟩, ⟨hholds₁, ?_, htwin₁⟩, hmirrors⟩
  rw [hsd.fields]
  rfl

omit kind alignment in
/-- The end of a compound with each byte order. -/
theorem finishStruct_twin {f : Frame} (hf : f.Little) {pStruct pStruct' : Struct}
    (hstruct : pStruct.Twin pStruct') {sds sds' : List StructDeclaration}
    (hsds : List.Forall₂ StructDeclaration.Twin sds sds') :
    Related (fun q q' => (q'.1 = q.1.big ∧ q.1.Little) ∧ q.2.Twin q'.2 ∧
        q.2.declarations = some sds ∧ q'.2.declarations = some sds' ∧ q.2.pack = pStruct.pack ∧
        (0 ≤ q.2.align ∧ q.2.align < 65536) ∧ 0 ≤ q.2.size)
      (finishStruct f pStruct sds) (finishStruct f.big pStruct' sds') := by
  have hopen := hf.finishOpen
  unfold finishStruct
  rw [finishOpenBitfield_big]
  dsimp only
  have halign : (finishOpenBitfield f).big.align = (finishOpenBitfield f).align := rfl
  rw [halign]
  by_cases hzero : (finishOpenBitfield f).align = 0
  · rw [if_pos hzero, if_pos hzero]
    trivial
  · rw [if_neg hzero, if_neg hzero]
    refine ⟨⟨rfl, hopen.bl⟩, ⟨?_, .some hsds⟩, rfl, rfl, rfl, hopen.align, ?_⟩
    · rw [hstruct.fields]
      rfl
    · show 0 ≤ paddedSize (finishOpenBitfield f).size (finishOpenBitfield f).align
      unfold paddedSize
      split_ifs
      · exact u32_nonneg _
      · exact hopen.size

omit kind alignment in
/-- A compound with each byte order. -/
theorem layoutStruct_twin {arch : NativeArch} {pLP : LayoutParam} {x x' : σ}
    {bl bl' : BitfieldLayouter} {pStruct pStruct' : Struct} (hquery : QueriesTwin R query query')
    (hR : R x x') (hstruct : pStruct.Twin pStruct') (hbody : pStruct.declarations.isSome)
    (hholds : pStruct.ByteWide) (hsize : 0 ≤ pStruct.size)
    (halign : 0 ≤ structAlignment arch pLP pStruct) (hlittle : pLP.byte_order = .littleEndian)
    (hbl : bl'.big = bl.big) (hready : bl.Ready) :
    Related (fun q q' => R q.1 q'.1 ∧ (q'.2.1 = q.2.1.big ∧ q.2.1.Little) ∧
        (q.2.2.Twin q'.2.2 ∧ q.2.2.ByteWide ∧ q.2.2.pack = pStruct.pack ∧
          (0 ≤ q.2.2.align ∧ q.2.2.align < 65536) ∧ 0 ≤ q.2.2.size) ∧
        (q.2.2.Mirrors q'.2.2 ↔ StructFits arch pLP query x bl pStruct))
      (layoutStruct arch pLP query x bl pStruct)
      (layoutStruct arch { pLP with byte_order := .bigEndian } query' x' bl' pStruct') := by
  obtain ⟨sds, hsds⟩ := Option.isSome_iff_exists.mp hbody
  have hkind : pStruct'.kind = pStruct.kind := by rw [hstruct.fields]
  have hpack : structAlignment arch { pLP with byte_order := .bigEndian } pStruct' =
      structAlignment arch pLP pStruct := by
    rw [hstruct.fields]
    rfl
  have hframe : initialFrame arch { pLP with byte_order := .bigEndian } bl' pStruct' =
      (initialFrame arch pLP bl pStruct).big := by
    -- only the byte orders of the two layouters differ
    obtain ⟨blc', order', max', align', offset'⟩ := bl'
    obtain ⟨class', order, max_align, align, offset⟩ := bl
    simp only [BitfieldLayouter.big, BitfieldLayouter.mk.injEq, true_and] at hbl
    obtain ⟨rfl, rfl, rfl, rfl⟩ := hbl
    rw [hstruct.fields]
    rfl
  have hf : (initialFrame arch pLP bl pStruct).Little :=
    { bl := ⟨hlittle, halign, hready⟩
      align := u16_range _
      size := hsize }
  obtain ⟨sds', hsds', hall⟩ : ∃ sds', pStruct'.declarations = some sds' ∧
      List.Forall₂ StructDeclaration.Twin sds sds' := by
    have hdecls := hstruct.declarations
    rw [hsds] at hdecls
    generalize pStruct'.declarations = declarations at hdecls
    cases hdecls with
    | some hall => exact ⟨_, rfl, hall⟩
  have hin : List.Forall₂ (fun sd sd' => sd.ByteWide ∧ sd.Twin sd') sds sds' :=
    (List.forall₂_and_left _ _).mpr ⟨hholds sds hsds, hall⟩
  have hstep (sd sd' : StructDeclaration) (acc acc' : σ × Frame) (hsd : sd.ByteWide ∧ sd.Twin sd')
      (hacc : FrameTwin R acc acc') :=
    layoutDeclaration_twin pStruct.kind (structAlignment arch pLP pStruct) hquery hacc hsd.2 hsd.1
  have hstart : FrameTwin R (x, initialFrame arch pLP bl pStruct)
    (x', (initialFrame arch pLP bl pStruct).big) := ⟨hR, rfl, hf⟩
  have hrun := related_along (C := fun sd sd' => sd.ByteWide ∧ sd.Twin sd')
    (M := StructDeclaration.Mirrors) hstep hin hstart
  unfold layoutStruct StructFits
  rw [hsds, hsds', hkind, hpack, hframe]
  apply hrun.bind
  rintro ⟨⟨x₁, f₁⟩, sds₁⟩ ⟨⟨x₁', f₁'⟩, sds₁'⟩ ⟨⟨hR₁, hframe₁, hf₁⟩, hsds₁, hmirrors⟩
  obtain rfl : f₁' = f₁.big := hframe₁
  obtain ⟨hholds₁, htwin₁⟩ := (List.forall₂_and_left _ _).mp hsds₁
  apply (finishStruct_twin hf₁ hstruct htwin₁).bind
  rintro ⟨bl₂, p₂⟩ ⟨bl₂', p₂'⟩ ⟨hbl₂, htwin₂, hd₂, hd₂', hfields₂⟩
  refine ⟨hR₁, hbl₂, ⟨htwin₂, ?_, hfields₂⟩, ?_⟩
  · intro sds hsome
    rw [hd₂] at hsome
    cases hsome
    exact hholds₁
  · constructor
    · intro hall sds hsome
      cases hsome
      exact hmirrors.mp (hall sds₁ sds₁' hd₂ hd₂')
    · intro hall es es' hsome hsome'
      obtain rfl : sds₁ = es := Option.some.inj (hd₂.symm.trans hsome)
      obtain rfl : sds₁' = es' := Option.some.inj (hd₂'.symm.trans hsome')
      exact hmirrors.mpr (hall sds rfl)

end Query

end ConvertBinaryC
