import ConvertBinaryC.CTLibExactBitfields
import ConvertBinaryC.CTLibGenericRule

/-! The layout of one compound, as the code computes it and in integers: if what is stored
in the end fits its fields, no conversion on the way has changed a number. -/
namespace ConvertBinaryC
open FoldRules BitCounterRules

/-- Type information as the code has it, beside the exact one: the sizes agree as far as
an unsigned can tell. -/
structure SameInfo (info exact : TypeInfo) : Prop where
  size : info.size ≡ exact.size [ZMOD 4294967296]
  item_size : info.item_size ≡ exact.item_size [ZMOD 4294967296]
  nonneg : 0 ≤ info.size
  lt : info.size < 4294967296
  exact_nonneg : 0 ≤ exact.size
  align : info.align = exact.align
  align_pos : 0 < exact.align
  align_lt : exact.align < 65536
  hasBitfield : info.hasBitfield = exact.hasBitfield
  riskyVal : info.riskyVal = exact.riskyVal
  noStructDecl : info.noStructDecl = exact.noStructDecl

/-- The frame of a layout in integers, as long as nothing has left its range. -/
structure FrameSound (kind : CompoundKind) (f : Frame) : Prop where
  size_nonneg : 0 ≤ f.size
  size_lt : f.size < 4294967296
  align_pos : 0 < f.align
  align_lt : f.align < 65536
  narrow : f.bl.Narrow
  union : kind = .union → f.in_bitfield = false

section Step
variable {rule : ExactRule} {kind : CompoundKind} {alignment offset offset' pos : ℤ}
  {info exact : TypeInfo} {f f' : Frame} {pDecl pDecl' : Declarator} {bit : BitfieldInfo}

theorem SameInfo.size_eq (h : SameInfo info exact) (hlt : exact.size < 4294967296) :
    info.size = exact.size := by
  have hmod : info.size % 4294967296 = exact.size % 4294967296 := h.size
  rwa [Int.emod_eq_of_lt h.nonneg h.lt, Int.emod_eq_of_lt h.exact_nonneg hlt] at hmod

theorem SameInfo.noteFlags (h : SameInfo info exact) (f : Frame) (bitfield_flag : Bool) :
    noteFlags f info bitfield_flag = ConvertBinaryC.noteFlags f exact bitfield_flag := by
  unfold ConvertBinaryC.noteFlags
  rw [h.hasBitfield, h.riskyVal]

theorem FrameSound.noteFlags (h : FrameSound kind f) (info : TypeInfo)
    (bitfield_flag : Bool) : FrameSound kind (noteFlags f info bitfield_flag) :=
  { h with }

/-- What is kept through the end of a run. -/
theorem exactFinish_ok (h : exactFinish rule kind f = .ok f') :
    0 < f'.align ∧ f'.align < 65536 ∧ f'.bl = f.bl.finalize ∧ f'.in_bitfield = f.in_bitfield := by
  unfold exactFinish at h
  dsimp only at h
  split_ifs at h with hbad
  cases h
  exact ⟨by dsimp only; omega, by dsimp only; omega, rfl, rfl⟩

/-- The end of a run of bit-fields under the rule of the code, if its size is one. -/
theorem finishBitfield_exact (hf : FrameSound kind f) (h : exactFinish .coded kind f = .ok f')
    (hlt : f'.size < 4294967296) :
    finishBitfield f = f' ∧ FrameSound kind f' ∧ f'.in_bitfield = f.in_bitfield := by
  obtain ⟨hpos, halign, hbl, hopen⟩ := exactFinish_ok h
  unfold exactFinish at h
  dsimp only at h
  split_ifs at h with hbad
  have hsize : f'.size = f.bl.finalize.offset := by
    cases h
    cases kind <;> rfl
  have hnonneg : 0 ≤ f'.size := by omega
  have hu32 : u32 f.bl.finalize.offset = f'.size := by
    rw [← hsize]
    exact u32_of_lt hnonneg hlt
  have hu16 : u16 f.bl.finalize.align = f'.align := by
    cases h
    exact u16_of_lt hpos.le halign
  refine ⟨?_, ?_, hopen⟩
  · unfold finishBitfield
    dsimp only
    rw [hu32, hu16]
    cases h
    rfl
  · exact
      { size_nonneg := hnonneg
        size_lt := hlt
        align_pos := hpos
        align_lt := halign
        narrow := hbl ▸ hf.narrow.of_like f.bl.finalize_like
        union := fun hkind => hopen.trans (hf.union hkind) }

theorem finishOpenBitfield_exact (hf : FrameSound kind f)
    (h : exactFinishOpen .coded kind f = .ok f') (hlt : f'.size < 4294967296) :
    finishOpenBitfield f = f' ∧ FrameSound kind f' ∧ f'.in_bitfield = false := by
  unfold exactFinishOpen at h
  unfold finishOpenBitfield
  by_cases hopen : f.in_bitfield = true
  · rw [if_pos hopen] at h ⊢
    obtain ⟨g, hg, h⟩ := bind_ok h
    cases h
    obtain ⟨hfinish, hsound, -⟩ := finishBitfield_exact hf hg hlt
    rw [hfinish]
    exact ⟨rfl, { hsound with union := fun _ => rfl }, rfl⟩
  · rw [if_neg hopen] at h ⊢
    cases h
    exact ⟨rfl, hf, Bool.eq_false_iff.mpr hopen⟩

theorem exactFinishOpen_align (hf : FrameSound kind f)
    (h : exactFinishOpen rule kind f = .ok f') : 0 < f'.align := by
  unfold exactFinishOpen at h
  split_ifs at h
  · obtain ⟨g, hg, h⟩ := bind_ok h
    cases h
    exact (exactFinish_ok hg).1
  · cases h
    exact hf.align_pos

/-- In a union no run is open. -/
theorem exactFinishOpen_union (hf : FrameSound .union f)
    (h : exactFinishOpen rule .union f = .ok f') : f' = f := by
  have hclosed : ¬ f.in_bitfield = true := by
    rw [hf.union rfl]
    exact Bool.false_ne_true
  rw [exactFinishOpen, if_neg hclosed] at h
  exact (Except.ok.inj h).symm

theorem le_roundUp (n : ℤ) {a : ℤ} (ha : 0 < a) : n ≤ roundUp n a := (roundUp_isLeast n ha).1.1

/-- A member is placed behind what is there, and it is as long as its type. -/
theorem exactPlace_size (hsize : 0 ≤ exact.size)
    (h : exactPlace kind alignment exact f = .ok (pos, f')) :
    f.size ≤ f'.size ∧ exact.size ≤ f'.size - pos ∧
      (kind = .struct → f.size ≤ pos ∧ f'.size = pos + exact.size) ∧
      (kind = .union → pos = 0 ∧ f'.size = max f.size exact.size) := by
  unfold exactPlace at h
  dsimp only at h
  cases kind with
  | struct =>
    dsimp only at h
    split_ifs at h with hpos
    cases h
    have hround := le_roundUp f.size (not_le.mp hpos)
    dsimp only
    refine ⟨by omega, by omega, fun _ => ⟨hround, rfl⟩, fun hkind => nomatch hkind⟩
  | union =>
    cases h
    dsimp only
    refine ⟨le_max_left _ _, ?_, fun hkind => (nomatch hkind), fun _ => ⟨rfl, rfl⟩⟩
    rw [sub_zero]
    exact le_max_right _ _

theorem placeMember_exact (halign : 0 < alignment) (halignLt : alignment < 65536)
    (hf : FrameSound kind f) (hinfo : SameInfo info exact)
    (h : exactPlace kind alignment exact f = .ok (pos, f')) (hlt : f'.size < 4294967296) :
    placeMember kind alignment info f = .ok (pos, f') ∧ FrameSound kind f' := by
  have hsize := exactPlace_size hinfo.exact_nonneg h
  have hnonneg := hf.size_nonneg
  have hpos : 0 ≤ pos := by
    cases kind with
    | struct => exact hnonneg.trans (hsize.2.2.1 rfl).1
    | union => exact (hsize.2.2.2 rfl).1.ge
  have hinfoSize : info.size = exact.size := hinfo.size_eq (by omega)
  have hmin : 0 < min exact.align alignment := lt_min hinfo.align_pos halign
  have hreduced : (if info.align > alignment then alignment else info.align) =
      min exact.align alignment := by
    rw [hinfo.align]
    split_ifs <;> omega
  have hraised : (if min exact.align alignment > f.align then u16 (min exact.align alignment)
      else f.align) = max f.align (min exact.align alignment) := by
    rw [u16_of_lt hmin.le (by omega)]
    split_ifs <;> omega
  have hfAlign := hf.align_pos
  have hfLt := hf.align_lt
  unfold exactPlace at h
  unfold placeMember
  dsimp only at h ⊢
  rw [hreduced, hraised, hinfoSize]
  cases kind with
  | struct =>
    dsimp only at h ⊢
    rw [if_neg (not_le.mpr hmin)] at h
    rw [if_neg hmin.ne']
    cases h
    have hround := le_roundUp f.size hmin
    have hexact := hinfo.exact_nonneg
    dsimp only at hlt
    have hpadded : paddedSize f.size (min exact.align alignment) =
        roundUp f.size (min exact.align alignment) :=
      paddedSize_eq_roundUp hnonneg (by omega) hmin
    rw [hpadded, u32_of_lt (by omega) hlt]
    refine ⟨rfl, ?_⟩
    exact
      { hf with
        size_nonneg := by dsimp only; omega
        size_lt := hlt
        align_pos := by dsimp only; omega
        align_lt := by dsimp only; omega }
  | union =>
    cases h
    dsimp only at hlt ⊢
    have hmax : (if exact.size > f.size then exact.size else f.size) = max f.size exact.size := by
      split_ifs <;> omega
    rw [hmax]
    refine ⟨rfl, ?_⟩
    exact
      { hf with
        size_nonneg := by dsimp only; omega
        size_lt := hlt
        align_pos := by dsimp only; omega
        align_lt := by dsimp only; omega }

theorem startBitfield_narrow {bl : BitfieldLayouter} (hf : FrameSound kind f)
    (h : startBitfield kind f = .ok bl) : bl.Narrow := by
  unfold startBitfield at h
  by_cases hopen : f.in_bitfield = true
  · rw [if_pos hopen] at h
    cases h
    exact hf.narrow
  · rw [if_neg hopen] at h
    obtain ⟨bl', hreset, h⟩ := bind_ok h
    cases h
    have hnarrow := hf.narrow.of_like (BitfieldLayouter.reset_like hreset)
    exact ⟨hnarrow.nonneg, hnarrow.lt⟩

/-- In a union each field starts with a layouter that has just been reset. -/
theorem startBitfield_union {bl bl' : BitfieldLayouter} {p : BLPushParam}
    (hf : FrameSound .union f) (h : startBitfield .union f = .ok bl)
    (halign : 0 ≤ i32 p.type_align) (hpush : bl.push p = .ok (.noError, bl', pDecl)) :
    bl'.finalize.offset < 4294967296 := by
  have hnarrow := startBitfield_narrow hf h
  have hclosed : ¬ f.in_bitfield = true := by
    rw [hf.union rfl]
    exact Bool.false_ne_true
  unfold startBitfield at h
  rw [if_neg hclosed] at h
  obtain ⟨reset, hreset, h⟩ := bind_ok h
  cases h
  have hunit : ∀ u, reset.blc = .generic u ∨ reset.blc = .microsoft u → u = unitInit := by
    intro u hu
    unfold BitfieldLayouter.reset at hreset
    cases hblc : f.bl.blc with
    | generic v =>
      rw [hblc] at hreset
      cases hreset
      rcases hu with hu | hu
      · exact (BLClass.generic.inj hu).symm
      · exact nomatch hu
    | microsoft v =>
      rw [hblc] at hreset
      cases hreset
      rcases hu with hu | hu
      · exact nomatch hu
      · exact (BLClass.microsoft.inj hu).symm
    | simple b =>
      rw [hblc] at hreset
      dsimp only [simpleReset] at hreset
      split_ifs at hreset
      obtain ⟨block_bits, -, hreset⟩ := bind_ok hreset
      cases hreset
      rcases hu with hu | hu
      · exact nomatch hu
      · exact nomatch hu
  have hblock : ∀ b, reset.blc = .simple b → b.pos = 0 := by
    intro b hb
    unfold BitfieldLayouter.reset at hreset
    cases hblc : f.bl.blc with
    | generic v =>
      rw [hblc] at hreset
      cases hreset
      exact nomatch hb
    | microsoft v =>
      rw [hblc] at hreset
      cases hreset
      exact nomatch hb
    | simple c =>
      rw [hblc] at hreset
      dsimp only [simpleReset] at hreset
      split_ifs at hreset
      obtain ⟨block_bits, -, hreset⟩ := bind_ok hreset
      cases hreset
      cases hb
      rfl
  exact BitfieldLayouter.single_lt hnarrow hunit hblock rfl halign hpush

theorem pushBitfield_exact (hf : FrameSound kind f) (hinfo : SameInfo info exact)
    (h : exactPush .coded kind exact f pDecl bit = .ok (f', pDecl'))
    (hfits : ∀ v ∈ pDecl'.stored, v.Fits) :
    pushBitfield kind info f pDecl bit = .ok (f', pDecl') ∧ FrameSound kind f' := by
  obtain ⟨bl, hstart, h⟩ := bind_ok h
  obtain ⟨⟨error, bl', d⟩, hpush, h⟩ := bind_ok h
  have hnarrow := startBitfield_narrow hf hstart
  have halign : 0 ≤ i32 exact.align := by
    rw [i32_of_lt (by linarith [hinfo.align_pos]) (by linarith [hinfo.align_lt])]
    exact hinfo.align_pos.le
  -- the layouter reads the same size of the type
  have hpush' : bl.push ⟨pDecl, bit, info.item_size, info.align⟩ = .ok (error, bl', d) := by
    rw [hinfo.align, bl.push_congr pDecl bit exact.align (i32_congr hinfo.item_size)]
    exact hpush
  cases error with
  | bitfieldTooWide => exact nomatch h
  | noError =>
    have hnarrow' := hnarrow.of_like (BitfieldLayouter.push_like hpush)
    have hrecord : (if bit.bits = 0 then d else bl'.exactRecord d) = pDecl' → d = pDecl' := by
      intro hd
      by_cases hbits : bit.bits = 0
      · rwa [if_pos hbits] at hd
      · rw [if_neg hbits] at hd
        subst hd
        exact (BitfieldLayouter.push_exactRecord hbits hpush hfits).symm
    dsimp only at h
    unfold pushBitfield
    rw [hstart, call_bind_apply, hpush', call_bind_apply]
    cases kind with
    | struct =>
      cases h
      rw [← hrecord rfl]
      exact ⟨rfl, { hf with narrow := hnarrow', union := fun hkind => nomatch hkind }⟩
    | union =>
      obtain ⟨g, hfinish, h⟩ := bind_ok h
      cases h
      rw [← hrecord rfl]
      have hlt : f'.size < 4294967296 := by
        have hend := startBitfield_union hf hstart halign hpush
        unfold exactFinish at hfinish
        dsimp only at hfinish
        split_ifs at hfinish
        cases hfinish
        exact hend
      have hsound : FrameSound .union { f with bl := bl' } :=
        { hf with narrow := hnarrow' }
      obtain ⟨hcode, hg, -⟩ := finishBitfield_exact hsound hfinish hlt
      dsimp only
      rw [hcode]
      exact ⟨rfl, hg⟩

/-- What is stored in an ordinary declarator. -/
theorem Declarator.stored_placed (h : pDecl.isBitfield = false) (offset size item_size : ℤ) :
    ({ pDecl with offset := offset, size := size, item_size := item_size } : Declarator).stored =
      [⟨.declaratorOffset, offset⟩, ⟨.int, size⟩, ⟨.int, item_size⟩] := by
  obtain ⟨_, _, _, _, _, ext, _⟩ := pDecl
  cases ext with
  | plain => rfl
  | array dims => rfl
  | bitfield bit => exact nomatch h

theorem exactDeclarator_ordinary (h : pDecl.isBitfield = false) :
    exactDeclarator rule kind alignment exact f offset pDecl =
      exactFinishOpen rule kind (ConvertBinaryC.noteFlags f exact false) >>= fun f =>
        exactPlace kind alignment exact f >>= fun r =>
          .ok ((r.2, if offset < 0 then r.1 else offset), { pDecl with
            offset := r.1, size := exact.size, item_size := exact.item_size }) := by
  obtain ⟨_, _, _, _, _, ext, _⟩ := pDecl
  cases ext with
  | plain => rfl
  | array dims => rfl
  | bitfield bit => exact nomatch h

/-- A declarator of exactly known type information. -/
theorem layoutDeclarator_exact (halign : 0 < alignment) (halignLt : alignment < 65536)
    (hf : FrameSound kind f) (hinfo : SameInfo info exact)
    (h : exactDeclarator .coded kind alignment exact f offset pDecl = .ok ((f', offset'), pDecl'))
    (hfits : ∀ v ∈ pDecl'.stored, v.Fits) :
    layoutDeclarator kind alignment info f offset pDecl = .ok ((f', offset'), pDecl') ∧
      FrameSound kind f' := by
  by_cases hbit : pDecl.isBitfield = true
  · have hnote := hf.noteFlags exact true
    obtain ⟨bit, hext⟩ := Declarator.isBitfield_iff.mp hbit
    unfold exactDeclarator at h
    unfold layoutDeclarator
    rw [hbit] at h ⊢
    simp only [hext] at h ⊢
    obtain ⟨⟨f₁, d⟩, hpush, h⟩ := bind_ok h
    cases h
    obtain ⟨hcode, hf₁⟩ := pushBitfield_exact hnote hinfo hpush hfits
    rw [hinfo.noteFlags, hcode]
    exact ⟨rfl, hf₁⟩
  · rw [Bool.not_eq_true] at hbit
    have hnote := hf.noteFlags exact false
    rw [exactDeclarator_ordinary hbit] at h
    obtain ⟨f₁, hfinish, h⟩ := bind_ok h
    obtain ⟨⟨pos, f₂⟩, hplace, h⟩ := bind_ok h
    cases h
    have hsize := exactPlace_size hinfo.exact_nonneg hplace
    rw [Declarator.stored_placed hbit] at hfits
    have hpos : (⟨.declaratorOffset, pos⟩ : Stored).Fits := hfits _ (by simp)
    have hint : (⟨.int, exact.size⟩ : Stored).Fits := hfits _ (by simp)
    have hitem : (⟨.int, exact.item_size⟩ : Stored).Fits := hfits _ (by simp)
    obtain ⟨hpos0, hposLt⟩ := hpos
    obtain ⟨hint0, hintLt⟩ := hint
    obtain ⟨hitem0, hitemLt⟩ := hitem
    simp only [Field.bound] at hpos0 hposLt hint0 hintLt hitem0 hitemLt
    -- the sizes on the way are below the end of the member
    have hrange : f₁.size < 4294967296 ∧ f₂.size < 4294967296 := by
      cases kind with
      | struct =>
        obtain ⟨hle, heq⟩ := hsize.2.2.1 rfl
        omega
      | union =>
        obtain ⟨-, heq⟩ := hsize.2.2.2 rfl
        rw [exactFinishOpen_union hnote hfinish] at heq ⊢
        have hlt := hnote.size_lt
        omega
    obtain ⟨hcode, hf₁, -⟩ := finishOpenBitfield_exact hnote hfinish hrange.1
    obtain ⟨hcode', hf₂⟩ := placeMember_exact halign halignLt hf₁ hinfo hplace hrange.2
    have hsize32 : i32 info.size = exact.size := by
      rw [i32_congr hinfo.size, i32_of_lt (by omega) hintLt]
    have hitem32 : i32 info.item_size = exact.item_size := by
      rw [i32_congr hinfo.item_size, i32_of_lt (by omega) hitemLt]
    have hpos32 : i32 pos = pos := i32_of_lt (by omega) (by omega)
    have hpos29 : s29 pos = pos := s29_of_lt (by omega) hposLt
    rw [layoutDeclarator_ordinary hbit, hinfo.noteFlags, hcode, hcode', call_bind_apply]
    dsimp only
    rw [hsize32, hitem32, hpos32, hpos29]
    exact ⟨rfl, hf₂⟩

end Step

/-- Questions about types that are answered alike in both layouts. `I` holds before each
question; `B` is known after the last one and carried back to each. -/
structure QueriesAgree {σ : Type} (kind : CompoundKind) (I B : σ → Prop)
    (code exact : TypeQuery σ) : Prop where
  back : ∀ x f type pDecl x' bl known, exact x f type pDecl = .ok (x', bl, known) → B x' → B x
  nonneg : ∀ x f type pDecl x' bl known, exact x f type pDecl = .ok (x', bl, known) →
    0 ≤ known.size
  step : ∀ x f type pDecl x' bl known, I x → FrameSound kind f →
    exact x f type pDecl = .ok (x', bl, known) → B x' →
    ∃ info, code x f type pDecl = .ok (x', bl, info) ∧ SameInfo info known ∧ I x' ∧
      bl.Narrow

theorem exactQueryDeclarator_back {σ : Type} {rule : ExactRule} {B : σ → Prop} {query : TypeQuery σ}
    {kind : CompoundKind} {alignment : ℤ} {type : TypeSpec} (hback : ∀ x f type pDecl x' bl info,
      query x f type pDecl = .ok (x', bl, info) → B x' → B x)
    {acc acc' : σ × Frame × ℤ} {pDecl pDecl' : Declarator}
    (h : exactQueryDeclarator rule kind alignment query type acc pDecl = .ok (acc', pDecl'))
    (hB : B acc'.1) : B acc.1 := by
  obtain ⟨⟨x₁, bl, info⟩, hask, h⟩ := bind_ok h
  obtain ⟨⟨⟨f₁, offset⟩, d⟩, -, h⟩ := bind_ok h
  cases h
  exact hback _ _ _ _ _ _ _ hask hB

/-- Whatever a question carries back to the state before it, a declaration does. -/
theorem exactDeclaration_back {σ : Type} {rule : ExactRule} {B : σ → Prop} {query : TypeQuery σ} {kind : CompoundKind}
    {alignment : ℤ} (hback : ∀ x f type pDecl x' bl info,
      query x f type pDecl = .ok (x', bl, info) → B x' → B x)
    {acc acc' : σ × Frame} {pStructDecl pStructDecl' : StructDeclaration}
    (h : exactDeclaration rule kind alignment query acc pStructDecl = .ok (acc', pStructDecl'))
    (hB : B acc'.1) : B acc.1 := by
  obtain ⟨⟨⟨x₁, f₁, offset⟩, declarators⟩, hmembers, h⟩ := bind_ok h
  cases h
  unfold exactQueryMembers at hmembers
  cases hdecl : pStructDecl.declarators with
  | none =>
    rw [hdecl] at hmembers
    obtain ⟨acc₁, hunnamed, hmembers⟩ := bind_ok hmembers
    cases hmembers
    obtain ⟨f₂, -, hunnamed⟩ := bind_ok hunnamed
    obtain ⟨⟨x₂, bl, info⟩, hask, hunnamed⟩ := bind_ok hunnamed
    obtain ⟨⟨pos, f₃⟩, -, hunnamed⟩ := bind_ok hunnamed
    cases hunnamed
    exact hback _ _ _ _ _ _ _ hask hB
  | some ds =>
    rw [hdecl] at hmembers
    obtain ⟨⟨acc₁, ds'⟩, hrun, hmembers⟩ := bind_ok hmembers
    cases hmembers
    have hcarry := @mapAccumM_rel _ _ _ _ (exactQueryDeclarator rule kind alignment query pStructDecl.type)
      (fun acc acc' => B acc'.1 → B acc.1) (fun _ => id) (fun _ _ _ h h' hB => h (h' hB))
      (by
        intro acc₁ d acc₂ d' hstep hB₂
        exact exactQueryDeclarator_back hback hstep hB₂)
      _ _ _ _ hrun
    exact hcarry hB

section Query
variable {σ : Type} {kind : CompoundKind} {alignment : ℤ} {I B : σ → Prop}
  {code exact : TypeQuery σ} (hquery : QueriesAgree kind I B code exact)
  {x x' : σ} {f f' : Frame} {offset offset' : ℤ} {type : TypeSpec}

theorem FrameSound.asked {bl : BitfieldLayouter} (hf : FrameSound kind f) (hbl : bl.Narrow) :
    FrameSound kind { f with bl := bl } :=
  { hf with narrow := hbl }

variable (halign : 0 < alignment) (halignLt : alignment < 65536)
include hquery halign halignLt

theorem queryDeclarator_exact {pDecl pDecl' : Declarator} (hx : I x) (hf : FrameSound kind f)
    (h : exactQueryDeclarator .coded kind alignment exact type (x, f, offset) pDecl =
      .ok ((x', f', offset'), pDecl')) (hB : B x') (hfits : ∀ v ∈ pDecl'.stored, v.Fits) :
    queryDeclarator code kind alignment type (x, f, offset) pDecl =
        .ok ((x', f', offset'), pDecl') ∧ I x' ∧ FrameSound kind f' := by
  obtain ⟨⟨x₁, bl, known⟩, hask, h⟩ := bind_ok h
  obtain ⟨⟨⟨f₁, offset₁⟩, d⟩, hplace, h⟩ := bind_ok h
  cases h
  obtain ⟨info, hcode, hinfo, hx', hbl⟩ := hquery.step _ _ _ _ _ _ _ hx hf hask hB
  obtain ⟨hcode', hf'⟩ := layoutDeclarator_exact halign halignLt (hf.asked hbl) hinfo hplace hfits
  refine ⟨?_, hx', hf'⟩
  unfold queryDeclarator
  dsimp only
  rw [hcode, call_bind_apply]
  dsimp only
  rw [hcode', call_bind_apply]

theorem queryUnnamed_exact (hx : I x) (hf : FrameSound kind f)
    (h : exactQueryUnnamed .coded kind alignment exact type (x, f, offset) = .ok (x', f', offset'))
    (hB : B x') (hlt : f'.size < 4294967296) (hoffset : offset' < 2147483648) :
    queryUnnamed code kind alignment type (x, f, offset) = .ok (x', f', offset') ∧ I x' ∧
      FrameSound kind f' := by
  obtain ⟨f₁, hfinish, h⟩ := bind_ok h
  obtain ⟨⟨x₁, bl, known⟩, hask, h⟩ := bind_ok h
  obtain ⟨⟨pos, f₂⟩, hplace, h⟩ := bind_ok h
  cases h
  -- the size before the member is not above the one behind it
  have hsize := exactPlace_size (hquery.nonneg _ _ _ _ _ _ _ hask) hplace
  have hbefore : f₁.size < 4294967296 := hsize.1.trans_lt hlt
  obtain ⟨hcode, hf₁, -⟩ := finishOpenBitfield_exact hf hfinish hbefore
  obtain ⟨info, hcode', hinfo, hx', hbl⟩ := hquery.step _ _ _ _ _ _ _ hx hf₁ hask hB
  have hnote := (hf₁.asked hbl).noteFlags known false
  obtain ⟨hcode'', hf'⟩ := placeMember_exact halign halignLt hnote hinfo hplace hlt
  have hstart : (if offset < 0 then i32 pos else offset) = if offset < 0 then pos else offset := by
    have hposNonneg : 0 ≤ pos := by
      cases kind with
      | struct => exact hf₁.size_nonneg.trans (hsize.2.2.1 rfl).1
      | union => exact (hsize.2.2.2 rfl).1.ge
    split_ifs at hoffset ⊢
    · exact i32_of_lt (by omega) hoffset
    · rfl
  refine ⟨?_, hx', hf'⟩
  unfold queryUnnamed
  dsimp only
  rw [hcode, hcode', call_bind_apply]
  dsimp only
  rw [hinfo.noteFlags, hcode'', call_bind_apply]
  dsimp only
  rw [hstart]

/-- One declaration: its offset and its size show how large the compound is behind it. -/
theorem layoutDeclaration_exact {pStructDecl pStructDecl' : StructDeclaration} (hx : I x)
    (hf : FrameSound kind f)
    (h : exactDeclaration .coded kind alignment exact (x, f) pStructDecl = .ok ((x', f'), pStructDecl'))
    (hB : B x') (hfits : ∀ v ∈ pStructDecl'.stored, v.Fits) :
    layoutDeclaration code kind alignment (x, f) pStructDecl = .ok ((x', f'), pStructDecl') ∧
      I x' ∧ FrameSound kind f' := by
  obtain ⟨⟨⟨x₁, f₁, offset⟩, declarators⟩, hmembers, h⟩ := bind_ok h
  cases h
  have hoffset : (⟨.int, if offset < 0 then f'.size else offset⟩ : Stored).Fits :=
    hfits _ List.mem_cons_self
  have hsize : (⟨.int, f'.size - if offset < 0 then f'.size else offset⟩ : Stored).Fits :=
    hfits _ (List.mem_cons_of_mem _ List.mem_cons_self)
  obtain ⟨hoffset0, hoffsetLt⟩ := hoffset
  obtain ⟨hsize0, hsizeLt⟩ := hsize
  simp only [Field.bound] at hoffset0 hoffsetLt hsize0 hsizeLt
  have hlt : f'.size < 4294967296 := by omega
  have hbefore : offset < 2147483648 := by
    split_ifs at hoffsetLt <;> omega
  have hagree : queryMembers code kind alignment pStructDecl (x, f, startOffset kind) =
      .ok ((x', f', offset), declarators) ∧ I x' ∧ FrameSound kind f' := by
    unfold exactQueryMembers at hmembers
    unfold queryMembers
    cases hdecl : pStructDecl.declarators with
    | none =>
      rw [hdecl] at hmembers
      obtain ⟨acc, hunnamed, hmembers⟩ := bind_ok hmembers
      cases hmembers
      obtain ⟨hcode, hrest⟩ :=
        queryUnnamed_exact hquery halign halignLt hx hf hunnamed hB hlt hbefore
      dsimp only at hcode ⊢
      rw [hcode, call_bind_apply]
      exact ⟨rfl, hrest⟩
    | some ds =>
      rw [hdecl] at hmembers
      obtain ⟨⟨acc, ds'⟩, hrun, hmembers⟩ := bind_ok hmembers
      cases hmembers
      have hall : ∀ d ∈ ds', ∀ v ∈ d.stored, v.Fits := by
        intro d hd v hv
        apply hfits
        refine List.mem_cons_of_mem _ (List.mem_cons_of_mem _ ?_)
        exact List.mem_flatMap.mpr ⟨d, hd, hv⟩
      have hrun' := @mapAccumM_transfer _ _ _ _
        (queryDeclarator code kind alignment pStructDecl.type)
        (exactQueryDeclarator .coded kind alignment exact pStructDecl.type)
        (fun acc => I acc.1 ∧ FrameSound kind acc.2.1) (fun acc => B acc.1)
        (fun d => ∀ v ∈ d.stored, v.Fits)
        (fun acc d acc' d' hstep hB' => exactQueryDeclarator_back hquery.back hstep hB')
        (by
          intro acc d acc' d' hI hstep hB' hd
          obtain ⟨hcode, hx', hf'⟩ :=
            queryDeclarator_exact hquery halign halignLt hI.1 hI.2 hstep hB' hd
          exact ⟨hcode, hx', hf'⟩)
        ds (x, f, startOffset kind) (x', f', offset) ds' ⟨hx, hf⟩ hrun hB hall
      obtain ⟨hcode, hrest⟩ := hrun'
      dsimp only
      rw [hcode, call_bind_apply]
      exact ⟨rfl, hrest⟩
  obtain ⟨hcode, hx', hf'⟩ := hagree
  refine ⟨?_, hx', hf'⟩
  have hcodeOffset : (if offset < 0 then i32 f'.size else offset) =
      if offset < 0 then f'.size else offset := by
    split_ifs at hoffset0 hoffsetLt ⊢
    · exact i32_of_lt (by omega) hoffsetLt
    · rfl
  show (queryMembers code kind alignment pStructDecl (x, f, startOffset kind) >>= _) = _
  rw [hcode, call_bind_apply]
  dsimp only
  rw [hcodeOffset, i32_of_lt (by omega) hsizeLt]

end Query

section Struct
variable {σ : Type} {rule : ExactRule} {arch : NativeArch} {pLP : LayoutParam} {query : TypeQuery σ} {x x' : σ}
  {bl bl' : BitfieldLayouter} {pStruct pStruct' : Struct}

theorem exactStruct_back {B : σ → Prop} (hback : ∀ x f type pDecl x' bl info,
      query x f type pDecl = .ok (x', bl, info) → B x' → B x)
    (h : exactStruct rule arch pLP query x bl pStruct = .ok (x', bl', pStruct')) (hB : B x') : B x := by
  unfold exactStruct at h
  cases hdecl : pStruct.declarations with
  | none =>
    rw [hdecl] at h
    cases h
    exact hB
  | some declarations =>
    rw [hdecl] at h
    obtain ⟨⟨⟨x₁, f⟩, ds⟩, hrun, h⟩ := bind_ok h
    obtain ⟨⟨bl₁, pStruct₁⟩, -, h⟩ := bind_ok h
    cases h
    have hcarry := @mapAccumM_rel _ _ _ _
      (exactDeclaration rule pStruct.kind (structAlignment arch pLP pStruct) query)
      (fun acc acc' => B acc'.1 → B acc.1) (fun _ => id) (fun _ _ _ h h' hB => h (h' hB))
      (fun acc d acc' d' hstep hB' => exactDeclaration_back hback hstep hB') _ _ _ _ hrun
    exact hcarry hB

/-- The packing stays, and a compound with a body has an alignment. -/
theorem exactStruct_fields (h : exactStruct rule arch pLP query x bl pStruct = .ok (x', bl', pStruct')) :
    pStruct'.pack = pStruct.pack ∧ (pStruct.declarations.isSome → pStruct'.align ≠ 0) := by
  unfold exactStruct at h
  cases hdecl : pStruct.declarations with
  | none =>
    rw [hdecl] at h
    cases h
    exact ⟨rfl, fun hbody => nomatch hbody⟩
  | some declarations =>
    rw [hdecl] at h
    obtain ⟨⟨⟨x₁, f⟩, ds⟩, -, h⟩ := bind_ok h
    obtain ⟨⟨bl₁, pStruct₁⟩, hfinish, h⟩ := bind_ok h
    cases h
    obtain ⟨g, -, hfinish⟩ := bind_ok hfinish
    split_ifs at hfinish with hzero
    cases hfinish
    exact ⟨rfl, fun _ => hzero⟩

end Struct

/-- What a layout in integers leaves behind. -/
structure StructSound (bl : BitfieldLayouter) (pStruct : Struct) : Prop where
  align_pos : 0 < pStruct.align
  align_lt : pStruct.align < 65536
  narrow : bl.Narrow

/-- A compound with a body: what fits its fields is laid out alike. -/
theorem layoutStruct_exact {σ : Type} {I B : σ → Prop} {code exact : TypeQuery σ}
    {arch : NativeArch} {pLP : LayoutParam} {x x' : σ} {bl bl' : BitfieldLayouter}
    {pStruct pStruct' : Struct} {declarations : List StructDeclaration}
    (hquery : QueriesAgree pStruct.kind I B code exact)
    (halign : 0 < structAlignment arch pLP pStruct)
    (halignLt : structAlignment arch pLP pStruct < 65536)
    (hbody : pStruct.declarations = some declarations) (hx : I x)
    (hf : FrameSound pStruct.kind (initialFrame arch pLP bl pStruct))
    (h : exactStruct .coded arch pLP exact x bl pStruct = .ok (x', bl', pStruct'))
    (hB : B x') (hfits : ∀ v ∈ pStruct'.stored, v.Fits) :
    layoutStruct arch pLP code x bl pStruct = .ok (x', bl', pStruct') ∧ I x' ∧
      StructSound bl' pStruct' := by
  unfold exactStruct at h
  unfold layoutStruct
  rw [hbody] at h ⊢
  obtain ⟨⟨⟨x₁, f⟩, ds⟩, hrun, h⟩ := bind_ok h
  obtain ⟨⟨bl₁, pStruct₁⟩, hfinish, h⟩ := bind_ok h
  cases h
  obtain ⟨g, hopen, hfinish⟩ := bind_ok hfinish
  split_ifs at hfinish with hzero
  cases hfinish
  have hall : ∀ d ∈ ds, ∀ v ∈ d.stored, v.Fits := by
    intro d hd v hv
    exact hfits v (List.mem_cons_of_mem _ (List.mem_flatMap.mpr ⟨d, hd, hv⟩))
  have hrun' := @mapAccumM_transfer _ _ _ _
    (layoutDeclaration code pStruct.kind (structAlignment arch pLP pStruct))
    (exactDeclaration .coded pStruct.kind (structAlignment arch pLP pStruct) exact)
    (fun acc => I acc.1 ∧ FrameSound pStruct.kind acc.2) (fun acc => B acc.1)
    (fun d => ∀ v ∈ d.stored, v.Fits)
    (fun acc d acc' d' hstep hB' => exactDeclaration_back hquery.back hstep hB')
    (by
      intro acc d acc' d' hI hstep hB' hd
      obtain ⟨hcode, hx', hf'⟩ :=
        layoutDeclaration_exact hquery halign halignLt hI.1 hI.2 hstep hB' hd
      exact ⟨hcode, hx', hf'⟩)
    declarations (x, initialFrame arch pLP bl pStruct) (x', f) ds ⟨hx, hf⟩ hrun hB hall
  obtain ⟨hcode, hx', hf'⟩ := hrun'
  have hsize : (⟨.unsigned, roundUp g.size g.align⟩ : Stored).Fits := hfits _ List.mem_cons_self
  obtain ⟨-, hsizeLt⟩ := hsize
  simp only [Field.bound] at hsizeLt
  -- the last run, if one is open, ends below the padded size
  have hgPos := exactFinishOpen_align hf' hopen
  have hend : g.size < 4294967296 := (le_roundUp g.size hgPos).trans_lt hsizeLt
  obtain ⟨hcodeEnd, hg, -⟩ := finishOpenBitfield_exact hf' hopen hend
  refine ⟨?_, hx', ⟨hg.align_pos, hg.align_lt, hg.narrow⟩⟩
  dsimp only
  rw [hcode, call_bind_apply]
  dsimp only [finishStruct]
  rw [hcodeEnd, if_neg hzero, paddedSize_eq_roundUp hg.size_nonneg hsizeLt hgPos, call_bind_apply]

end ConvertBinaryC
