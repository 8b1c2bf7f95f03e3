import ConvertBinaryC.CTLibBitfieldCursor
import ConvertBinaryC.CTLibLayoutRun
import ConvertBinaryC.CTLibLayoutOrder

/-! The members of a struct do not share bits: a run over its members hands out spans
behind a cursor, across runs of bit-fields and ordinary members. -/
namespace ConvertBinaryC
open FoldRules SpanRules

/-- A bit of memory, relative to the compound, is part of the member. -/
def Placed.Occupies (bo : CByteOrder) (placed : Placed) (byte : ℤ) (bit : ℕ) : Prop :=
  match placed with
  | .declarator pDecl =>
    match pDecl.ext with
    | .bitfield info => ∃ j : ℕ, info.pos ≤ j ∧ j < info.pos + info.bits ∧
        byte = pDecl.offset + unitByte bo info.size.toNat j ∧ bit = j % 8
    | _ => pDecl.offset ≤ byte ∧ byte < pDecl.offset + pDecl.size ∧ bit < 8
  | .unnamed offset size => offset ≤ byte ∧ byte < offset + size ∧ bit < 8

def Struct.BitsDisjoint (bo : CByteOrder) (pStruct : Struct) : Prop :=
  pStruct.placed.Pairwise fun a b => ∀ byte bit,
    ¬(a.Occupies bo byte bit ∧ b.Occupies bo byte bit)

/-- A zero width takes no bits. -/
def Placed.span? (bo : CByteOrder) (placed : Placed) : Option Span :=
  match placed with
  | .declarator pDecl =>
    match pDecl.ext with
    | .bitfield info => if info.bits = 0 then none else some (info.span bo pDecl.offset)
    | _ => some ⟨8 * pDecl.offset, 8 * (pDecl.offset + pDecl.size)⟩
  | .unnamed offset size => some ⟨8 * offset, 8 * (offset + size)⟩

def Placed.InUnit (placed : Placed) : Prop :=
  match placed with
  | .declarator pDecl => ∀ info, pDecl.ext = .bitfield info → info.bits ≠ 0 → info.InUnit
  | .unnamed _ _ => True

theorem bitIndex_mem_bytes (bo : CByteOrder) {offset size byte : ℤ} {bit : ℕ}
    (hlo : offset ≤ byte) (hhi : byte < offset + size) (hbit : bit < 8) :
    Span.Mem ⟨8 * offset, 8 * (offset + size)⟩ (bitIndex bo byte bit) := by
  cases bo <;> simp only [Span.Mem, bitIndex] <;> omega

/-- What a member occupies is in its span. -/
theorem Placed.Occupies.span {bo : CByteOrder} {placed : Placed} {byte : ℤ} {bit : ℕ}
    (h : placed.Occupies bo byte bit) (hunit : placed.InUnit) :
    ∃ s, placed.span? bo = some s ∧ s.Mem (bitIndex bo byte bit) := by
  cases placed with
  | unnamed offset size => exact ⟨_, rfl, bitIndex_mem_bytes bo h.1 h.2.1 h.2.2⟩
  | declarator pDecl =>
    simp only [Occupies] at h
    simp only [span?]
    cases hext : pDecl.ext with
    | plain =>
      rw [hext] at h
      exact ⟨_, rfl, bitIndex_mem_bytes bo h.1 h.2.1 h.2.2⟩
    | array dims =>
      rw [hext] at h
      exact ⟨_, rfl, bitIndex_mem_bytes bo h.1 h.2.1 h.2.2⟩
    | bitfield info =>
      rw [hext] at h
      obtain ⟨j, hlo, hhi, rfl, rfl⟩ := h
      have hne : info.bits ≠ 0 := by omega
      dsimp only
      rw [if_neg hne]
      exact ⟨_, rfl, info.span_mem (hunit info hext hne) bo pDecl.offset hlo hhi⟩

/-- The next free bit of a compound under construction. -/
def Frame.cursor (f : Frame) : ℤ := if f.in_bitfield then f.bl.cursor else 8 * f.size

/-- The size and the alignment of an ordinary member are of this world, and it starts where an
offset can be recorded. -/
structure OrdinaryFits (alignment : ℤ) (info : TypeInfo) (size : ℤ) : Prop where
  size_nonneg : 0 ≤ info.size
  size_lt : info.size < 2147483648
  align_nonneg : 0 ≤ info.align
  align_lt : info.align < 65536
  offset_lt : paddedSize size (min info.align alignment) < 268435456

/-- The member keeps the cursor moving forward, and its size and its offset fit the fields in
which they are recorded. -/
def MemberFits (alignment : ℤ) (f : Frame) (step : MemberStep) : Prop :=
  f.cursor < 2147483648 ∧
  ((∃ pDecl bit, step.member.pDecl = some pDecl ∧ pDecl.ext = .bitfield bit ∧ 0 ≤ bit.bits ∧
      ∀ bl, startBitfield .struct f = .ok bl →
        bl.PushFits ⟨pDecl, bit, step.info.item_size, step.info.align⟩) ∨
    (step.member.isBitfield = false ∧
      OrdinaryFits alignment step.info (finishOpenBitfield f).size))

/-- The block size of the Simple class is one of its storage units. -/
def BLClass.SaneBlock (blc : BLClass) : Prop :=
  match blc with
  | .simple b => 0 ≤ b.block_size ∧ b.block_size ≤ 32
  | _ => True

theorem BLClass.SaneBlock.of_blank {b c : BLClass} (h : c.blank = b.blank) (hb : b.SaneBlock) :
    c.SaneBlock := by
  cases b <;> cases c <;> simp only [blank, reduceCtorEq, BLClass.simple.injEq,
    BLBlock.mk.injEq] at h
  · trivial
  · trivial
  · simp only [SaneBlock, h.1]
    exact hb

/-- The invariant of a run over the members of a struct. -/
structure DisjointInv (blc : BLClass) (bo : CByteOrder) (f : Frame) (placed : List Placed) :
    Prop where
  size : 0 ≤ f.size
  sane : f.in_bitfield = true → f.bl.Sane
  byte_order : f.bl.byte_order = bo
  blank : f.bl.blc.blank = blc.blank
  below : Below (placed.filterMap (Placed.span? bo)) f.cursor
  inUnit : ∀ p ∈ placed, p.InUnit

/-- Closing a run of bit-fields moves the cursor to a whole byte. -/
theorem finishOpenBitfield_cursor {f : Frame} (hsize : 0 ≤ f.size)
    (hsane : f.in_bitfield = true → f.bl.Sane) (hsmall : f.cursor < 2147483648) :
    f.cursor ≤ 8 * (finishOpenBitfield f).size ∧ 0 ≤ (finishOpenBitfield f).size ∧
      (finishOpenBitfield f).size < 268435456 + 64 := by
  unfold Frame.cursor finishOpenBitfield at *
  split_ifs at * with hopen
  · obtain ⟨hle, hnonneg, hlt⟩ := BitfieldLayouter.finalize_cursor (hsane hopen) hsmall
    simp only [finishBitfield]
    rw [u32_of_lt hnonneg (by omega)]
    exact ⟨hle, hnonneg, hlt⟩
  · omega

/-- A run that starts takes over the cursor. -/
theorem startBitfield_cursor {f : Frame} {bl : BitfieldLayouter} (hsize : 0 ≤ f.size)
    (hsane : f.in_bitfield = true → f.bl.Sane) (hblock : f.bl.blc.SaneBlock)
    (h : startBitfield .struct f = .ok bl) :
    bl.Sane ∧ bl.cursor = f.cursor ∧ f.bl.Like bl := by
  unfold startBitfield at h
  unfold Frame.cursor
  split_ifs at h with hopen
  · cases h
    rw [if_pos hopen]
    exact ⟨hsane hopen, rfl, .refl _⟩
  · obtain ⟨bl', hreset, h⟩ := bind_ok h
    cases h
    rw [if_neg hopen]
    have hlike := BitfieldLayouter.reset_like hreset
    refine ⟨?_, ?_, ⟨hlike.blank, hlike.byte_order, hlike.max_align⟩⟩ <;>
    · unfold BitfieldLayouter.reset at hreset
      cases hblc : f.bl.blc with
      | generic u =>
        simp only [hblc, Except.ok.injEq] at hreset
        subst hreset
        simp only [genericReset, BitfieldLayouter.Sane, BitfieldLayouter.cursor, unitInit]
        omega
      | microsoft u =>
        simp only [hblc, Except.ok.injEq] at hreset
        subst hreset
        simp only [microsoftReset, BitfieldLayouter.Sane, BitfieldLayouter.cursor, unitInit]
        omega
      | simple b =>
        simp only [hblc, BLClass.SaneBlock] at hblock
        simp only [hblc, simpleReset] at hreset
        split_ifs at hreset
        obtain ⟨block_bits, hlong, hreset⟩ := bind_ok hreset
        obtain rfl := (long_ok_iff.mp hlong).2
        cases hreset
        simp only [BitfieldLayouter.Sane, BitfieldLayouter.cursor]
        rw [i32_of_lt (by omega) (by omega)]
        omega

/-- An ordinary member is placed at or after the cursor. -/
theorem placeMember_cursor {alignment : ℤ} {info : TypeInfo} {f f' : Frame} {pos : ℤ}
    (hsize : 0 ≤ f.size) (hbound : f.size < 268435456 + 64)
    (hinfo : OrdinaryFits alignment info f.size) (halign : 0 ≤ alignment)
    (h : placeMember .struct alignment info f = .ok (pos, f')) :
    f.size ≤ pos ∧ pos < 268435456 ∧ f'.size = pos + info.size ∧ f'.bl = f.bl ∧
      f'.in_bitfield = f.in_bitfield := by
  obtain ⟨hnonneg, hlt, halign₀, halign₁, hoffset⟩ := hinfo
  simp only [placeMember] at h
  generalize ha : (if info.align > alignment then alignment else info.align) = align at h
  have hmin : min info.align alignment = align := by
    split_ifs at ha <;> omega
  rw [hmin] at hoffset
  have hpos : 0 ≤ align ∧ align < 65536 := by
    split_ifs at ha <;> omega
  split_ifs at h with hzero <;> cases h <;>
  · have hmod := Int.emod_nonneg f.size hzero
    have hrest := Int.emod_lt_of_pos f.size (lt_of_le_of_ne hpos.1 (Ne.symm hzero))
    have hpadded : f.size ≤ paddedSize f.size align := by
      unfold paddedSize
      split_ifs
      · rw [u32_of_lt (by omega) (by omega)]
        omega
      · omega
    have hu32 : u32 (paddedSize f.size align + info.size) = paddedSize f.size align + info.size :=
      u32_of_lt (by omega) (by omega)
    dsimp only
    rw [hu32]
    exact ⟨hpadded, hoffset, rfl, rfl, rfl⟩

/-- A member that is no bit-field takes the span of its bytes. -/
theorem DisjointInv.ordinary {blc : BLClass} {bo : CByteOrder} {alignment : ℤ} {info : TypeInfo}
    {f f₁ f' : Frame} {placed : List Placed} {p : Placed} {pos : ℤ}
    (hinv : DisjointInv blc bo f placed) (hcursor : f.cursor < 2147483648)
    (hinfo : OrdinaryFits alignment info (finishOpenBitfield f).size) (halign : 0 ≤ alignment)
    (h : placeMember .struct alignment info f₁ = .ok (pos, f'))
    (hf₁ : f₁.size = (finishOpenBitfield f).size ∧ f₁.bl = (finishOpenBitfield f).bl ∧
      f₁.in_bitfield = false)
    (hspan : 0 ≤ pos → pos < 268435456 → f'.size = pos + info.size →
      p.span? bo = some ⟨8 * pos, 8 * (pos + info.size)⟩)
    (hunit : p.InUnit) :
    DisjointInv blc bo f' (placed ++ [p]) := by
  obtain ⟨hle, hnonneg, hbound⟩ := finishOpenBitfield_cursor hinv.size hinv.sane hcursor
  have hlike := finishOpenBitfield_like f
  have hin' : f'.in_bitfield = false := by
    simp only [placeMember] at h
    split_ifs at h <;> cases h <;> exact hf₁.2.2
  have hcursor' : f'.cursor = 8 * f'.size := by
    unfold Frame.cursor
    rw [if_neg (by simp [hin'])]
  obtain ⟨hpos, hposlt, hsize', hbl, -⟩ := placeMember_cursor (hf₁.1 ▸ hnonneg)
    (hf₁.1 ▸ hbound) (hf₁.1 ▸ hinfo) halign h
  rw [hf₁.1] at hpos
  have hwidth := hinfo.size_nonneg
  refine ⟨by omega, fun hopen => absurd (hin'.symm.trans hopen) Bool.noConfusion, ?_, ?_, ?_, ?_⟩
  · rw [hbl, hf₁.2.1, hlike.byte_order, hinv.byte_order]
  · rw [hbl, hf₁.2.1, hlike.blank, hinv.blank]
  · rw [List.filterMap_append, List.filterMap_cons,
      hspan (by omega) hposlt hsize', List.filterMap_nil]
    apply hinv.below.append
    · dsimp only
      omega
    · dsimp only
      omega
    · omega
  · intro q hq
    rcases List.mem_append.mp hq with hq | hq
    · exact hinv.inUnit q hq
    · rw [List.mem_singleton] at hq
      exact hq ▸ hunit

/-- A bit-field leaves its run open. -/
theorem pushBitfield_in_bitfield {info : TypeInfo} {f f' : Frame} {pDecl pDecl' : Declarator}
    {bit : BitfieldInfo} (h : pushBitfield .struct info f pDecl bit = .ok (f', pDecl')) :
    f'.in_bitfield = true := by
  obtain ⟨bl, -, h⟩ := bind_ok h
  obtain ⟨⟨error, bl', d⟩, -, h⟩ := bind_ok h
  cases error with
  | bitfieldTooWide => cases h
  | noError =>
    cases h
    rfl

/-- A bit-field takes the bits that the layouter hands out. -/
theorem DisjointInv.bitfield {blc : BLClass} {bo : CByteOrder} {info : TypeInfo} {f f' : Frame}
    {placed : List Placed} {pDecl pDecl' : Declarator} {bit : BitfieldInfo}
    (hinv : DisjointInv blc bo f placed) (hblock : blc.SaneBlock)
    (hcursor : f.cursor < 2147483648) (hext : pDecl.ext = .bitfield bit) (hbits : 0 ≤ bit.bits)
    (hfits : ∀ bl, startBitfield .struct f = .ok bl →
      bl.PushFits ⟨pDecl, bit, info.item_size, info.align⟩)
    (hsmall : f'.cursor < 2147483648)
    (h : pushBitfield .struct info (noteFlags f info true) pDecl bit = .ok (f', pDecl')) :
    DisjointInv blc bo f' (placed ++ [.declarator pDecl']) := by
  obtain ⟨bl, hstart, h⟩ := bind_ok h
  have hstart' : startBitfield .struct f = .ok bl := hstart
  obtain ⟨hsane, hblc, hlike⟩ :=
    startBitfield_cursor hinv.size hinv.sane (hblock.of_blank hinv.blank) hstart'
  obtain ⟨⟨error, bl', pDecl'⟩, hpush, h⟩ := bind_ok h
  cases error with
  | bitfieldTooWide => cases h
  | noError =>
    cases h
    have hcursor' : ({ noteFlags f info true with
        bl := bl', in_bitfield := true } : Frame).cursor = bl'.cursor := if_pos rfl
    have hspan := BitfieldLayouter.push_span hbits (hcursor' ▸ hsmall) hsane
      (hblc ▸ hcursor) (hfits bl hstart') hpush
    have hlike' := hlike.trans (BitfieldLayouter.push_like hpush)
    have hbo : bl.byte_order = bo := hlike.byte_order.trans hinv.byte_order
    refine ⟨hinv.size, fun _ => hspan.sane, hlike'.byte_order.trans hinv.byte_order,
      hlike'.blank.trans hinv.blank, ?_, ?_⟩
    · rw [hcursor', List.filterMap_append, List.filterMap_cons, List.filterMap_nil]
      by_cases hzero : bit.bits = 0
      · have hnone : (Placed.declarator pDecl').span? bo = none := by
          rw [hspan.zero hzero]
          simp only [Placed.span?, hext, if_pos hzero]
        rw [hnone, List.append_nil]
        exact hinv.below.mono (hblc ▸ hspan.le)
      · obtain ⟨info', hext', hinfo', -, -, -, hlo, hhi⟩ := hspan.span hzero
        have hsome : (Placed.declarator pDecl').span? bo =
            some (info'.span bo pDecl'.offset) := by
          simp only [Placed.span?, hext', hinfo', if_neg hzero]
        rw [hsome]
        rw [hbo] at hlo hhi
        exact hinv.below.append (hblc ▸ hlo) hhi.le (hblc ▸ hspan.le)
    · intro q hq
      rcases List.mem_append.mp hq with hq | hq
      · exact hinv.inUnit q hq
      · rw [List.mem_singleton] at hq
        subst hq
        intro info' hext' hne
        by_cases hzero : bit.bits = 0
        · rw [hspan.zero hzero] at hext'
          have := hext.symm.trans hext'
          cases this
          exact absurd hzero hne
        · obtain ⟨info'', hext'', -, hunit, -⟩ := hspan.span hzero
          have := hext''.symm.trans hext'
          cases this
          exact hunit

/-- One member of a struct. -/
theorem DisjointInv.step {blc : BLClass} {bo : CByteOrder} {alignment : ℤ} {f f' : Frame}
    {placed : List Placed} {p : Placed} {step : MemberStep} (hblock : blc.SaneBlock)
    (halign : 0 ≤ alignment)
    (hinv : (f.in_bitfield = true → f.cursor < 2147483648) → DisjointInv blc bo f placed)
    (hfits : MemberFits alignment f step) (h : memberStep .struct alignment f step = .ok (f', p))
    (hsmall : f'.in_bitfield = true → f'.cursor < 2147483648) : DisjointInv blc bo f' (placed ++ [p]) := by
  obtain ⟨hcursor, hmember⟩ := hfits
  have hinv := hinv fun _ => hcursor
  rcases memberStep_ok h with ⟨pDecl, bit, pDecl', hdecl, hext, hpush, rfl⟩ |
    ⟨hordinary, pos, hplace, hplaced⟩
  · rcases hmember with ⟨d, b, hd, hb, hbits, hpushFits⟩ | ⟨hordinary, -⟩
    · cases hdecl.symm.trans hd
      cases hext.symm.trans hb
      have hopen := hsmall (pushBitfield_in_bitfield hpush)
      exact hinv.bitfield hblock hcursor hext hbits hpushFits hopen hpush
    · rw [Member.isBitfield, hdecl, Option.any_some, Bool.eq_false_iff] at hordinary
      exact absurd (Declarator.isBitfield_iff.mpr ⟨bit, hext⟩) hordinary
  · have hinfo : OrdinaryFits alignment step.info (finishOpenBitfield f).size := by
      rcases hmember with ⟨d, b, hd, hb, -, -⟩ | ⟨-, hinfo⟩
      · rw [Member.isBitfield, hd, Option.any_some, Bool.eq_false_iff] at hordinary
        exact absurd (Declarator.isBitfield_iff.mpr ⟨b, hb⟩) hordinary
      · exact hinfo
    have hclosed : (noteFlags (finishOpenBitfield f) step.info false).in_bitfield = false :=
      finishOpenBitfield_in_bitfield f
    rcases hplaced with ⟨pDecl, hdecl, rfl⟩ | ⟨hdecl, rfl⟩
    · have hext (bit : BitfieldInfo) : pDecl.ext ≠ .bitfield bit := by
        intro hext
        rw [Member.isBitfield, hdecl, Option.any_some, Bool.eq_false_iff] at hordinary
        exact hordinary (Declarator.isBitfield_iff.mpr ⟨bit, hext⟩)
      refine hinv.ordinary hcursor hinfo halign hplace ⟨rfl, rfl, hclosed⟩ ?_ ?_
      · intro hpos hlt hsize
        have hsome : Placed.span? bo (.declarator { pDecl with
            offset := s29 pos, size := i32 step.info.size, item_size := i32 step.info.item_size }) =
            some ⟨8 * s29 pos, 8 * (s29 pos + i32 step.info.size)⟩ := by
          simp only [Placed.span?]
        have hnonneg := hinfo.size_nonneg
        rw [hsome, s29_of_lt (by omega) hlt, i32_of_lt (by omega) hinfo.size_lt]
      · exact fun bit hd => absurd hd (hext bit)
    · refine hinv.ordinary hcursor hinfo halign hplace ⟨rfl, rfl, hclosed⟩ ?_ trivial
      intro hpos hlt hsize
      have hnonneg := hinfo.size_nonneg
      rw [declarationOffset_struct hpos (by omega), hsize, add_sub_cancel_left,
        i32_of_lt (by omega) hinfo.size_lt]
      rfl

section Struct
variable {arch : NativeArch} {pLP : LayoutParam} {bl : BitfieldLayouter}
  {info : Member → Call TypeInfo} {pStruct pStruct' : Struct}

/-- Every step of the run over the members fits. -/
def RunFits (arch : NativeArch) (pLP : LayoutParam) (bl : BitfieldLayouter)
    (info : Member → Call TypeInfo) (pStruct : Struct) : Prop :=
  ∀ steps, Steps info pStruct.members steps →
    AlongM (memberStep pStruct.kind (structAlignment arch pLP pStruct))
      (MemberFits (structAlignment arch pLP pStruct))
      (fun f => f.in_bitfield = true → f.cursor < 2147483648) (initialFrame arch pLP bl pStruct) steps

/-- The members of a struct that is laid out after its nested compounds are disjoint. -/
theorem layoutKnown_disjoint (hbody : pStruct.declarations.isSome)
    (hkind : pStruct.kind = .struct) (hsize : pStruct.size = 0) (hblock : bl.blc.SaneBlock)
    (halign : 0 ≤ structAlignment arch pLP pStruct) (hfits : RunFits arch pLP bl info pStruct)
    (h : layoutKnown arch pLP bl info pStruct = .ok pStruct') :
    pStruct'.BitsDisjoint pLP.byte_order := by
  obtain ⟨steps, f, hsteps, hrun, -⟩ := layoutKnown_run hbody h
  have hfits := hfits steps hsteps
  rw [hkind] at hrun hfits
  have hstart : ((initialFrame arch pLP bl pStruct).in_bitfield = true →
      (initialFrame arch pLP bl pStruct).cursor < 2147483648) →
      DisjointInv bl.blc pLP.byte_order (initialFrame arch pLP bl pStruct) [] := fun _ =>
    { size := hsize.symm.le
      sane := nofun
      byte_order := rfl
      blank := rfl
      below := .nil _
      inUnit := fun p hp => absurd hp List.not_mem_nil }
  obtain ⟨hinv, hsmall⟩ := mapAccumM_invariant_along
    (P := fun f placed => (f.in_bitfield = true → f.cursor < 2147483648) →
      DisjointInv bl.blc pLP.byte_order f placed)
    (fun f placed step f' p hinv hgood hstep hsmall' =>
      DisjointInv.step hblock halign hinv hgood hstep hsmall') hstart hfits hrun
  have hinv := hinv hsmall
  rw [List.nil_append] at hinv
  have hpairs := List.pairwise_filterMap.mp hinv.below.disjoint
  refine hpairs.imp_of_mem fun {a b} ha hb hab byte bit hoccupies => ?_
  obtain ⟨s, hs, hmem⟩ := hoccupies.1.span (hinv.inUnit a ha)
  obtain ⟨t, ht, hmem'⟩ := hoccupies.2.span (hinv.inUnit b hb)
  exact hab s hs t ht (bitIndex pLP.byte_order byte bit) ⟨hmem, hmem'⟩

end Struct

/-- In a harmless walk in which the members of a struct fit, its bit-fields share no
bit with each other or with an ordinary member. -/
theorem bitfields_disjoint {arch : NativeArch} {pLP : LayoutParam} {heap : Heap}
    (tr : TypeRank heap) {bl : BitfieldLayouter} {fuel : ℕ} {order : List ℕ} {st : LayoutState}
    {s : ℕ} (hfresh : ∀ t, (heap.structAt t).align = 0 ∧ (heap.structAt t).size = 0)
    (hfuel : ∀ t ∈ order, 2 * tr.rank (.struct t) + 2 ≤ fuel)
    (halign : 0 ≤ structAlignment arch pLP (heap.structAt s))
    (hs : s ∈ order) (hbody : (heap.structAt s).declarations.isSome)
    (hkind : (heap.structAt s).kind = .struct)
    (hharmless : HarmlessOrder arch pLP heap bl fuel [] order) (hblock : bl.blc.SaneBlock)
    (hfits : RunFits arch pLP bl (referenceInfo arch pLP tr bl s) (heap.structAt s))
    (h : updateStructs arch pLP fuel ⟨heap, bl⟩ order = .ok st) :
    (st.heap.structAt s).BitsDisjoint pLP.byte_order := by
  have hreference := updateStructs_reference tr (fun t => (hfresh t).1) hfuel hharmless h s hs
  exact layoutKnown_disjoint hbody hkind (hfresh s).2 hblock halign hfits hreference

/-- A heap with one compound and nothing else. -/
def singleHeap (pStruct : Struct) : Heap where
  structAt _ := pStruct
  enumAt _ := ⟨0, false, false, 4, 4, ⟨"order.h", 1⟩, none, .empty, ""⟩
  typedefAt _ := ⟨.basic T_INT, declNew ""⟩

def singleRank (pStruct : Struct) (h : ∀ m ∈ pStruct.members, m.node = none) :
    TypeRank (singleHeap pStruct) where
  rank _ := 0
  struct_lt := by
    intro s m hm n hn
    rw [h m hm] at hn
    cases hn
  typedef_lt := by
    intro t n hn
    cases hn

/-- `#pragma pack(1)`, `struct { char c[3]; int a : 20; int : 0; int b : 8; }` -/
def straddlingStruct : Struct :=
  { structOf "" [declaration (.basic T_CHAR) [{ declNew "c" with ext := .array [⟨3, false, false⟩] }],
      declaration (.basic T_INT) [bitfieldDecl "a" 20], declaration (.basic T_INT) [bitfieldDecl "" 0],
      declaration (.basic T_INT) [bitfieldDecl "b" 8]] with pack := 1 }

/-- A bit-field as it is recorded. -/
def bitfieldAt (identifier : String) (offset size bits pos : ℤ) : Placed :=
  .declarator { declNew identifier with
    offset := offset, size := size, ext := .bitfield ⟨size, bits, pos⟩ }

/-- The zero width leaves byte 3, where `a` starts, for byte 4, which `a` still uses. -/
theorem zeroWidth_overlaps : ∃ st,
    updateStructs lp64 alignment4 2 ⟨singleHeap straddlingStruct, blCreateGeneric⟩ [0] = .ok st ∧
      ¬(st.heap.structAt 0).BitsDisjoint .littleEndian := by
  have hplaced : (updateStructs lp64 alignment4 2 ⟨singleHeap straddlingStruct, blCreateGeneric⟩
      [0]).toOption.map (fun st => (st.heap.structAt 0).placed.drop 1) =
      some [bitfieldAt "a" 3 4 20 0, .declarator (bitfieldDecl "" 0), bitfieldAt "b" 4 1 8 0] := by
    decide +kernel
  cases hst : updateStructs lp64 alignment4 2 ⟨singleHeap straddlingStruct, blCreateGeneric⟩ [0]
    with
  | error e =>
    rw [hst] at hplaced
    cases hplaced
  | ok st =>
    rw [hst] at hplaced
    refine ⟨st, rfl, fun h => ?_⟩
    have hdrop := List.Pairwise.drop (i := 1) h
    have hlist : (st.heap.structAt 0).placed.drop 1 = _ := Option.some.inj hplaced
    rw [hlist] at hdrop
    have hab := (List.pairwise_cons.mp hdrop).1 (bitfieldAt "b" 4 1 8 0) (by simp)
    exact hab 4 0 ⟨⟨8, by decide, by decide, rfl, rfl⟩, ⟨0, by decide, by decide, rfl, rfl⟩⟩

/-- `struct { int a : 3; char c; }` -/
def fieldAndChar : Struct :=
  structOf "" [declaration (.basic T_INT) [bitfieldDecl "a" 3],
    declaration (.basic T_CHAR) [declNew "c"]]

theorem fieldAndChar_members : fieldAndChar.members =
    [⟨.basic T_INT, some (bitfieldDecl "a" 3)⟩, ⟨.basic T_CHAR, some (declNew "c")⟩] := rfl

theorem fieldAndChar_node : ∀ m ∈ fieldAndChar.members, m.node = none := by
  intro m hm
  rw [fieldAndChar_members] at hm
  rcases List.mem_cons.mp hm with rfl | hm
  · rfl
  · rw [List.mem_singleton] at hm
    exact hm ▸ rfl

theorem fieldAndChar_harmless :
    HarmlessOrder lp64 alignment4 (singleHeap fieldAndChar) blCreateGeneric 2 [] [0] := by
  simp [HarmlessOrder, HarmlessStruct, HarmlessMembers, HarmlessType, Undisturbed, visitStruct,
    visitType, singleHeap, fieldAndChar, structOf, structNew, declaration,
    Struct.members, StructDeclaration.members, Member.node, declNew, bitfieldDecl]

/-- The frame after `a`. -/
def frameAfterField : Frame :=
  ⟨⟨.generic ⟨3, 4, 4⟩, .littleEndian, 4, 4, 0⟩, 1, 0, true, false, true⟩

/-- The frame after `c`. -/
def frameAfterChar : Frame :=
  ⟨⟨.generic ⟨3, 4, 4⟩, .littleEndian, 4, 4, 1⟩, 4, 2, true, false, false⟩

theorem fieldAndChar_fits (info : Member → Call TypeInfo)
    (hint : info ⟨.basic T_INT, some (bitfieldDecl "a" 3)⟩ = .ok (.scalar 4))
    (hchar : info ⟨.basic T_CHAR, some (declNew "c")⟩ = .ok (.scalar 1)) :
    RunFits lp64 alignment4 blCreateGeneric info fieldAndChar := by
  rintro steps ⟨hmembers, hinfo⟩
  rw [fieldAndChar_members] at hmembers
  obtain ⟨⟨m₁, i₁⟩, rest, rfl, rfl, hrest⟩ := List.map_eq_cons_iff.mp hmembers
  obtain ⟨⟨m₂, i₂⟩, rest', rfl, rfl, hnil⟩ := List.map_eq_cons_iff.mp hrest
  cases List.map_eq_nil_iff.mp hnil
  have h₁ := hinfo _ List.mem_cons_self
  have h₂ := hinfo _ (List.mem_cons_of_mem _ List.mem_cons_self)
  cases hint.symm.trans h₁
  cases hchar.symm.trans h₂
  have hfirst : memberStep .struct 4 (initialFrame lp64 alignment4 blCreateGeneric fieldAndChar)
      ⟨⟨.basic T_INT, some (bitfieldDecl "a" 3)⟩, .scalar 4⟩ =
      .ok (frameAfterField, bitfieldAt "a" 0 1 3 0) := by decide +kernel
  have hsecond : memberStep .struct 4 frameAfterField
      ⟨⟨.basic T_CHAR, some (declNew "c")⟩, .scalar 1⟩ = .ok (frameAfterChar,
        .declarator { declNew "c" with offset := 1, size := 1, item_size := 1 }) := by
    decide +kernel
  refine ⟨⟨by decide, Or.inl ⟨_, _, rfl, rfl, by decide, ?_⟩⟩, ?_⟩
  · intro bl hbl
    cases hbl
    exact ⟨by decide, fun hzero => absurd hzero (by decide)⟩
  · intro f p hstep
    cases hfirst.symm.trans hstep
    refine ⟨⟨by decide, Or.inr ⟨rfl, ?_⟩⟩, ?_⟩
    · constructor <;> decide
    · intro f' p' hstep'
      cases hsecond.symm.trans hstep'
      exact nofun

theorem bitfields_disjoint_fieldAndChar : ∃ st,
    updateStructs lp64 alignment4 2 ⟨singleHeap fieldAndChar, blCreateGeneric⟩ [0] = .ok st ∧
      (st.heap.structAt 0).BitsDisjoint .littleEndian := by
  have hok : (updateStructs lp64 alignment4 2 ⟨singleHeap fieldAndChar, blCreateGeneric⟩
      [0]).toOption.isSome = true := by decide +kernel
  cases hst : updateStructs lp64 alignment4 2 ⟨singleHeap fieldAndChar, blCreateGeneric⟩ [0] with
  | error e =>
    rw [hst] at hok
    cases hok
  | ok st =>
    exact ⟨st, rfl, bitfields_disjoint (singleRank fieldAndChar fieldAndChar_node)
      (fun t => ⟨rfl, rfl⟩) (by decide) (by decide) List.mem_cons_self rfl rfl
      fieldAndChar_harmless trivial (fieldAndChar_fits _ rfl rfl) hst⟩

end ConvertBinaryC
