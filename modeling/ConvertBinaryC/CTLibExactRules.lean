import ConvertBinaryC.CTLibExactRun

/-! The two layouts in integers. They differ behind a bit-field of a union, whose size the code
replaces, until the declaration that holds the bit-field ends: if the code and the declarations
store the same there, they go on alike. So a run of the code that stores what the declarations
stand for is also a run under its own rule. -/
namespace ConvertBinaryC
open FoldRules BitCounterRules

/-- The frames of a compound under the rule of the code and under that of the declarations. Within a
declaration of a union the size can lag behind. -/
structure Tracks (kind : CompoundKind) (f g : Frame) : Prop where
  struct : kind = .struct → g = f
  frame : g = { f with size := g.size }
  le : f.size ≤ g.size

section Frame
variable {kind : CompoundKind} {alignment offset offset' pos : ℤ} {info : TypeInfo}
  {f g g' : Frame} {pDecl pDecl' : Declarator} {bit : BitfieldInfo}

theorem Tracks.refl (kind : CompoundKind) (f : Frame) : Tracks kind f f := ⟨fun _ => rfl, rfl, le_rfl⟩

theorem Tracks.asked (h : Tracks kind f g) (bl : BitfieldLayouter) :
    Tracks kind { f with bl := bl } { g with bl := bl } where
  struct hkind := by rw [h.struct hkind]
  frame := by rw [h.frame]
  le := h.le

theorem Tracks.noteFlags (h : Tracks kind f g) (info : TypeInfo) (bitfield_flag : Bool) :
    Tracks kind (noteFlags f info bitfield_flag) (noteFlags g info bitfield_flag) where
  struct hkind := by rw [h.struct hkind]
  frame := by
    unfold ConvertBinaryC.noteFlags
    rw [h.frame]
  le := h.le

theorem exactFinishOpen_tracks (hf : FrameSound kind f) (h : Tracks kind f g)
    (hg : exactFinishOpen .declared kind g = .ok g') :
    ∃ f', exactFinishOpen .coded kind f = .ok f' ∧ Tracks kind f' g' := by
  cases kind with
  | struct =>
    obtain rfl := h.struct rfl
    exact ⟨g', hg, .refl _ _⟩
  | union =>
    have hclosed : ¬ f.in_bitfield = true := by
      rw [hf.union rfl]
      exact Bool.false_ne_true
    have hclosed' : ¬ g.in_bitfield = true := by rwa [h.frame]
    rw [exactFinishOpen, if_neg hclosed'] at hg
    cases hg
    exact ⟨f, if_neg hclosed, h⟩

theorem exactPlace_tracks (h : Tracks kind f g)
    (hg : exactPlace kind alignment info g = .ok (pos, g')) :
    ∃ f', exactPlace kind alignment info f = .ok (pos, f') ∧ Tracks kind f' g' := by
  cases kind with
  | struct =>
    obtain rfl := h.struct rfl
    exact ⟨g', hg, .refl _ _⟩
  | union =>
    cases hg
    refine ⟨_, rfl, nofun, ?_, max_le_max_right _ h.le⟩
    dsimp only
    rw [h.frame]

/-- The end of a bit-field of a union replaces the size or raises it. -/
theorem exactFinish_tracks {size : ℤ}
    (hg : exactFinish .declared .union { f with size := size } = .ok g') :
    ∃ f', exactFinish .coded .union f = .ok f' ∧ Tracks .union f' g' := by
  unfold exactFinish at hg ⊢
  dsimp only at hg ⊢
  split_ifs at hg ⊢ with hbad
  cases hg
  exact ⟨_, rfl, nofun, rfl, le_max_right _ _⟩

/-- A bit-field of a union starts at its begin, whatever is there. -/
theorem exactPush_tracks (hf : FrameSound kind f) (h : Tracks kind f g)
    (hg : exactPush .declared kind info g pDecl bit = .ok (g', pDecl')) :
    ∃ f', exactPush .coded kind info f pDecl bit = .ok (f', pDecl') ∧ Tracks kind f' g' := by
  cases kind with
  | struct =>
    obtain rfl := h.struct rfl
    exact ⟨g', hg, .refl _ _⟩
  | union =>
    obtain ⟨size, hle, rfl⟩ : ∃ size, f.size ≤ size ∧ g = { f with size := size } :=
      ⟨g.size, h.le, h.frame⟩
    obtain ⟨bl, hstart, hg⟩ := bind_ok hg
    obtain ⟨⟨error, bl', d⟩, hpush, hg⟩ := bind_ok hg
    have hstart' : startBitfield .union f = .ok bl := hstart
    unfold exactPush
    rw [hstart', call_bind_apply, hpush, call_bind_apply]
    cases error with
    | bitfieldTooWide => exact nomatch hg
    | noError =>
      obtain ⟨g₁, hfinish, hg⟩ := bind_ok hg
      cases hg
      obtain ⟨f', hcoded, htracks⟩ := exactFinish_tracks (f := { f with bl := bl' }) hfinish
      dsimp only
      rw [hcoded, call_bind_apply]
      exact ⟨f', rfl, htracks⟩

theorem exactDeclarator_tracks (hf : FrameSound kind f) (h : Tracks kind f g)
    (hg : exactDeclarator .declared kind alignment info g offset pDecl =
      .ok ((g', offset'), pDecl')) :
    ∃ f', exactDeclarator .coded kind alignment info f offset pDecl = .ok ((f', offset'), pDecl') ∧
      Tracks kind f' g' := by
  by_cases hbit : pDecl.isBitfield = true
  · obtain ⟨bit, hext⟩ := Declarator.isBitfield_iff.mp hbit
    unfold exactDeclarator at hg ⊢
    rw [hbit] at hg ⊢
    simp only [hext] at hg ⊢
    obtain ⟨⟨g₁, d⟩, hpush, hg⟩ := bind_ok hg
    cases hg
    obtain ⟨f', hcoded, htracks⟩ := exactPush_tracks (hf.noteFlags info true)
      (h.noteFlags info true) hpush
    rw [hcoded, call_bind_apply]
    exact ⟨f', rfl, htracks⟩
  · rw [Bool.not_eq_true] at hbit
    rw [exactDeclarator_ordinary hbit] at hg ⊢
    obtain ⟨g₁, hfinish, hg⟩ := bind_ok hg
    obtain ⟨⟨pos, g₂⟩, hplace, hg⟩ := bind_ok hg
    cases hg
    obtain ⟨f₁, hcoded, htracks⟩ := exactFinishOpen_tracks (hf.noteFlags info false)
      (h.noteFlags info false) hfinish
    obtain ⟨f₂, hcoded', htracks'⟩ := exactPlace_tracks htracks hplace
    rw [hcoded, call_bind_apply, hcoded', call_bind_apply]
    exact ⟨f₂, rfl, htracks'⟩

end Frame

section Back
variable {σ : Type} {B : σ → Prop} {query : TypeQuery σ} {kind : CompoundKind} {alignment : ℤ}
  (hback : ∀ x f type pDecl x' bl info, query x f type pDecl = .ok (x', bl, info) → B x' → B x)
include hback

theorem queryMembers_back {acc acc' : σ × Frame × ℤ} {pStructDecl : StructDeclaration}
    {declarators : Option (List Declarator)}
    (h : queryMembers query kind alignment pStructDecl acc = .ok (acc', declarators))
    (hB : B acc'.1) : B acc.1 := by
  unfold queryMembers at h
  cases hdecl : pStructDecl.declarators with
  | none =>
    rw [hdecl] at h
    obtain ⟨acc₁, hunnamed, h⟩ := bind_ok h
    cases h
    obtain ⟨⟨x₁, bl, info⟩, hask, hunnamed⟩ := bind_ok hunnamed
    obtain ⟨⟨pos, f₁⟩, -, hunnamed⟩ := bind_ok hunnamed
    cases hunnamed
    exact hback _ _ _ _ _ _ _ hask hB
  | some ds =>
    rw [hdecl] at h
    obtain ⟨⟨acc₁, ds'⟩, hrun, h⟩ := bind_ok h
    cases h
    have hcarry := @mapAccumM_rel _ _ _ _ (queryDeclarator query kind alignment pStructDecl.type)
      (fun acc acc' => B acc'.1 → B acc.1) (fun _ => id) (fun _ _ _ h h' hB => h (h' hB))
      (by
        intro acc₁ d acc₂ d' hstep hB₂
        obtain ⟨⟨x₁, bl, info⟩, hask, hstep⟩ := bind_ok hstep
        obtain ⟨⟨⟨f₁, offset⟩, d₁⟩, -, hstep⟩ := bind_ok hstep
        cases hstep
        exact hback _ _ _ _ _ _ _ hask hB₂)
      _ _ _ _ hrun
    exact hcarry hB

/-- Whatever a question carries back to the state before it, a declaration does. -/
theorem layoutDeclaration_back {acc acc' : σ × Frame}
    {pStructDecl pStructDecl' : StructDeclaration}
    (h : layoutDeclaration query kind alignment acc pStructDecl = .ok (acc', pStructDecl'))
    (hB : B acc'.1) : B acc.1 := by
  obtain ⟨⟨⟨x₁, f₁, offset⟩, declarators⟩, hmembers, h⟩ := bind_ok h
  cases h
  exact queryMembers_back hback hmembers hB

theorem layoutStruct_back {arch : NativeArch} {pLP : LayoutParam} {x x' : σ}
    {bl bl' : BitfieldLayouter} {pStruct pStruct' : Struct}
    (h : layoutStruct arch pLP query x bl pStruct = .ok (x', bl', pStruct')) (hB : B x') : B x := by
  unfold layoutStruct at h
  cases hdecl : pStruct.declarations with
  | none =>
    rw [hdecl] at h
    cases h
    exact hB
  | some declarations =>
    rw [hdecl] at h
    obtain ⟨⟨⟨x₁, f⟩, ds⟩, hrun, h⟩ := bind_ok h
    obtain ⟨⟨bl₁, pStruct₁⟩, -, h⟩ := bind_ok h
    cases h
    have hcarry := @mapAccumM_rel _ _ _ _
      (layoutDeclaration query pStruct.kind (structAlignment arch pLP pStruct))
      (fun acc acc' => B acc'.1 → B acc.1) (fun _ => id) (fun _ _ _ h h' hB => h (h' hB))
      (fun acc d acc' d' hstep hB' => layoutDeclaration_back hback hstep hB') _ _ _ _ hrun
    exact hcarry hB

end Back

section Keeps
variable {arch : NativeArch} {pLP : LayoutParam}

/-- The layouts of the code change only compounds that had no layout. -/
theorem layout_keeps (fuel : ℕ) :
    (∀ st type pDecl st' info, getTypeInfo arch pLP fuel st type pDecl = .ok (st', info) →
      st.heap.Keeps ∅ st'.heap) ∧
    ∀ st s st', layoutCompound arch pLP fuel st s = .ok st' → st.heap.Keeps {s} st'.heap := by
  induction fuel with
  | zero =>
    constructor
    · intro st type pDecl st' info h
      rw [getTypeInfo] at h
      cases h
    · intro st s st' h
      rw [layoutCompound] at h
      cases h
  | succ fuel ih =>
    constructor
    · intro st type pDecl st' info h
      unfold getTypeInfo at h
      obtain ⟨⟨st₁, base⟩, hbase, h⟩ := bind_ok h
      obtain ⟨declared, -, h⟩ := bind_ok h
      cases h
      split_ifs at hbase
      · cases hbase
        exact .refl _ _
      · cases type with
        | basic tflags =>
          cases hbase
          exact .refl _ _
        | enum e =>
          cases hbase
          exact .refl _ _
        | typedef t => exact ih.1 _ _ _ _ _ hbase
        | compound kind s =>
          dsimp only at hbase
          obtain ⟨st₂, hlayout, hbase⟩ := bind_ok hbase
          cases hbase
          split_ifs at hlayout with hfresh
          · exact (ih.2 _ _ _ hlayout).of_fresh hfresh.2
          · rw [Except.ok.inj hlayout]
            exact .refl _ _
    · intro st s st' h
      rw [layoutCompound] at h
      obtain ⟨⟨heap, bl, pStruct⟩, hstruct, h⟩ := bind_ok h
      cases h
      have hback : ∀ x f type pDecl x' bl info,
          heapQuery (getTypeInfo arch pLP fuel) s x f type pDecl = .ok (x', bl, info) →
          x'.Keeps {s} heap → x.Keeps {s} heap := by
        intro x f type pDecl x' bl info hask hend
        obtain ⟨⟨st₁, info₁⟩, hask, hok⟩ := bind_ok hask
        cases hok
        have hset := x.keeps_setStruct s (f.store (x.structAt s))
        have hcall := (ih.1 _ _ _ _ _ hask).mono (Set.empty_subset {s})
        exact (hset.trans hcall).trans hend
      have hrun := layoutStruct_back hback hstruct (Heap.Keeps.refl {s} heap)
      exact hrun.trans (heap.keeps_setStruct s pStruct)

end Keeps

/-- Two heaps that differ only in compounds whose layout is going on. -/
structure Heap.Alike (opened : List ℕ) (heap heap' : Heap) : Prop where
  typedefs : heap'.typedefAt = heap.typedefAt
  enums : heap'.enumAt = heap.enumAt
  structs : ∀ t, t ∉ opened → heap'.structAt t = heap.structAt t

theorem Heap.Alike.refl (opened : List ℕ) (heap : Heap) : heap.Alike opened heap :=
  ⟨rfl, rfl, fun _ _ => rfl⟩

/-- Storing in a compound whose layout is going on. -/
theorem Heap.Alike.store {opened : List ℕ} {heap heap' : Heap} {s : ℕ}
    (h : heap.Alike (s :: opened) heap') (pStruct pStruct' : Struct) :
    (heap.setStruct s pStruct).Alike (s :: opened) (heap'.setStruct s pStruct') where
  typedefs := h.typedefs
  enums := h.enums
  structs := by
    intro t ht
    have hts : t ≠ s := fun heq => ht (heq ▸ List.mem_cons_self)
    rw [Heap.setStruct_of_ne _ _ hts, Heap.setStruct_of_ne _ _ hts]
    exact h.structs t ht

/-- The end of a layout. -/
theorem Heap.Alike.close {opened : List ℕ} {heap heap' : Heap} {s : ℕ}
    (h : heap.Alike (s :: opened) heap') (pStruct : Struct) :
    (heap.setStruct s pStruct).Alike opened (heap'.setStruct s pStruct) where
  typedefs := h.typedefs
  enums := h.enums
  structs := by
    intro t ht
    by_cases hts : t = s
    · subst hts
      rw [Heap.setStruct_self, Heap.setStruct_self]
    · rw [Heap.setStruct_of_ne _ _ hts, Heap.setStruct_of_ne _ _ hts]
      exact h.structs t fun hmem => ht ((List.mem_cons.mp hmem).resolve_left hts)

theorem Heap.Alike.cons {opened : List ℕ} {heap heap' : Heap} (h : heap.Alike opened heap')
    (s : ℕ) : heap.Alike (s :: opened) heap' :=
  { h with structs := fun t ht => h.structs t fun hmem => ht (List.mem_cons_of_mem s hmem) }

/-- What both heaps have laid out is the same and fits its fields. -/
def Heap.Settled (opened : List ℕ) (heap heap' : Heap) : Prop :=
  ∀ t, t ∉ opened → (heap.structAt t).align ≠ 0 → (heap'.structAt t).align ≠ 0 →
    heap'.structAt t = heap.structAt t ∧ ∀ v ∈ (heap.structAt t).stored, v.Fits

theorem Heap.Settled.of_kept {opened : List ℕ} {heap heap' final final' : Heap}
    (h : final.Settled opened final')
    (hkept : ∀ t, t ∉ opened → (heap.structAt t).align ≠ 0 → final.structAt t = heap.structAt t)
    (hkept' : ∀ t, t ∉ opened → (heap'.structAt t).align ≠ 0 →
      final'.structAt t = heap'.structAt t) : heap.Settled opened heap' := by
  intro t ht halign halign'
  have hsame := hkept t ht halign
  have hsame' := hkept' t ht halign'
  rw [← hsame, ← hsame']
  exact h t ht (hsame ▸ halign) (hsame' ▸ halign')

theorem Heap.Settled.back {X : Set ℕ} {opened : List ℕ} {heap heap' final final' : Heap}
    (h : final.Settled opened final') (hkeeps : heap.Keeps X final) (hkeeps' : heap'.Keeps X final')
    (hX : ∀ t ∈ X, t ∈ opened) : heap.Settled opened heap' :=
  h.of_kept (fun t ht => hkeeps.structs t fun htX => ht (hX t htX))
    fun t ht => hkeeps'.structs t fun htX => ht (hX t htX)

theorem Heap.Settled.laidFits {opened : List ℕ} {heap heap' : Heap}
    (h : heap.Settled opened heap') (halike : heap.Alike opened heap') : heap.LaidFits opened :=
  fun t ht halign => (h t ht halign (by rwa [halike.structs t ht])).2

section Tracks
variable {arch : NativeArch} {pLP : LayoutParam}

/-- An answer of the code and one that the declarations stand for are given under the rule of the
code too, as far as what both have laid out by the end is the same and fits. -/
def TypeInfoTracks (arch : NativeArch) (pLP : LayoutParam) (fuel : ℕ) : Prop :=
  ∀ opened st stD type pDecl st' stD' info known, LayoutReady pLP opened st →
    st.heap.Alike opened stD.heap → stD.bl = st.bl →
    getTypeInfo arch pLP fuel st type pDecl = .ok (st', info) →
    exactTypeInfo .declared arch pLP fuel opened stD type pDecl = .ok (stD', known) →
    st'.heap.Settled opened stD'.heap →
    exactTypeInfo .coded arch pLP fuel opened st type pDecl = .ok (st', known) ∧
      st'.heap.Alike opened stD'.heap ∧ stD'.bl = st'.bl

def CompoundTracks (arch : NativeArch) (pLP : LayoutParam) (fuel : ℕ) : Prop :=
  ∀ opened st stD s st' stD', LayoutReady pLP opened st → st.heap.Alike opened stD.heap →
    stD.bl = st.bl → (st.heap.structAt s).align = 0 →
    layoutCompound arch pLP fuel st s = .ok st' →
    exactCompound .declared arch pLP fuel opened stD s = .ok stD' →
    st'.heap.Settled opened stD'.heap →
    exactCompound .coded arch pLP fuel opened st s = .ok st' ∧
      st'.heap.Alike opened stD'.heap ∧ stD'.bl = st'.bl

variable {fuel : ℕ} {opened : List ℕ} {s : ℕ} {kind : CompoundKind} {alignment : ℤ}
  {x x' y y' : Heap} {f f' g g' : Frame} {type : TypeSpec} {bl bl' : BitfieldLayouter}
  {info known : TypeInfo} {offset offset' offsetD : ℤ}

/-- What holds of a heap and of that of the declarations between the members of `s`. -/
structure Between (pLP : LayoutParam) (opened : List ℕ) (s : ℕ) (x y : Heap) : Prop where
  sane : x.Sane pLP
  started : ∀ t ∈ opened, (x.structAt t).align ≠ 0
  alike : x.Alike (s :: opened) y

theorem TypeInfoTracks.query (h : TypeInfoTracks arch pLP fuel) {pDecl : Option Declarator}
    (hx : Between pLP opened s x y) (hf : FrameSound kind f) (htracks : Tracks kind f g)
    (hcode : heapQuery (getTypeInfo arch pLP fuel) s x f type pDecl = .ok (x', bl, info))
    (hdeclared : heapQuery (exactTypeInfo .declared arch pLP fuel (s :: opened)) s y g type pDecl =
      .ok (y', bl', known))
    (hsettled : x'.Settled (s :: opened) y') :
    heapQuery (exactTypeInfo .coded arch pLP fuel (s :: opened)) s x f type pDecl =
      .ok (x', bl, known) ∧ x'.Alike (s :: opened) y' ∧ bl' = bl := by
  obtain ⟨⟨st₁, info₁⟩, hask, hok⟩ := bind_ok hcode
  cases hok
  obtain ⟨⟨stD₁, known₁⟩, hask', hok⟩ := bind_ok hdeclared
  cases hok
  have hbl : g.bl = f.bl := by rw [htracks.frame]
  obtain ⟨hcoded, halike, hbl'⟩ := h (s :: opened) _ _ _ _ _ _ _ _
    (LayoutReady.store hx.sane hx.started hf) (hx.alike.store _ _) hbl hask hask' hsettled
  refine ⟨?_, halike, hbl'⟩
  unfold heapQuery
  rw [hcoded, call_bind_apply]

/-- What a question of the code changes. -/
theorem heapQuery_keeps {pDecl : Option Declarator}
    (h : heapQuery (getTypeInfo arch pLP fuel) s x f type pDecl = .ok (x', bl, info)) :
    x.Keeps {s} x' := by
  obtain ⟨⟨st₁, info₁⟩, hask, hok⟩ := bind_ok h
  cases hok
  have hset := x.keeps_setStruct s (f.store (x.structAt s))
  have hcall := ((layout_keeps fuel).1 _ _ _ _ _ hask).mono (Set.empty_subset {s})
  exact hset.trans hcall

theorem heapQuery_exact_keeps {rule : ExactRule} {pDecl : Option Declarator}
    (h : heapQuery (exactTypeInfo rule arch pLP fuel opened) s x f type pDecl =
      .ok (x', bl, info)) : x.Keeps {s} x' := by
  obtain ⟨⟨st₁, info₁⟩, hask, hok⟩ := bind_ok h
  cases hok
  have hset := x.keeps_setStruct s (f.store (x.structAt s))
  have hcall := ((exact_keeps fuel).1 _ _ _ _ _ _ hask).mono (Set.empty_subset {s})
  exact hset.trans hcall

variable (hagrees : TypeInfoAgrees arch pLP fuel) (h : TypeInfoTracks arch pLP fuel)
  (halign : 0 < alignment) (halignLt : alignment < 65536)
include hagrees h halign halignLt

theorem queryDeclarator_tracks {pDecl pDecl' : Declarator} (hx : Between pLP opened s x y)
    (hf : FrameSound kind f) (htracks : Tracks kind f g)
    (hcode : queryDeclarator (heapQuery (getTypeInfo arch pLP fuel) s) kind alignment type
      (x, f, offset) pDecl = .ok ((x', f', offset'), pDecl'))
    (hdeclared : exactQueryDeclarator .declared kind alignment
      (heapQuery (exactTypeInfo .declared arch pLP fuel (s :: opened)) s) type (y, g, offset) pDecl =
        .ok ((y', g', offsetD), pDecl'))
    (hsettled : x'.Settled (s :: opened) y') (hfits : ∀ v ∈ pDecl'.stored, v.Fits) :
    exactQueryDeclarator .coded kind alignment
        (heapQuery (exactTypeInfo .coded arch pLP fuel (s :: opened)) s) type (x, f, offset) pDecl =
      .ok ((x', f', offset'), pDecl') ∧ Between pLP opened s x' y' ∧ FrameSound kind f' ∧
      Tracks kind f' g' ∧ offsetD = offset' := by
  have hcode₀ := hcode
  obtain ⟨⟨x₁, bl, info⟩, hask, hcode⟩ := bind_ok hcode
  obtain ⟨⟨⟨f₁, offset₁⟩, d⟩, -, hcode⟩ := bind_ok hcode
  cases hcode
  obtain ⟨⟨y₁, bl', known⟩, hask', hdeclared⟩ := bind_ok hdeclared
  obtain ⟨⟨⟨g₁, offset₂⟩, d'⟩, hplace, hdeclared⟩ := bind_ok hdeclared
  cases hdeclared
  obtain ⟨hcoded, halike, rfl⟩ := h.query hx hf htracks hask hask' hsettled
  have hquery := hagrees.queries opened s kind
  have hlaid := hsettled.laidFits halike
  obtain ⟨-, -, -, -, hnarrow⟩ := hquery.step _ _ _ _ _ _ _ ⟨hx.sane, hx.started⟩ hf hcoded hlaid
  obtain ⟨f₂, hplace', htracks'⟩ := exactDeclarator_tracks (hf.asked hnarrow) (htracks.asked _) hplace
  have hrun : exactQueryDeclarator .coded kind alignment
      (heapQuery (exactTypeInfo .coded arch pLP fuel (s :: opened)) s) type (x, f, offset) pDecl =
        .ok ((x', f₂, offsetD), pDecl') := by
    unfold exactQueryDeclarator
    dsimp only
    rw [hcoded, call_bind_apply]
    dsimp only
    rw [hplace', call_bind_apply]
  -- the code does the same
  obtain ⟨hsame, ⟨hsane, hstarted⟩, hf'⟩ := queryDeclarator_exact hquery halign halignLt
    ⟨hx.sane, hx.started⟩ hf hrun hlaid hfits
  rw [hcode₀] at hsame
  cases hsame
  exact ⟨hrun, ⟨hsane, hstarted, halike⟩, hf', htracks', rfl⟩

theorem queryUnnamed_tracks (hx : Between pLP opened s x y)
    (hf : FrameSound kind f) (htracks : Tracks kind f g)
    (hcode : queryUnnamed (heapQuery (getTypeInfo arch pLP fuel) s) kind alignment type
      (x, f, offset) = .ok (x', f', offset'))
    (hdeclared : exactQueryUnnamed .declared kind alignment
      (heapQuery (exactTypeInfo .declared arch pLP fuel (s :: opened)) s) type (y, g, offset) =
        .ok (y', g', offsetD))
    (hsettled : x'.Settled (s :: opened) y') (hlt : g'.size < 4294967296)
    (hoffset : offsetD < 2147483648) :
    exactQueryUnnamed .coded kind alignment
        (heapQuery (exactTypeInfo .coded arch pLP fuel (s :: opened)) s) type (x, f, offset) =
      .ok (x', f', offset') ∧ Between pLP opened s x' y' ∧ FrameSound kind f' ∧
      Tracks kind f' g' ∧ offsetD = offset' := by
  have hcode₀ := hcode
  obtain ⟨⟨x₁, bl, info⟩, hask, hcode⟩ := bind_ok hcode
  obtain ⟨⟨pos, f₁⟩, -, hcode⟩ := bind_ok hcode
  cases hcode
  obtain ⟨g₁, hfinish, hdeclared⟩ := bind_ok hdeclared
  obtain ⟨⟨y₁, bl', known⟩, hask', hdeclared⟩ := bind_ok hdeclared
  obtain ⟨⟨pos', g₂⟩, hplace, hdeclared⟩ := bind_ok hdeclared
  cases hdeclared
  -- the size before the member is not above the one behind it
  have hquery := hagrees.queries opened s kind
  obtain ⟨f₂, hfinish', htracks₂⟩ := exactFinishOpen_tracks hf htracks hfinish
  have hknown : 0 ≤ known.size := by
    obtain ⟨⟨st₁, known₁⟩, hask', hok⟩ := bind_ok hask'
    cases hok
    exact exactTypeInfo_nonneg hask'
  have hsize := exactPlace_size hknown hplace
  have hbefore : f₂.size < 4294967296 := lt_of_le_of_lt (htracks₂.le.trans hsize.1) hlt
  obtain ⟨hclosed, hf₂, -⟩ := finishOpenBitfield_exact hf hfinish' hbefore
  rw [hclosed] at hask
  obtain ⟨hcoded, halike, rfl⟩ := h.query hx hf₂ htracks₂ hask hask' hsettled
  obtain ⟨f₃, hplace', htracks'⟩ := exactPlace_tracks ((htracks₂.asked _).noteFlags known false) hplace
  have hrun : exactQueryUnnamed .coded kind alignment
      (heapQuery (exactTypeInfo .coded arch pLP fuel (s :: opened)) s) type (x, f, offset) =
        .ok (x', f₃, if offset < 0 then pos' else offset) := by
    unfold exactQueryUnnamed
    dsimp only
    rw [hfinish', call_bind_apply, hcoded, call_bind_apply]
    dsimp only
    rw [hplace', call_bind_apply]
  obtain ⟨hsame, ⟨hsane, hstarted⟩, hf'⟩ := queryUnnamed_exact hquery halign halignLt
    ⟨hx.sane, hx.started⟩ hf hrun (hsettled.laidFits halike) (htracks'.le.trans_lt hlt) hoffset
  obtain ⟨-, heq⟩ := Prod.mk.inj (Except.ok.inj (hcode₀.symm.trans hsame))
  obtain ⟨rfl, hsameOffset⟩ := Prod.mk.inj heq
  refine ⟨?_, ⟨hsane, hstarted, halike⟩, hf', htracks', hsameOffset.symm⟩
  rw [hrun, hsameOffset]

/-- What the members of a declaration come to. -/
theorem queryMembers_tracks {pStructDecl : StructDeclaration}
    {declarators : Option (List Declarator)} (hx : Between pLP opened s x y)
    (hf : FrameSound kind f)
    (hcode : queryMembers (heapQuery (getTypeInfo arch pLP fuel) s) kind alignment pStructDecl
      (x, f, startOffset kind) = .ok ((x', f', offset'), declarators))
    (hdeclared : exactQueryMembers .declared kind alignment
      (heapQuery (exactTypeInfo .declared arch pLP fuel (s :: opened)) s) pStructDecl
        (y, f, startOffset kind) = .ok ((y', g', offsetD), declarators))
    (hsettled : x'.Settled (s :: opened) y') (hlt : g'.size < 4294967296)
    (hoffset : offsetD < 2147483648)
    (hfits : ∀ d ∈ declarators.getD [], ∀ v ∈ d.stored, v.Fits) :
    exactQueryMembers .coded kind alignment
        (heapQuery (exactTypeInfo .coded arch pLP fuel (s :: opened)) s) pStructDecl
          (x, f, startOffset kind) = .ok ((x', f', offset'), declarators) ∧
      Between pLP opened s x' y' ∧ FrameSound kind f' ∧ Tracks kind f' g' ∧ offsetD = offset' := by
  unfold queryMembers at hcode
  unfold exactQueryMembers at hdeclared ⊢
  cases hdecl : pStructDecl.declarators with
  | none =>
    rw [hdecl] at hcode hdeclared
    obtain ⟨acc, hunnamed, hcode⟩ := bind_ok hcode
    cases hcode
    obtain ⟨acc, hunnamed', hdeclared⟩ := bind_ok hdeclared
    cases hdeclared
    obtain ⟨hrun, hrest⟩ := queryUnnamed_tracks hagrees h halign halignLt hx hf (.refl kind f)
      hunnamed hunnamed' hsettled hlt hoffset
    dsimp only
    rw [hrun, call_bind_apply]
    exact ⟨rfl, hrest⟩
  | some ds =>
    rw [hdecl] at hcode hdeclared
    obtain ⟨⟨acc, ds'⟩, hrunC, hcode⟩ := bind_ok hcode
    cases hcode
    obtain ⟨⟨acc, ds''⟩, hrunD, hdeclared⟩ := bind_ok hdeclared
    cases hdeclared
    obtain ⟨hrun, hx', hf', htracks', hsame⟩ := mapAccumM_track
      (k := exactQueryDeclarator .coded kind alignment
        (heapQuery (exactTypeInfo .coded arch pLP fuel (s :: opened)) s) pStructDecl.type)
      (I := fun acc accD => Between pLP opened s acc.1 accD.1 ∧ FrameSound kind acc.2.1 ∧
        Tracks kind acc.2.1 accD.2.1 ∧ accD.2.2 = acc.2.2)
      (B := fun acc accD => acc.1.Settled (s :: opened) accD.1)
      (Q := fun d => ∀ v ∈ d.stored, v.Fits)
      (by
        intro acc accD d acc' accD' d₁ d₂ hstep hstepD hB
        obtain ⟨⟨x₁, bl, info⟩, hask, hstep⟩ := bind_ok hstep
        obtain ⟨⟨⟨f₁, offset₁⟩, d₃⟩, -, hstep⟩ := bind_ok hstep
        cases hstep
        obtain ⟨⟨y₁, bl', known⟩, hask', hstepD⟩ := bind_ok hstepD
        obtain ⟨⟨⟨g₁, offset₂⟩, d₄⟩, -, hstepD⟩ := bind_ok hstepD
        cases hstepD
        exact hB.back (heapQuery_keeps hask) (heapQuery_exact_keeps hask')
          fun t ht => Set.mem_singleton_iff.mp ht ▸ List.mem_cons_self)
      (by
        rintro ⟨x₁, f₁, offset₁⟩ ⟨y₁, g₁, offset₂⟩ d ⟨x₂, f₂, offset₃⟩ ⟨y₂, g₂, offset₄⟩ d'
          ⟨hx₁, hf₁, htracks₁, hoffset₁⟩ hstep hstepD hB hd
        dsimp only at hoffset₁
        subst hoffset₁
        exact queryDeclarator_tracks hagrees h halign halignLt hx₁ hf₁ htracks₁ hstep hstepD hB hd)
      ⟨hx, hf, .refl kind f, rfl⟩ hrunC hrunD hsettled hfits
    dsimp only
    rw [hrun, call_bind_apply]
    exact ⟨rfl, hx', hf', htracks', hsame⟩

/-- At the end of a declaration, which stores the size of the compound so far, both frames are the
same again. -/
theorem layoutDeclaration_tracks {pStructDecl pStructDecl' : StructDeclaration}
    (hx : Between pLP opened s x y) (hf : FrameSound kind f)
    (hcode : layoutDeclaration (heapQuery (getTypeInfo arch pLP fuel) s) kind alignment (x, f)
      pStructDecl = .ok ((x', f'), pStructDecl'))
    (hdeclared : exactDeclaration .declared kind alignment
      (heapQuery (exactTypeInfo .declared arch pLP fuel (s :: opened)) s) (y, f) pStructDecl =
        .ok ((y', g'), pStructDecl'))
    (hsettled : x'.Settled (s :: opened) y') (hfits : ∀ v ∈ pStructDecl'.stored, v.Fits) :
    exactDeclaration .coded kind alignment
        (heapQuery (exactTypeInfo .coded arch pLP fuel (s :: opened)) s) (x, f) pStructDecl =
      .ok ((x', f'), pStructDecl') ∧ Between pLP opened s x' y' ∧ FrameSound kind f' ∧ g' = f' := by
  obtain ⟨⟨⟨x₁, f₁, offset⟩, declarators⟩, hmembers, hcode⟩ := bind_ok hcode
  cases hcode
  obtain ⟨⟨⟨y₁, g₁, offsetD⟩, declarators'⟩, hmembers', hdeclared⟩ := bind_ok hdeclared
  obtain ⟨hacc, hrecord⟩ := Prod.mk.inj (Except.ok.inj hdeclared)
  cases hacc
  obtain ⟨-, rfl, hoffset, hsize⟩ := StructDeclaration.mk.inj hrecord
  have hoffsetFits : (⟨.int, if offset < 0 then i32 f'.size else offset⟩ : Stored).Fits :=
    hfits _ List.mem_cons_self
  have hsizeFits : (⟨.int, i32 (f'.size - if offset < 0 then i32 f'.size else offset)⟩ :
      Stored).Fits := hfits _ (List.mem_cons_of_mem _ List.mem_cons_self)
  obtain ⟨hoffset0, hoffsetLt⟩ := hoffsetFits
  obtain ⟨hsize0, hsizeLt⟩ := hsizeFits
  simp only [Field.bound] at hoffset0 hoffsetLt hsize0 hsizeLt
  have hlt : g'.size < 4294967296 := by omega
  have hbefore : offsetD < 2147483648 := by
    split_ifs at hoffset <;> omega
  have hall : ∀ d ∈ declarators'.getD [], ∀ v ∈ d.stored, v.Fits := by
    intro d hd v hv
    apply hfits
    exact List.mem_cons_of_mem _ (List.mem_cons_of_mem _ (List.mem_flatMap.mpr ⟨d, hd, hv⟩))
  obtain ⟨hrun, hx', hf', htracks, rfl⟩ := queryMembers_tracks hagrees h halign halignLt hx hf
    hmembers hmembers' hsettled hlt hbefore hall
  -- the size that is stored is the one that the declarations stand for
  have hle := htracks.le
  have hnonneg := hf'.size_nonneg
  have hsame : g'.size = f'.size := by
    split_ifs at hoffset hsize hoffset0 hoffsetLt hsize0 hsizeLt with hneg
    · rw [hoffset, i32_of_lt (by omega) (by omega)]
    · have hkept : i32 (f'.size - offsetD) = f'.size - offsetD :=
        i32_of_lt (by omega) (by omega)
      omega
  have hframe : g' = f' := by
    rw [htracks.frame, hsame]
  refine ⟨?_, hx', hf', hframe⟩
  show (exactQueryMembers .coded kind alignment _ pStructDecl (x, f, startOffset kind) >>= _) = _
  rw [hrun, call_bind_apply]
  dsimp only
  rw [hsame] at hoffset hsize
  rw [hsize, hoffset]

omit hagrees h halign halignLt in
/-- What the layouts store at the end of a compound has an alignment. -/
theorem layoutStruct_align {σ : Type} {query : TypeQuery σ} {z z' : σ} {pStruct pStruct' : Struct}
    (h : layoutStruct arch pLP query z bl pStruct = .ok (z', bl', pStruct'))
    (hbody : pStruct.declarations.isSome) : pStruct'.align ≠ 0 := by
  unfold layoutStruct at h
  cases hdecl : pStruct.declarations with
  | none =>
    rw [hdecl] at hbody
    exact nomatch hbody
  | some declarations =>
    rw [hdecl] at h
    obtain ⟨⟨⟨z₁, f⟩, ds⟩, -, h⟩ := bind_ok h
    obtain ⟨⟨bl₁, pStruct₁⟩, hfinish, h⟩ := bind_ok h
    cases h
    unfold finishStruct at hfinish
    dsimp only at hfinish
    split_ifs at hfinish with hzero
    cases hfinish
    exact hzero

omit halign halignLt in
/-- A compound with a body. -/
theorem layoutStruct_tracks {pStruct pStruct' : Struct} {declarations : List StructDeclaration}
    (halign : 0 < structAlignment arch pLP pStruct)
    (halignLt : structAlignment arch pLP pStruct < 65536)
    (hbody : pStruct.declarations = some declarations) (hx : Between pLP opened s x y)
    (hf : FrameSound pStruct.kind (initialFrame arch pLP bl pStruct)) {blC blD : BitfieldLayouter}
    (hcode : layoutStruct arch pLP (heapQuery (getTypeInfo arch pLP fuel) s) x bl pStruct =
      .ok (x', blC, pStruct'))
    (hdeclared : exactStruct .declared arch pLP
      (heapQuery (exactTypeInfo .declared arch pLP fuel (s :: opened)) s) y bl pStruct =
        .ok (y', blD, pStruct'))
    (hsettled : x'.Settled (s :: opened) y') (hfits : ∀ v ∈ pStruct'.stored, v.Fits) :
    exactStruct .coded arch pLP (heapQuery (exactTypeInfo .coded arch pLP fuel (s :: opened)) s) x bl
        pStruct = .ok (x', blC, pStruct') ∧ x'.Alike (s :: opened) y' ∧ blD = blC := by
  have hcode₀ := hcode
  unfold layoutStruct at hcode
  unfold exactStruct at hdeclared
  rw [hbody] at hcode hdeclared
  obtain ⟨⟨⟨x₁, f⟩, ds⟩, hrunC, hcode⟩ := bind_ok hcode
  obtain ⟨⟨bl₁, pStruct₁⟩, hfinishC, hcode⟩ := bind_ok hcode
  cases hcode
  obtain ⟨⟨⟨y₁, g⟩, ds'⟩, hrunD, hdeclared⟩ := bind_ok hdeclared
  obtain ⟨⟨bl₂, pStruct₂⟩, hfinishD, hdeclared⟩ := bind_ok hdeclared
  cases hdeclared
  have hsameDs : ds' = ds := by
    unfold finishStruct at hfinishC
    dsimp only at hfinishC
    split_ifs at hfinishC
    cases hfinishC
    obtain ⟨g', -, hfinishD⟩ := bind_ok hfinishD
    split_ifs at hfinishD
    exact Option.some.inj (congrArg Struct.declarations (Prod.mk.inj (Except.ok.inj hfinishD)).2)
  subst hsameDs
  have hall : ∀ d ∈ ds', ∀ v ∈ d.stored, v.Fits := by
    have hdecls : pStruct'.declarations = some ds' := by
      obtain ⟨g', -, hfinishD⟩ := bind_ok hfinishD
      split_ifs at hfinishD
      cases hfinishD
      rfl
    intro d hd v hv
    apply hfits
    unfold Struct.stored
    rw [hdecls]
    exact List.mem_cons_of_mem _ (List.mem_flatMap.mpr ⟨d, hd, hv⟩)
  obtain ⟨hrun, hx', hf', rfl⟩ := mapAccumM_track
    (k := exactDeclaration .coded pStruct.kind (structAlignment arch pLP pStruct)
      (heapQuery (exactTypeInfo .coded arch pLP fuel (s :: opened)) s))
    (I := fun acc accD => Between pLP opened s acc.1 accD.1 ∧ FrameSound pStruct.kind acc.2 ∧
      accD.2 = acc.2)
    (B := fun acc accD => acc.1.Settled (s :: opened) accD.1)
    (Q := fun d => ∀ v ∈ d.stored, v.Fits)
    (by
      intro acc accD d acc' accD' d₁ d₂ hstep hstepD hB
      have hkeeps := layoutDeclaration_back (B := fun z => z.Keeps {s} acc'.1)
        (fun _ _ _ _ _ _ _ hask hend => (heapQuery_keeps hask).trans hend) hstep (.refl _ _)
      have hkeeps' := exactDeclaration_back (B := fun z => z.Keeps {s} accD'.1)
        (fun _ _ _ _ _ _ _ hask hend => (heapQuery_exact_keeps hask).trans hend) hstepD (.refl _ _)
      exact hB.back hkeeps hkeeps' fun t ht => Set.mem_singleton_iff.mp ht ▸ List.mem_cons_self)
    (by
      rintro ⟨x₁, f₁⟩ ⟨y₁, g₁⟩ d ⟨x₂, f₂⟩ ⟨y₂, g₂⟩ d' ⟨hx₁, hf₁, hframe⟩ hstep hstepD hB hd
      dsimp only at hframe
      subst hframe
      exact layoutDeclaration_tracks hagrees h halign halignLt hx₁ hf₁ hstep hstepD hB hd)
    ⟨hx, hf, rfl⟩ hrunC hrunD hsettled hall
  -- no run is open at the end of a union, and the rule is not used at that of a struct
  have hclose : exactFinishStruct .coded pStruct.kind g pStruct ds' = .ok (blD, pStruct') := by
    obtain ⟨g', hopen, hrest⟩ := bind_ok hfinishD
    obtain ⟨f', hopen', htracks⟩ := exactFinishOpen_tracks hf' (.refl _ g) hopen
    have hsame : f' = g' := by
      cases hkind : pStruct.kind with
      | struct =>
        rw [hkind] at htracks
        exact (htracks.struct rfl).symm
      | union =>
        rw [hkind] at hf' hopen hopen'
        rw [exactFinishOpen_union hf' hopen, exactFinishOpen_union hf' hopen']
    unfold exactFinishStruct
    rw [hopen', hsame, call_bind_apply]
    exact hrest
  have hcoded : exactStruct .coded arch pLP
      (heapQuery (exactTypeInfo .coded arch pLP fuel (s :: opened)) s) x bl pStruct =
        .ok (x', blD, pStruct') := by
    unfold exactStruct
    rw [hbody]
    dsimp only
    rw [hrun, call_bind_apply]
    dsimp only
    rw [hclose, call_bind_apply]
  have hquery := hagrees.queries opened s pStruct.kind
  obtain ⟨hsame, -⟩ := layoutStruct_exact hquery halign halignLt hbody ⟨hx.sane, hx.started⟩ hf
    hcoded (hsettled.laidFits hx'.alike) hfits
  rw [hcode₀] at hsame
  cases hsame
  exact ⟨hcoded, hx'.alike, rfl⟩

omit halign halignLt in
theorem TypeInfoTracks.compound (hoptions : SmallOptions arch pLP) :
    CompoundTracks arch pLP (fuel + 1) := by
  intro opened st stD s st' stD' hready halike hbl hfresh hcode hdeclared hsettled
  have hs : s ∉ opened := fun hX => hready.started s hX hfresh
  rw [layoutCompound] at hcode
  obtain ⟨⟨heapC, blC, pC⟩, hstructC, hcode⟩ := bind_ok hcode
  cases hcode
  rw [exactCompound, halike.structs s hs, hbl] at hdeclared
  obtain ⟨⟨heapD, blD, pD⟩, hstructD, hdeclared⟩ := bind_ok hdeclared
  cases hdeclared
  rw [exactCompound]
  cases hdecl : (st.heap.structAt s).declarations with
  | none =>
    unfold layoutStruct at hstructC
    unfold exactStruct at hstructD ⊢
    rw [hdecl] at hstructC hstructD
    cases hstructC
    cases hstructD
    rw [hdecl, call_bind_apply]
    refine ⟨rfl, ?_, rfl⟩
    exact (halike.cons s).close _
  | some declarations =>
    have hbody : (st.heap.structAt s).declarations.isSome = true := by rw [hdecl]; rfl
    have hlaidC := layoutStruct_align hstructC hbody
    have hlaidD := (exactStruct_fields hstructD).2 hbody
    -- both store the same compound, and it fits
    obtain ⟨hsame, hstored⟩ := hsettled s hs (by rwa [Heap.setStruct_self])
      (by rwa [Heap.setStruct_self])
    dsimp only at hsame hstored
    rw [Heap.setStruct_self, Heap.setStruct_self] at hsame
    rw [Heap.setStruct_self] at hstored
    subst hsame
    have hother : heapC.Settled (s :: opened) heapD := by
      intro t ht halign halign'
      obtain ⟨hts, hX⟩ := not_or.mp fun h => ht (List.mem_cons.mpr h)
      have hout := hsettled t hX
      dsimp only at hout
      rw [Heap.setStruct_of_ne _ _ hts, Heap.setStruct_of_ne _ _ hts] at hout
      exact hout halign halign'
    have hsmall := structAlignment_small hoptions hready.sane s
    obtain ⟨hcoded, halike', rfl⟩ := layoutStruct_tracks hagrees h hsmall.1 hsmall.2 hdecl
      ⟨hready.sane, hready.started, halike.cons s⟩ (initialFrame_sound hoptions hready.sane st.bl s)
      hstructC hstructD hother hstored
    rw [hcoded, call_bind_apply]
    exact ⟨rfl, halike'.close _, rfl⟩

end Tracks

section Layout
variable {arch : NativeArch} {pLP : LayoutParam}

/-- The products that the code forms from a size are those that its rule asks for. -/
theorem exactDeclare_coded {base exactBase info known : TypeInfo} {dims : List Value}
    (hsame : SameInfo base exactBase) (hcode : base.declare dims = .ok info)
    (hdeclared : exactDeclare .declared exactBase dims = .ok known) :
    exactDeclare .coded exactBase dims = .ok known := by
  obtain ⟨hfits, -⟩ := TypeInfo.declare_ok_iff.mp hcode
  obtain ⟨hnonneg, -, rfl⟩ := exactDeclare_ok hdeclared
  have hu32 : u32 exactBase.size = base.size := by
    have hmod : base.size % 4294967296 = exactBase.size % 4294967296 := hsame.size
    rw [u32, ← hmod]
    exact Int.emod_eq_of_lt hsame.nonneg hsame.lt
  have hproduct : ExactRule.coded.product exactBase.size dims = true := by
    unfold ExactRule.coded
    dsimp only
    rw [hu32]
    exact decide_eq_true hfits
  unfold exactDeclare
  dsimp only
  rw [if_neg]
  rintro (hneg | hfalse)
  · omega
  · rw [hproduct] at hfalse
    cases hfalse

end Layout

end ConvertBinaryC
