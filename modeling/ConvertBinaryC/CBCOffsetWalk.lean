import ConvertBinaryC.CBCMemberText
import ConvertBinaryC.CBCOffsetString
import ConvertBinaryC.CBCMemberSteps

/-! What `get_member` makes of the parts of the strings that `get_member_string` writes
(`cbc/member.c`): a name, the indices of a declarator and the typedefs behind it. -/
namespace ConvertBinaryC
open FoldRules

/-- The flags of a caller that wants the offset of any member there is. -/
structure GmFlags.Computes (flags : GmFlags) : Prop where
  computed : flags.do_calc = true
  bounds : flags.reject_out_of_bounds_index = false
  offset : flags.reject_offset = false

/-- The accesses of a string up to an offset at its end. -/
def PathSteps (path : List MeWalkInfo) : Prop :=
  ∀ info ∈ path, (∃ name : String, IsName name.toList ∧ info = .compoundMember name true) ∨
    ∃ index, IsInt index ∧ info = .arrayIndex index

/-- The offset at the end of the walk of `get_member`. -/
def walkOffset (heap : Heap) (fuel : ℕ) (flags : GmFlags) (st : GmState)
    (infos : List MeWalkInfo) : Call ℤ := do
  let st ← gmWalk heap fuel flags false st infos
  .ok st.offset

/-- The accesses lead from one state to another, whatever comes behind them. -/
def Leads (heap : Heap) (fuel : ℕ) (flags : GmFlags) (st : GmState) (path : List MeWalkInfo)
    (st' : GmState) : Prop :=
  ∀ tail, walkOffset heap fuel flags st (path ++ tail) = walkOffset heap fuel flags st' tail

section Path

theorem pathSteps_nil : PathSteps [] := fun _ h => absurd h List.not_mem_nil

theorem PathSteps.append {path path' : List MeWalkInfo} (h : PathSteps path) (h' : PathSteps path') :
    PathSteps (path ++ path') := by
  intro info hinfo
  rcases List.mem_append.mp hinfo with hinfo | hinfo
  · exact h info hinfo
  · exact h' info hinfo

theorem pathSteps_member {name : String} (h : IsName name.toList) :
    PathSteps [.compoundMember name true] := by
  intro info hinfo
  exact .inl ⟨name, h, List.mem_singleton.mp hinfo⟩

theorem pathSteps_index {index : ℤ} (h : IsInt index) : PathSteps [.arrayIndex index] := by
  intro info hinfo
  exact .inr ⟨index, h, List.mem_singleton.mp hinfo⟩

theorem PathSteps.spelled {path tail : List MeWalkInfo} (h : PathSteps path) (first : Bool)
    (htail : ∀ first, Spelled first tail) : Spelled first (path ++ tail) := by
  induction path generalizing first with
  | nil => exact htail first
  | cons info path ih =>
    have hrest := ih (fun info hinfo => h info (List.mem_cons_of_mem _ hinfo)) false
    rcases h info List.mem_cons_self with ⟨name, hname, rfl⟩ | ⟨index, hindex, rfl⟩
    · exact ⟨hname, fun hdot => absurd hdot.symm Bool.false_ne_true, hrest⟩
    · exact ⟨hindex, hrest⟩

end Path

section Leads
variable {heap : Heap} {fuel : ℕ} {flags : GmFlags} {st st' st'' : GmState}
  {path path' : List MeWalkInfo} {mei : MeWalkInfo}

theorem Leads.refl (st : GmState) : Leads heap fuel flags st [] st := fun _ => rfl

theorem Leads.trans (h : Leads heap fuel flags st path st')
    (h' : Leads heap fuel flags st' path' st'') :
    Leads heap fuel flags st (path ++ path') st'' := by
  intro tail
  calc walkOffset heap fuel flags st (path ++ path' ++ tail)
      = walkOffset heap fuel flags st (path ++ (path' ++ tail)) := by rw [List.append_assoc]
    _ = walkOffset heap fuel flags st' (path' ++ tail) := h _
    _ = walkOffset heap fuel flags st'' tail := h' tail

theorem Leads.of_step (hend : mei ≠ .finished) (hfault : walkFault mei = none)
    (h : gmStep heap fuel flags false st mei = .ok st') : Leads heap fuel flags st [mei] st' := by
  intro tail
  have hwalk : gmWalk heap fuel flags false st ([mei] ++ tail) =
      gmWalk heap fuel flags false st' tail := by
    rw [List.singleton_append, gmWalk, if_neg hend, hfault]
    dsimp only
    rw [h]
    rfl
  unfold walkOffset
  rw [hwalk]

/-- The typedefs behind a state are followed by any access. -/
theorem Leads.of_resolve (h : gmResolve heap fuel flags st = .ok st')
    (h' : gmResolve heap fuel flags st' = .ok st') (hoffset : st'.offset = st.offset) :
    Leads heap fuel flags st [] st' := by
  intro tail
  rw [List.nil_append]
  unfold walkOffset
  cases tail with
  | nil =>
    show Except.ok st.offset = Except.ok st'.offset
    rw [hoffset]
  | cons mei tail =>
    have hstep : gmStep heap fuel flags false st mei = gmStep heap fuel flags false st' mei := by
      unfold gmStep
      rw [h, h']
    rw [gmWalk, gmWalk]
    by_cases hend : mei = .finished
    · rw [if_pos hend, if_pos hend, call_bind_apply, call_bind_apply, hoffset]
    · rw [if_neg hend, if_neg hend, hstep]

/-- Nothing is followed from an array that is not indexed, a pointer or another type. -/
theorem gmResolve_self (h : ∀ d ∈ st.pDecl,
    st.level < d.dims.length ∨ d.pointer_flag = true ∨ ∀ t, st.pType ≠ .typedef t) :
    gmResolve heap fuel flags st = .ok st := by
  unfold gmResolve
  split
  · rename_i d t hdecl htype
    apply if_neg
    rintro ⟨hpointer, hlevel⟩
    rcases h d hdecl with hlt | hptr | hother
    · exact absurd hlevel (Nat.ne_of_lt hlt)
    · rw [hptr] at hpointer
      exact Bool.true_eq_false.mp hpointer
    · exact hother t htype
  · rfl

theorem gmResolve_typedef (hflags : flags.Computes) {d : Declarator} {t : ℕ}
    {next : TypeSpec × Declarator} (hdecl : st.pDecl = some d) (htype : st.pType = .typedef t)
    (hpointer : d.pointer_flag = false) (hlevel : st.level = d.dims.length)
    (hnext : gmTypedefs heap fuel t = .ok next) : gmResolve heap fuel flags st =
      .ok { st with pType := next.1, pDecl := some next.2, size := next.2.size, level := 0 } := by
  unfold gmResolve
  rw [hdecl, htype]
  dsimp only
  rw [if_pos ⟨hpointer, hlevel⟩, hnext]
  simp only [call_bind_apply, hflags.computed, if_pos]

theorem gmTypedefs_mono {t fuel' : ℕ} {next : TypeSpec × Declarator} (hle : fuel ≤ fuel')
    (h : gmTypedefs heap fuel t = .ok next) : gmTypedefs heap fuel' t = .ok next := by
  induction fuel generalizing t fuel' with
  | zero => exact nomatch h
  | succ fuel ih =>
    obtain ⟨fuel', rfl⟩ := Nat.exists_eq_succ_of_ne_zero (Nat.ne_of_gt (Nat.zero_lt_of_lt hle))
    have hle : fuel ≤ fuel' := Nat.le_of_succ_le_succ hle
    unfold gmTypedefs at h ⊢
    dsimp only at h ⊢
    split at h
    · split_ifs at h with hplain
      · rw [if_pos hplain]
        exact ih hle h
      · rw [if_neg hplain]
        exact h
    · exact h

/-- The loop over typedefs stops at an array, a pointer or another type. -/
theorem gmTypedefs_stops {t : ℕ} {next : TypeSpec × Declarator}
    (h : gmTypedefs heap fuel t = .ok next) : next.2.isArray = true ∨ next.2.pointer_flag = true ∨
      ∀ t, next.1 ≠ .typedef t := by
  induction fuel generalizing t with
  | zero => exact nomatch h
  | succ fuel ih =>
    unfold gmTypedefs at h
    dsimp only at h
    split at h
    · split_ifs at h with hplain
      · exact ih h
      · cases h
        by_cases harray : (heap.typedefAt t).decl.isArray = true
        · exact .inl harray
        · refine .inr (.inl ?_)
          by_contra hpointer
          exact hplain ⟨Bool.eq_false_of_not_eq_true hpointer, Bool.eq_false_of_not_eq_true harray⟩
    · rename_i hother
      cases h
      exact .inr (.inr hother)

theorem gmTypedefs_decl {P : Declarator → Prop} (hP : ∀ t, P (heap.typedefAt t).decl) {t : ℕ}
    {next : TypeSpec × Declarator} (h : gmTypedefs heap fuel t = .ok next) : P next.2 := by
  induction fuel generalizing t with
  | zero => exact nomatch h
  | succ fuel ih =>
    unfold gmTypedefs at h
    dsimp only at h
    split at h
    · split_ifs at h
      · exact ih h
      · cases h
        exact hP t
    · cases h
      exact hP t

end Leads

/-- A declarator as the layout leaves it, with dimensions that are not negative. -/
structure Declarator.Sized (d : Declarator) : Prop where
  recorded : Recorded d
  dims : ∀ pValue ∈ d.dims, 0 ≤ pValue.iv ∧ (pValue.undef = true → pValue.iv = 0)

section Dims
variable {heap : Heap} {fuel : ℕ} {flags : GmFlags} {d : Declarator}

theorem tdiv_mul_le_self {a : ℤ} (b : ℤ) (ha : 0 ≤ a) : a.tdiv b * b ≤ a := by
  have hdiv := Int.mul_tdiv_add_tmod a b
  have hmod : 0 ≤ a.tmod b := Int.tmod_nonneg b ha
  rw [mul_comm] at hdiv
  omega

/-- What the code divides by to get an index is the size of an element: no dimension is
larger than what it divides. -/
theorem element_of_index {pValue : Value} {size offset size' index : ℤ} (hpos : 0 ≤ size)
    (hsize : IsInt size) (hoffset : 0 ≤ offset) (hlt : IsInt offset) (hiv : 0 ≤ pValue.iv)
    (hdiv : divideInt size pValue.iv = .ok size') (hindex : divideInt offset size' = .ok index) :
    0 < pValue.iv ∧ pValue.iv < 2147483648 ∧ 0 < size' ∧ size' ≤ size ∧
      0 ≤ index ∧ index * size' ≤ offset := by
  obtain ⟨hne, rfl⟩ := (divideInt_ok_iff hsize hpos).mp hdiv
  obtain ⟨hne', rfl⟩ := (divideInt_ok_iff hlt hoffset).mp hindex
  have hquot : 0 ≤ size.tdiv pValue.iv := Int.tdiv_nonneg hpos hiv
  have hquotPos : 0 < size.tdiv pValue.iv := lt_of_le_of_ne hquot (Ne.symm hne')
  have hle : size.tdiv pValue.iv * pValue.iv ≤ size := tdiv_mul_le_self _ hpos
  have hdim : pValue.iv ≤ size := by
    calc pValue.iv = 1 * pValue.iv := (one_mul _).symm
      _ ≤ size.tdiv pValue.iv * pValue.iv := Int.mul_le_mul_of_nonneg_right (by omega) hiv
      _ ≤ size := hle
  refine ⟨lt_of_le_of_ne hiv (Ne.symm hne), hdim.trans_lt hsize.2, hquotPos, ?_, ?_, ?_⟩
  · exact Int.tdiv_le_self _ hpos
  · exact Int.tdiv_nonneg hoffset hquot
  · exact tdiv_mul_le_self _ hoffset

/-- An index of a string goes to the element that it was written for. -/
theorem leads_index (hflags : flags.Computes) {st : GmState} {pValue : Value}
    {offset size' index : ℤ} (hdecl : st.pDecl = some d) (hdim : d.dims[st.level]? = some pValue)
    (hsized : 0 ≤ pValue.iv ∧ (pValue.undef = true → pValue.iv = 0)) (hsize : 0 ≤ st.size)
    (hint : IsInt st.size) (hoffset : 0 ≤ offset) (hstart : 0 ≤ st.offset)
    (hend : st.offset + offset < 2147483648) (hdiv : divideInt st.size pValue.iv = .ok size')
    (hindex : divideInt offset size' = .ok index) :
    IsInt index ∧ Leads heap fuel flags st [.arrayIndex index]
      { st with size := size', offset := st.offset + index * size', level := st.level + 1 } := by
  have hbound : IsInt offset := ⟨by omega, by omega⟩
  obtain ⟨hiv, hivLt, hpos, hle, hindexPos, hmul⟩ :=
    element_of_index hsize hint hoffset hbound hsized.1 hdiv hindex
  have hlevel : st.level < d.dims.length := (List.getElem?_eq_some_iff.mp hdim).1
  have hindexLe : index ≤ offset := by
    calc index = index * 1 := (mul_one _).symm
      _ ≤ index * size' := Int.mul_le_mul_of_nonneg_left (by omega) hindexPos
      _ ≤ offset := hmul
  refine ⟨⟨by omega, by omega⟩, ?_⟩
  have hseen : MeWalkInfo.arrayIndex index ≠ .finished := fun h => nomatch h
  refine Leads.of_step hseen rfl ?_
  have hself : gmResolve heap fuel flags st = .ok st := by
    apply gmResolve_self
    intro d' hd'
    rw [hdecl] at hd'
    rw [← Option.some.inj hd']
    exact .inl hlevel
  have harray : ¬ (st.level = 0 ∧ d.isArray = false) := by
    rw [Declarator.isArray_of_dims hlevel]
    exact fun h => Bool.true_eq_false.mp h.2
  have hundef : pValue.undef = false := by
    apply Bool.eq_false_of_not_eq_true
    intro hundef
    exact absurd (hsized.2 hundef) (Int.ne_of_gt hiv)
  have helement : gmElementSize flags d pValue st.level st.size index = .ok size' := by
    have hwrap : i32 pValue.iv = pValue.iv := i32_of_lt (by omega) hivLt
    unfold gmElementSize
    rw [hundef, if_neg Bool.false_ne_true, hflags.bounds, hflags.computed]
    dsimp only
    rw [if_neg (fun h => Bool.false_ne_true h.1), if_neg (fun h => Bool.false_ne_true h.1),
      if_pos rfl, if_neg (not_lt.mpr hsize), hwrap, hdiv]
  have hmulPos : 0 ≤ index * size' := Int.mul_nonneg hindexPos hpos.le
  have hsum : gmOffset flags st.offset size' index = .ok (st.offset + index * size') :=
    (gmOffset_ok_iff hflags.computed).mpr
      ⟨hpos.le, ⟨by omega, by omega⟩, ⟨by omega, by omega⟩, rfl⟩
  unfold gmStep
  rw [hself, call_bind_apply]
  show gmIndex flags st index = _
  unfold gmIndex
  rw [hdecl]
  dsimp only
  rw [if_neg harray, hdim]
  dsimp only
  rw [helement, call_bind_apply, hsum, call_bind_apply]

/-- The indices that are written for a declarator go through its dimensions to what is left of
the offset. -/
theorem leads_dims (hflags : flags.Computes) (hd : d.Sized) {dims : List Value} {st : GmState}
    {offset rest : ℤ} {sv sv' : String} (hdecl : st.pDecl = some d)
    (hdims : d.dims.drop st.level = dims) (hlevel : st.level ≤ d.dims.length) (hsize : 0 ≤ st.size)
    (hint : IsInt st.size) (hoffset : 0 ≤ offset) (hstart : 0 ≤ st.offset)
    (hend : st.offset + offset < 2147483648) (h : gmsDims dims st.size offset sv = .ok (rest, sv')) :
    ∃ path st', PathSteps path ∧ sv' = sv ++ memberText path ∧ Leads heap fuel flags st path st' ∧
      st'.pType = st.pType ∧ st'.pDecl = some d ∧ st'.level = d.dims.length ∧ 0 ≤ st'.offset ∧
      0 ≤ rest ∧ st'.offset + rest = st.offset + offset := by
  induction dims generalizing st offset sv with
  | nil =>
    cases h
    refine ⟨[], st, pathSteps_nil, ?_, Leads.refl st, rfl, hdecl, ?_, hstart, hoffset, rfl⟩
    · rw [memberText_nil, String.append_empty]
    · exact le_antisymm hlevel (List.drop_eq_nil_iff.mp hdims)
  | cons pValue dims ih =>
    obtain ⟨size', hdiv, h⟩ := bind_ok h
    obtain ⟨index, hindex, h⟩ := bind_ok h
    have hlt : st.level < d.dims.length := by
      by_contra hge
      rw [List.drop_eq_nil_of_le (not_lt.mp hge)] at hdims
      exact nomatch hdims
    have hsplit := List.drop_eq_getElem_cons hlt
    rw [hdims] at hsplit
    obtain ⟨hvalue, hrest⟩ := List.cons.inj hsplit
    have hdim : d.dims[st.level]? = some pValue := by
      rw [List.getElem?_eq_getElem hlt, hvalue]
    have hmem : pValue ∈ d.dims := by
      rw [hvalue]
      exact List.getElem_mem hlt
    have hbound : IsInt offset := ⟨by omega, by omega⟩
    obtain ⟨-, -, hpos, hle, hindexPos, hmul⟩ :=
      element_of_index hsize hint hoffset hbound (hd.dims pValue hmem).1 hdiv hindex
    obtain ⟨hindexInt, hleads⟩ := @leads_index heap fuel flags d hflags st pValue offset size' index
      hdecl hdim (hd.dims pValue hmem) hsize hint hoffset hstart hend hdiv hindex
    have hmulPos : 0 ≤ index * size' := Int.mul_nonneg hindexPos hpos.le
    have hsizeInt : IsInt size' := ⟨by omega, hle.trans_lt hint.2⟩
    obtain ⟨path, st', hpath, htext, hnext, htype, hdecl', hlevel', hpos', hrest', hsum⟩ :=
      @ih { st with size := size', offset := st.offset + index * size', level := st.level + 1 }
        (offset - index * size') (sv ++ ("[" ++ toString index ++ "]")) hdecl hrest.symm hlt hpos.le
        hsizeInt (by omega) (by show 0 ≤ _ + _; omega)
        (by show st.offset + _ + _ < _; omega) h
    refine ⟨[.arrayIndex index] ++ path, st', (pathSteps_index hindexInt).append hpath, ?_,
      hleads.trans hnext, htype, hdecl', hlevel', hpos', hrest', ?_⟩
    · rw [htext, memberText_append, String.append_assoc]
      rfl
    · rw [hsum]
      show st.offset + index * size' + (offset - index * size') = _
      omega

end Dims

/-- A state in front of a declarator that is not indexed yet. -/
structure GmState.AtDeclarator (st : GmState) (pType : TypeSpec) (pDecl : Declarator) : Prop where
  type : st.pType = pType
  decl : st.pDecl = some pDecl
  level : st.level = 0
  size : st.size = pDecl.size

/-- A state behind the last dimension of a declarator, where no typedef is left to follow. -/
structure GmState.Behind (st : GmState) (pType : TypeSpec) (pDecl : Declarator) : Prop where
  type : st.pType = pType
  decl : st.pDecl = some pDecl
  level : st.level = pDecl.dims.length
  stops : pDecl.pointer_flag = true ∨ ∀ t, pType ≠ .typedef t

section Chain
variable {heap : Heap} {fuel follow turns : ℕ} {flags : GmFlags}

theorem GmState.Behind.resolve {st : GmState} {pType : TypeSpec} {pDecl : Declarator}
    (h : st.Behind pType pDecl) : gmResolve heap fuel flags st = .ok st := by
  apply gmResolve_self
  intro d hd
  rw [h.decl] at hd
  rw [← Option.some.inj hd, h.type]
  exact .inr h.stops

/-- Behind its last dimension a declarator leads to what its typedef stands for. -/
theorem leads_typedef (hflags : flags.Computes) (hsized : ∀ t, (heap.typedefAt t).decl.Sized)
    {st : GmState} {d : Declarator} {t : ℕ} {next : TypeSpec × Declarator}
    (hdecl : st.pDecl = some d) (htype : st.pType = .typedef t) (hpointer : d.pointer_flag = false)
    (hlevel : st.level = d.dims.length) (hnext : gmTypedefs heap fuel t = .ok next) :
    Leads heap fuel flags st []
      { st with pType := next.1, pDecl := some next.2, size := next.2.size, level := 0 } := by
  have hresolve := gmResolve_typedef hflags hdecl htype hpointer hlevel hnext
  apply Leads.of_resolve hresolve
  · apply gmResolve_self
    intro d' hd'
    rw [← Option.some.inj hd']
    rcases gmTypedefs_stops hnext with harray | hstop
    · left
      -- an array has a dimension that is left to index
      have hdims := Declarator.dims_nil_iff (gmTypedefs_decl hsized hnext).recorded.1
      show 0 < _
      apply Nat.pos_of_ne_zero
      intro hzero
      rw [hdims.mp hzero.symm] at harray
      exact Bool.false_ne_true harray
    · exact .inr hstop
  · rfl

/-- What is written for a declarator and the typedefs behind it leads behind the last of them. -/
theorem leads_chain (hflags : flags.Computes) (hsized : ∀ t, (heap.typedefAt t).decl.Sized)
    (hfollow : follow ≤ fuel) {st : GmState} {pType : TypeSpec} {pDecl : Declarator}
    {offset rest : ℤ} {sv sv' : String} {pType' : TypeSpec} {pDecl' : Declarator}
    (hat : st.AtDeclarator pType pDecl) (hd : pDecl.Sized) (hoffset : 0 ≤ offset)
    (hstart : 0 ≤ st.offset) (hend : st.offset + offset < 2147483648)
    (h : gmsChain heap follow turns pType pDecl offset sv = .ok (pType', pDecl', rest, sv')) :
    ∃ path st', PathSteps path ∧ sv' = sv ++ memberText path ∧ Leads heap fuel flags st path st' ∧
      st'.Behind pType' pDecl' ∧ 0 ≤ st'.offset ∧ 0 ≤ rest ∧
      st'.offset + rest = st.offset + offset := by
  induction turns generalizing st pType pDecl offset sv with
  | zero => exact nomatch h
  | succ turns ih =>
    obtain ⟨hsize, left, text, hdims, hnext⟩ := gmsChain_ok heap h
    have hdrop : pDecl.dims.drop st.level = pDecl.dims := by
      rw [hat.level]
      rfl
    rw [← hat.size] at hdims hsize
    have hint : IsInt st.size := by
      rw [hat.size]
      exact hd.recorded.2.1
    obtain ⟨path, st', hpath, htext, hleads, htype, hdecl, hlevel, hpos, hleft, hsum⟩ :=
      @leads_dims heap fuel flags pDecl hflags hd pDecl.dims st offset left sv text hat.decl hdrop
        (by rw [hat.level]; exact Nat.zero_le _) hsize hint hoffset hstart hend hdims
    rw [hat.type] at htype
    rcases hnext with ⟨hstops, hresult⟩ | ⟨hpointer, t, rfl, next, hnext, hchain⟩
    · cases hresult
      exact ⟨path, st', hpath, htext, hleads, ⟨htype, hdecl, hlevel, hstops⟩, hpos, hleft, hsum⟩
    · have hnext' : gmTypedefs heap fuel t = .ok next := gmTypedefs_mono hfollow hnext
      have hfirst := leads_typedef hflags hsized hdecl htype hpointer hlevel hnext'
      obtain ⟨path', st'', hpath', htext', hleads', hbehind, hpos', hrest, hsum'⟩ :=
        @ih { st' with pType := next.1, pDecl := some next.2, size := next.2.size, level := 0 }
          next.1 next.2 left text ⟨rfl, rfl, rfl, rfl⟩ (gmTypedefs_decl hsized hnext) hleft hpos
          (by rw [hsum]; exact hend) hchain
      refine ⟨path ++ path', st'', hpath.append hpath', ?_, ?_, hbehind, hpos', hrest, ?_⟩
      · rw [htext', htext, memberText_append, String.append_assoc]
      · have hjoined := (hleads.trans hfirst).trans hleads'
        rw [List.append_nil] at hjoined
        exact hjoined
      · rw [hsum']
        exact hsum

end Chain

end ConvertBinaryC
