import ConvertBinaryC.CBCDimension
import ConvertBinaryC.CBCFlexibleCount

/-! When the lookup of a dimension in the data ends the process. -/
namespace ConvertBinaryC
open FoldRules

/-- A call returns, or raises an exception that can be caught. -/
def Catchable {α : Type} (r : EStateM.Result Fault PackInfo α) : Prop :=
  match r with
  | .ok _ _ => True
  | .error e _ => ∃ msg, e = .croak msg

theorem catchable_liftCall {α : Type} {c : Call α} (st : PackInfo)
    (h : ∀ e, c = .error e → ∀ msg, e ≠ .croak msg) :
    Catchable (liftCall c st) ↔ ∃ a, c = .ok a := by
  cases c with
  | ok a => exact ⟨fun _ => ⟨a, rfl⟩, fun _ => trivial⟩
  | error e => exact ⟨fun ⟨msg, hmsg⟩ => absurd hmsg (h e rfl msg), fun ⟨_, ha⟩ => (nomatch ha)⟩

/-- One step of a path into a value. -/
def SV.child (sv : SV) (info : MeWalkInfo) : Option SV :=
  match info, sv with
  | .compoundMember name _, .hv entries => entries.lookup name
  | .arrayIndex index, .av elems => if index ≥ elems.length then none else avFetch elems index
  | _, _ => none

/-- The value at the end of a path. -/
def SV.locate : SV → List MeWalkInfo → Option SV
  | sv, [] => some sv
  | sv, info :: path => (sv.child info).bind fun sv => sv.locate path

/-- Wherever the path indexes an array, it is behind the end or finds an element. -/
def Unbroken (sv : SV) (infos : List MeWalkInfo) : Prop :=
  ∀ path (index : ℤ) rest elems, infos = path ++ .arrayIndex index :: rest →
    sv.locate path = some (.av elems) → index < elems.length → ∃ e, avFetch elems index = some e

/-- The reports that lead to a member. -/
def MeWalkInfo.IsStep (info : MeWalkInfo) : Prop :=
  (∃ name has_dot, info = .compoundMember name has_dot) ∨ ∃ index, info = .arrayIndex index

theorem unbroken_nil (sv : SV) : Unbroken sv [] := by
  intro path index rest elems hnil
  exact absurd hnil.symm (List.append_ne_nil_of_right_ne_nil _ (List.cons_ne_nil _ _))

/-- Nothing is looked up from the end on. -/
theorem unbroken_finished (sv : SV) (infos : List MeWalkInfo) :
    Unbroken sv (.finished :: infos) := by
  intro path index rest elems hinfos hlocate
  cases path with
  | nil => exact nomatch hinfos
  | cons info path =>
    obtain ⟨rfl, -⟩ := List.cons.inj hinfos
    cases sv <;> exact nomatch hlocate

theorem unbroken_cons {sv : SV} {info : MeWalkInfo} {infos : List MeWalkInfo} :
    Unbroken sv (info :: infos) ↔
      (∀ (index : ℤ) elems, info = .arrayIndex index → sv = .av elems → index < elems.length →
        ∃ e, avFetch elems index = some e) ∧
      ∀ child, sv.child info = some child → Unbroken child infos := by
  constructor
  · intro h
    constructor
    · rintro index elems rfl rfl hlt
      exact h [] index infos elems rfl rfl hlt
    · intro child hchild path index rest elems hinfos hlocate
      apply h (info :: path) index rest elems (by rw [hinfos, List.cons_append])
      rw [SV.locate, hchild]
      exact hlocate
  · rintro ⟨hhead, htail⟩ path index rest elems hinfos hlocate
    cases path with
    | nil =>
      obtain ⟨rfl, rfl⟩ := List.cons.inj hinfos
      exact hhead index elems rfl (Option.some.inj hlocate)
    | cons info' path =>
      obtain ⟨rfl, rfl⟩ := List.cons.inj hinfos
      rw [SV.locate] at hlocate
      obtain ⟨child, hchild, hlocate⟩ := Option.bind_eq_some_iff.mp hlocate
      exact htail child hchild path index rest elems rfl hlocate

/-- A step of the walk finds the child, except that a hole is fatal. -/
theorem dimensionStep_member (parent : Hash) (sv : SV) (name : String) (has_dot : Bool) :
    dimensionStep parent (some sv) (.compoundMember name has_dot) =
      .ok (sv.child (.compoundMember name has_dot)) := by
  cases sv <;> rfl

theorem dimensionStep_index (parent : Hash) (sv : SV) (index : ℤ)
    (h : ∀ elems, sv = .av elems → index < elems.length → ∃ e, avFetch elems index = some e) :
    dimensionStep parent (some sv) (.arrayIndex index) = .ok (sv.child (.arrayIndex index)) := by
  cases sv with
  | av elems =>
    rw [dimensionStep, SV.child]
    by_cases hlt : index < elems.length
    · obtain ⟨e, he⟩ := h elems rfl hlt
      rw [if_neg (not_le.mpr hlt), if_neg (not_le.mpr hlt), he]
    · rw [if_pos (not_lt.mp hlt), if_pos (not_lt.mp hlt)]
  | undef => rfl
  | scalar s => rfl
  | hv entries => rfl
  | ref id => rfl

theorem dimensionStep_hole (parent : Hash) {elems : List (Option SV)} {index : ℤ}
    (hlt : index < elems.length) (hhole : avFetch elems index = none) :
    dimensionStep parent (some (.av elems)) (.arrayIndex index) =
      .error (.fatal "cannot find index") := by
  rw [dimensionStep, if_neg (not_le.mpr hlt), hhole]

/-- The walk goes on from a child, and returns where there is none. -/
theorem dimensionWalk_step (perl : Perl) (parent : Hash) (sv : SV) {info : MeWalkInfo}
    (infos : List MeWalkInfo) (hinfo : info ≠ .finished)
    (hstep : dimensionStep parent (some sv) info = .ok (sv.child info)) :
    (∃ dim, dimensionWalk perl parent (some sv) (info :: infos) = .ok dim) ↔
      ∀ child, sv.child info = some child →
        ∃ dim, dimensionWalk perl parent (some child) infos = .ok dim := by
  rw [dimensionWalk, if_neg hinfo, hstep, call_bind_apply]
  cases sv.child info with
  | none => exact ⟨fun _ _ h => (nomatch h), fun _ => ⟨_, rfl⟩⟩
  | some child => exact ⟨fun h _ heq => Option.some.inj heq ▸ h, fun h => h child rfl⟩

/-- The walk returns exactly if no lookup on its way comes to a hole. -/
theorem dimensionWalk_returns_iff (perl : Perl) (parent : Hash) (sv : SV)
    (infos : List MeWalkInfo) (hsteps : ∀ info ∈ infos.takeWhile (· ≠ .finished), info.IsStep) :
    (∃ dim, dimensionWalk perl parent (some sv) infos = .ok dim) ↔ Unbroken sv infos := by
  -- along the expression, from whatever value the walk has come to
  induction infos generalizing sv with
  | nil => exact ⟨fun _ => unbroken_nil sv, fun _ => ⟨_, rfl⟩⟩
  | cons info infos ih =>
    by_cases hfinished : info = .finished
    · subst hfinished
      exact ⟨fun _ => unbroken_finished sv infos, fun _ => ⟨_, rfl⟩⟩
    · rw [List.takeWhile_cons_of_pos (by simpa using hfinished), List.forall_mem_cons] at hsteps
      have hrest := fun child => ih child hsteps.2
      rw [unbroken_cons]
      rcases hsteps.1 with ⟨name, has_dot, rfl⟩ | ⟨index, rfl⟩
      · rw [dimensionWalk_step perl parent sv infos hfinished
          (dimensionStep_member parent sv name has_dot)]
        simp only [hrest]
        exact ⟨fun h => ⟨by simp, h⟩, fun h => h.2⟩
      · by_cases hhead : ∀ elems, sv = .av elems → index < elems.length →
            ∃ e, avFetch elems index = some e
        · rw [dimensionWalk_step perl parent sv infos hfinished
            (dimensionStep_index parent sv index hhead)]
          simp only [hrest]
          refine ⟨fun h => ⟨?_, h⟩, fun h => h.2⟩
          rintro index' elems ⟨⟩
          exact hhead elems
        · refine ⟨?_, fun h => absurd (fun elems => h.1 index elems rfl) hhead⟩
          push Not at hhead
          obtain ⟨elems, rfl, hlt, hhole⟩ := hhead
          have hnone : avFetch elems index = none :=
            Option.eq_none_iff_forall_ne_some.mpr hhole
          rw [dimensionWalk, if_neg hfinished, dimensionStep_hole parent hlt hnone]
          rintro ⟨dim, hdim⟩
          cases hdim

section Accepted
variable {heap : Heap} {fuel : ℕ}

/-- `get_member` only accepts steps when it rejects offsets. -/
theorem gmWalk_steps {flags : GmFlags} (hflags : flags.reject_offset = true) {dotless : Bool}
    {st st' : GmState} {infos : List MeWalkInfo}
    (h : gmWalk heap fuel flags dotless st infos = .ok st') :
    ∀ info ∈ infos.takeWhile (· ≠ .finished), info.IsStep := by
  induction infos generalizing dotless st with
  | nil => exact fun info hinfo => absurd hinfo List.not_mem_nil
  | cons info infos ih =>
    by_cases hfinished : info = .finished
    · rw [hfinished, List.takeWhile_cons_of_neg (by decide)]
      exact fun info hinfo => absurd hinfo List.not_mem_nil
    · rw [List.takeWhile_cons_of_pos (by simpa using hfinished), List.forall_mem_cons]
      rw [gmWalk, if_neg hfinished] at h
      cases hfault : walkFault info with
      | some e =>
        rw [hfault] at h
        exact nomatch h
      | none =>
        rw [hfault] at h
        obtain ⟨st₁, hstep, hrest⟩ := bind_ok h
        refine ⟨?_, ih hrest⟩
        obtain ⟨st₂, -, hinfo⟩ := bind_ok hstep
        cases info with
        | compoundMember name has_dot => exact .inl ⟨name, has_dot, rfl⟩
        | arrayIndex index => exact .inr ⟨index, rfl⟩
        | offset n =>
          rw [hflags] at hinfo
          exact nomatch hinfo
        | _ => exact nomatch hinfo

/-- What `validate_member_expression` accepts, `get_member` has found. -/
theorem validate_getMember {pmi : MemberInfo} {member type : String}
    (h : validateMemberExpression heap fuel pmi member type = .ok ()) :
    ∃ s mi2, pmi.parent = some s ∧
      getMember heap fuel dimensionFlags (parentInfo heap s) member = .ok (some mi2) ∧
      validateMember heap fuel pmi mi2 member type = .ok () := by
  rw [validateMemberExpression] at h
  cases hparent : pmi.parent with
  | none =>
    rw [hparent] at h
    exact nomatch h
  | some s =>
    rw [hparent] at h
    obtain ⟨found, hfound, hrest⟩ := bind_ok h
    cases found with
    | none => exact nomatch hrest
    | some mi2 => exact ⟨s, mi2, rfl, hfound, hrest⟩

theorem gmStart_parent (s : ℕ) :
    gmStart heap dimensionFlags (parentInfo heap s) =
      .ok ⟨.compound (heap.structAt s).kind s, none, none, none, 0, 0, -1⟩ := rfl

/-- What `get_member` finds is what its loop ends with. -/
theorem getMember_found {flags : GmFlags} {pMI mi2 : MemberInfo} {member : String}
    (h : getMember heap fuel flags pMI member = .ok (some mi2)) :
    ∃ st st', gmStart heap flags pMI = .ok st ∧
      gmWalk heap fuel flags flags.accept_dotless_member st (memberExpr member.toList) = .ok st' ∧
      mi2 = ⟨st'.pType, st'.pStruct, st'.pDecl, st'.level, st'.offset, u32 st'.size⟩ := by
  rw [getMember] at h
  cases hfound : (do
      let st ← gmStart heap flags pMI
      gmWalk heap fuel flags flags.accept_dotless_member st (memberExpr member.toList)
      : Call GmState) with
  | ok st' =>
    rw [hfound] at h
    obtain ⟨st, hstart, hwalk⟩ := bind_ok hfound
    exact ⟨st, st', hstart, hwalk, (Option.some.inj (Except.ok.inj h)).symm⟩
  | error e =>
    rw [hfound] at h
    cases e with
    | croak err =>
      dsimp only at h
      split_ifs at h
      exact nomatch h
    | _ => exact nomatch h

/-- An accepted expression starts with a member of the parent. -/
theorem accepted_path {pmi : MemberInfo} {member type : String}
    (h : validateMemberExpression heap fuel pmi member type = .ok ()) :
    (∃ name has_dot infos, memberExpr member.toList = .compoundMember name has_dot :: infos) ∧
      ∀ info ∈ (memberExpr member.toList).takeWhile (· ≠ .finished), info.IsStep := by
  obtain ⟨s, mi2, -, hfound, hmember⟩ := validate_getMember h
  obtain ⟨st, st', hstart, hwalk, rfl⟩ := getMember_found hfound
  rw [gmStart_parent] at hstart
  obtain rfl := Except.ok.inj hstart
  refine ⟨?_, gmWalk_steps rfl hwalk⟩
  -- where the expression ends at once, the parent itself is checked, which is no basic type
  have hparent : ∀ offset size, validateMember heap fuel pmi
      ⟨.compound (heap.structAt s).kind s, none, none, 0, offset, size⟩ member type ≠ .ok () := by
    intro offset size
    rw [validateMember, checkAllowedTypesString]
    cases (heap.structAt s).kind <;> exact fun h => nomatch h
  have hsteps := gmWalk_steps rfl hwalk
  cases hinfos : memberExpr member.toList with
  | nil =>
    rw [hinfos] at hwalk
    obtain rfl := Except.ok.inj hwalk
    exact absurd hmember (hparent 0 _)
  | cons info infos =>
    rw [hinfos] at hwalk hsteps
    by_cases hfinished : info = .finished
    · rw [gmWalk, if_pos hfinished] at hwalk
      obtain rfl := Except.ok.inj hwalk
      exact absurd hmember (hparent 0 _)
    · rw [List.takeWhile_cons_of_pos (by simpa using hfinished), List.forall_mem_cons] at hsteps
      rcases hsteps.1 with ⟨name, has_dot, rfl⟩ | ⟨index, rfl⟩
      · exact ⟨name, has_dot, infos, rfl⟩
      · exact nomatch hwalk

end Accepted

/-- The first step of a walk looks into the hash of the parent. -/
theorem dimensionWalk_parent (perl : Perl) (parent : Hash) (name : String) (has_dot : Bool)
    (infos : List MeWalkInfo) :
    dimensionWalk perl parent none (.compoundMember name has_dot :: infos) =
      dimensionWalk perl parent (some (.hv parent)) (.compoundMember name has_dot :: infos) := rfl

theorem dimensionStep_error {parent : Hash} {sv : Option SV} {info : MeWalkInfo} {e : Fault}
    (h : dimensionStep parent sv info = .error e) (msg : String) : e ≠ .croak msg := by
  rintro rfl
  unfold dimensionStep at h
  repeat' split at h
  all_goals exact nomatch h

/-- Where the walk does not return, nothing can catch it. -/
theorem dimensionWalk_error {perl : Perl} {parent : Hash} {sv : Option SV}
    {infos : List MeWalkInfo} {e : Fault} (h : dimensionWalk perl parent sv infos = .error e)
    (msg : String) : e ≠ .croak msg := by
  have hend : ∀ sv, dimensionFound perl sv = .error e → e ≠ .croak msg := by
    intro sv hfound herr
    subst herr
    cases sv with
    | none => cases hfound
    | some sv => cases hfound
  induction infos generalizing sv with
  | nil => exact hend sv h
  | cons info infos ih =>
    rw [dimensionWalk] at h
    split_ifs at h
    · exact hend sv h
    · cases hstep : dimensionStep parent sv info with
      | error e' =>
        rw [hstep] at h
        obtain rfl := Except.error.inj h
        exact dimensionStep_error hstep msg
      | ok found =>
        rw [hstep, call_bind_apply] at h
        cases found with
        | none => cases h
        | some sv => exact ih h

/-- The lookup of a dimension returns, or raises an exception that can be caught, exactly
if on its way into the data no index comes to an element that does not exist: a hole of
the array, or more places before its end than it has elements. -/
theorem dimension_lookup_catchable_iff {heap : Heap} {fuel : ℕ} {pmi : MemberInfo}
    {member type : String} (h : validateMemberExpression heap fuel pmi member type = .ok ())
    (perl : Perl) (st : PackInfo) :
    Catchable (dimensionFromMember perl member st) ↔
      ∀ parent, st.parent = some parent → Unbroken (.hv parent) (memberExpr member.toList) := by
  cases hparent : st.parent with
  | none =>
    have hfrom : dimensionFromMember perl member st = .ok ⟨0, isLong_zero⟩ st := by
      unfold dimensionFromMember
      rw [StateRules.bind_of_ok (rfl : (get : Pk PackInfo) st = .ok st st), hparent]
      rfl
    rw [hfrom]
    exact ⟨fun _ => by simp, fun _ => trivial⟩
  | some parent =>
    have hfrom : dimensionFromMember perl member st =
        (liftCall (dimensionWalk perl parent none (memberExpr member.toList)) : Pk IV) st := by
      unfold dimensionFromMember
      rw [StateRules.bind_of_ok (rfl : (get : Pk PackInfo) st = .ok st st), hparent]
    rw [hfrom]
    obtain ⟨⟨name, has_dot, infos, hinfos⟩, hsteps⟩ := accepted_path h
    have hwalk := dimensionWalk_returns_iff perl parent (.hv parent) _ hsteps
    rw [hinfos, ← dimensionWalk_parent, ← hinfos] at hwalk
    have hunbroken : (∀ parent', some parent = some parent' →
        Unbroken (.hv parent') (memberExpr member.toList)) ↔
          Unbroken (.hv parent) (memberExpr member.toList) :=
      ⟨fun h => h parent rfl, fun h _ heq => Option.some.inj heq ▸ h⟩
    rw [hunbroken, ← hwalk]
    exact catchable_liftCall st fun e he msg => dimensionWalk_error he msg

/-- `struct { int n[2]; int a[1]; }` -/
def indexedCount : Struct :=
  { structOf "" [declaration (.basic T_INT)
        [{ memberAt "n" 0 8 4 with ext := .array [⟨2, false, false⟩] }],
      declaration (.basic T_INT)
        [{ memberAt "a" 8 4 4 with ext := .array [⟨1, false, false⟩] }]] with size := 12 }

/-- The array `a`, as it is found for the tag. -/
def indexedInfo : MemberInfo :=
  ⟨.basic T_INT, some 0, some { memberAt "a" 8 4 4 with ext := .array [⟨1, false, false⟩] }, 0, 8, 4⟩

/-- `{ n => [5, 7] }` -/
def filledHash : Hash := [("n", .av [some (newSViv 5), some (newSViv 7)])]

/-- The same after `delete $n[0]`. -/
def holedHash : Hash := [("n", .av [none, some (newSViv 7)])]

theorem indexed_accepted :
    validateMemberExpression (singleHeap indexedCount) 10 indexedInfo "n[0]" "a" = .ok () := by
  decide +kernel

theorem dimension_lookup_catchable_iff_filled :
    Catchable (dimensionFromMember slotPerl "n[0]" { pkCreate [] 0 with parent := some filledHash }) ↔
      ∀ parent, some filledHash = some parent →
        Unbroken (.hv parent) (memberExpr "n[0]".toList) :=
  dimension_lookup_catchable_iff indexed_accepted slotPerl
    { pkCreate [] 0 with parent := some filledHash }

/-- A tag is accepted whose lookup ends the process for an array with a hole. -/
theorem dimension_lookup_aborts :
    validateMemberExpression (singleHeap indexedCount) 10 indexedInfo "n[0]" "a" = .ok () ∧
      ¬ Catchable (dimensionFromMember slotPerl "n[0]"
        { pkCreate [] 0 with parent := some holedHash }) := by
  refine ⟨indexed_accepted, ?_⟩
  rintro ⟨msg, h⟩
  exact nomatch h

end ConvertBinaryC
