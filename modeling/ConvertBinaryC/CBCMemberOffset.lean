import ConvertBinaryC.CBCMemberSteps

/-! The offset and the size that `get_member` (`cbc/member.c`) computes, compared with the
place that the expression addresses. -/
namespace ConvertBinaryC
open FoldRules

section Steps
variable (cbc : CBC) (fuel : ℕ) (flags : GmFlags)

/-- What one access needs. The typedefs that a place stands for come to an end, and then
it depends on the access. -/
def Place.StepFits (dotless : Bool) (p : Place) : MeWalkInfo → Prop
  | .compoundMember name has_dot =>
    (p.settle cbc.heap fuel).expand cbc.heap = none ∧
      ((!dotless && !has_dot) = false → (p.settle cbc.heap fuel).MemberFits cbc fuel name)
  | .arrayIndex index =>
    (p.settle cbc.heap fuel).expand cbc.heap = none ∧
      (p.settle cbc.heap fuel).IndexFits flags.reject_out_of_bounds_index index
  | .offset n =>
    (p.settle cbc.heap fuel).expand cbc.heap = none ∧ (flags.reject_offset = false →
      (p.settle cbc.heap fuel).SizeFits cbc ∧ storedNumber n = n ∧
        IsInt ((p.settle cbc.heap fuel).offset + n))
  | _ => True

/-- What the accesses of an expression need, one after the other. -/
def Place.WalkFits : Bool → Place → List MeWalkInfo → Prop
  | _, _, [] => True
  | dotless, p, info :: rest => p.StepFits cbc fuel flags dotless info ∧
      ∀ q, p.step cbc.heap fuel flags dotless info = some q → WalkFits false q rest

/-- One turn of the loop, with the errors of the walker. -/
def gmTurn (heap : Heap) (dotless : Bool) (st : GmState) (mei : MeWalkInfo) : Call GmState :=
  match walkFault mei with
  | some e => .error e
  | none => gmStep heap fuel flags dotless st mei

end Steps

section Turn
variable {cbc : CBC} {fuel : ℕ} {flags : GmFlags} {p : Place} {parent : Option ℕ}
  (hheap : cbc.heap.Declarators Recorded)
include hheap

theorem Place.settle_proper (hproper : p.Proper) (fuel : ℕ) : (p.settle cbc.heap fuel).Proper := by
  induction fuel generalizing p with
  | zero => exact hproper
  | succ fuel ih =>
    cases hexpand : p.expand cbc.heap with
    | none =>
      rw [Place.settle_done hexpand]
      exact hproper
    | some q =>
      rw [Place.settle_next hexpand]
      apply ih
      unfold Place.expand at hexpand
      split at hexpand
      · split_ifs at hexpand
        cases hexpand
        intro d hd
        cases hd
        exact ⟨Nat.zero_le _, hheap.typedef _⟩
      · exact nomatch hexpand

omit hheap in
theorem not_linear_outOfFuel (ideal : Option Place) : ¬ Linear cbc ideal (.error .outOfFuel) := by
  cases ideal with
  | none => exact silent_error fun err h => nomatch h
  | some q =>
    rintro ⟨st, hst, -⟩
    exact nomatch hst

/-- An access is made at the place that is settled, or the typedefs have no end. -/
theorem settled_atPlace (hcalc : flags.do_calc = true) {ideal : Option Place} {fits : Prop}
    (access : GmState → Call GmState)
    (haccess : (p.settle cbc.heap fuel).expand cbc.heap = none →
      (Linear cbc ideal (access ((p.settle cbc.heap fuel).state parent)) → fits) ∧
        (fits → AtPlace cbc ideal (access ((p.settle cbc.heap fuel).state parent)))) :
    (Linear cbc ideal (gmResolve cbc.heap fuel flags (p.state parent) >>= access) →
        (p.settle cbc.heap fuel).expand cbc.heap = none ∧ fits) ∧
      ((p.settle cbc.heap fuel).expand cbc.heap = none ∧ fits →
        AtPlace cbc ideal (gmResolve cbc.heap fuel flags (p.state parent) >>= access)) := by
  rw [gmResolve_settle hheap hcalc p parent fuel]
  cases hexpand : (p.settle cbc.heap fuel).expand cbc.heap with
  | some q =>
    constructor
    · exact fun h => absurd h (not_linear_outOfFuel ideal)
    · exact fun h => nomatch h.1
  | none =>
    obtain ⟨hfits, hplace⟩ := haccess hexpand
    exact ⟨fun h => ⟨rfl, hfits h⟩, fun h => hplace h.2⟩

omit hheap in
theorem gmOffset_atPlace (n : ℤ) :
    (Linear cbc (some { p with offset := p.offset + n })
        (int (p.offset + storedNumber n) >>= fun offset =>
          .ok { p.state parent with offset := offset }) →
      p.SizeFits cbc ∧ storedNumber n = n ∧ IsInt (p.offset + n)) ∧
    (p.SizeFits cbc ∧ storedNumber n = n ∧ IsInt (p.offset + n) →
      AtPlace cbc (some { p with offset := p.offset + n })
        (int (p.offset + storedNumber n) >>= fun offset =>
          .ok { p.state parent with offset := offset })) := by
  constructor
  · rintro ⟨st, hst, hoffset, hsize⟩
    obtain ⟨offset, hint, hst⟩ := bind_ok hst
    obtain ⟨hsum, rfl⟩ := int_ok_iff.mp hint
    cases hst
    have hkept : storedNumber n = n := add_left_cancel hoffset
    refine ⟨hsize, hkept, ?_⟩
    rwa [hkept] at hsum
  · rintro ⟨hsize, hkept, hint⟩
    refine ⟨hsize, parent, ?_⟩
    rw [hkept, int_ok_iff.mpr ⟨hint, rfl⟩]
    rfl

theorem gmTurn_atPlace (hcalc : flags.do_calc = true) (hproper : p.Proper) (parent : Option ℕ) (dotless : Bool)
    {info : MeWalkInfo} (hseen : info.Seen) :
    (Linear cbc (p.step cbc.heap fuel flags dotless info)
        (gmTurn fuel flags cbc.heap dotless (p.state parent) info.stored) →
      p.StepFits cbc fuel flags dotless info) ∧
    (p.StepFits cbc fuel flags dotless info → AtPlace cbc (p.step cbc.heap fuel flags dotless info)
      (gmTurn fuel flags cbc.heap dotless (p.state parent) info.stored)) := by
  have hsettled : (p.settle cbc.heap fuel).Proper := Place.settle_proper hheap hproper fuel
  cases info with
  | compoundMember name has_dot =>
    apply settled_atPlace hheap hcalc fun st => gmMember cbc.heap fuel flags dotless st name has_dot
    intro _
    cases haccept : !dotless && !has_dot with
    | true =>
      have hideal : p.step cbc.heap fuel flags dotless (.compoundMember name has_dot) = none :=
        if_pos haccept
      have hreported : Reported (gmMember cbc.heap fuel flags dotless
          ((p.settle cbc.heap fuel).state parent) name has_dot) := ⟨_, if_pos haccept⟩
      rw [hideal]
      exact ⟨fun _ h => (Bool.true_eq_false.mp h).elim, fun _ => hreported⟩
    | false =>
      have hideal : p.step cbc.heap fuel flags dotless (.compoundMember name has_dot) =
          (p.settle cbc.heap fuel).member cbc.heap fuel name :=
        if_neg (fun h => Bool.false_ne_true (haccept.symm.trans h))
      rw [hideal]
      constructor
      · intro hlinear _
        exact (gmMember_atPlace haccept hcalc hsettled).1 hlinear
      · intro hfits
        exact (gmMember_atPlace haccept hcalc hsettled).2 (hfits rfl)
  | arrayIndex index =>
    apply settled_atPlace hheap hcalc fun st => gmIndex flags st (storedNumber index)
    intro _
    exact gmIndex_atPlace hcalc hsettled
  | offset n =>
    apply settled_atPlace hheap hcalc fun st =>
      if flags.reject_offset then gmError "Cannot use offset in compound member expression"
      else do
        let offset ← (if flags.do_calc then int (st.offset + storedNumber n) else .ok st.offset : Call ℤ)
        .ok { st with offset := offset }
    intro _
    cases hreject : flags.reject_offset with
    | true =>
      have hideal : p.step cbc.heap fuel flags dotless (.offset n) = none := if_pos hreject
      rw [hideal, if_pos rfl]
      exact ⟨fun _ h => (Bool.true_eq_false.mp h).elim, fun _ => ⟨_, rfl⟩⟩
    | false =>
      have hideal : p.step cbc.heap fuel flags dotless (.offset n) =
          some { p.settle cbc.heap fuel with offset := (p.settle cbc.heap fuel).offset + n } :=
        if_neg (fun h => Bool.false_ne_true (hreject.symm.trans h))
      rw [hideal, if_neg Bool.false_ne_true, if_pos hcalc]
      constructor
      · intro hlinear _
        exact (gmOffset_atPlace n).1 hlinear
      · intro hfits
        exact (gmOffset_atPlace n).2 (hfits rfl)
  | finished => exact absurd rfl hseen.1
  | errTerminated => exact absurd rfl hseen.2
  | errInvalidMemberStart => exact ⟨fun _ => trivial, fun _ => ⟨_, rfl⟩⟩
  | errInvalidIndex => exact ⟨fun _ => trivial, fun _ => ⟨_, rfl⟩⟩
  | errInvalidChar c => exact ⟨fun _ => trivial, fun _ => ⟨_, rfl⟩⟩
  | errIndexNotTerminated => exact ⟨fun _ => trivial, fun _ => ⟨_, rfl⟩⟩
  | errIncomplete => exact ⟨fun _ => trivial, fun _ => ⟨_, rfl⟩⟩

theorem Place.step_proper (hproper : p.Proper) {dotless : Bool} {info : MeWalkInfo} {q : Place}
    (h : p.step cbc.heap fuel flags dotless info = some q) : q.Proper := by
  have hsettled : (p.settle cbc.heap fuel).Proper := Place.settle_proper hheap hproper fuel
  cases info with
  | compoundMember name has_dot =>
    unfold Place.step at h
    dsimp only at h
    split_ifs at h
    obtain ⟨s, -, h⟩ := Option.bind_eq_some_iff.mp h
    obtain ⟨m, hfind, h⟩ := Option.bind_eq_some_iff.mp h
    cases h
    intro d hd
    cases hd
    have hmem := List.mem_of_find?_eq_some hfind
    exact ⟨Nat.zero_le _, visibleMembers_declarators hheap (List.reduceOption_mem_iff.mp hmem)⟩
  | arrayIndex index =>
    obtain ⟨d, hdecl, h⟩ := Option.bind_eq_some_iff.mp h
    obtain ⟨pValue, hdim, h⟩ := Option.bind_eq_some_iff.mp h
    split_ifs at h
    cases h
    intro d' hd'
    obtain rfl : d = d' := Option.some.inj (hdecl.symm.trans hd')
    exact ⟨(List.getElem?_eq_some_iff.mp hdim).1, (hsettled d hdecl).2⟩
  | offset n =>
    unfold Place.step at h
    dsimp only at h
    split_ifs at h
    cases h
    exact hsettled
  | _ => exact nomatch h

omit hheap in
theorem gmWalk_cons (dotless : Bool) (st : GmState) {info : MeWalkInfo} (hseen : info.Seen)
    (rest : List MeWalkInfo) :
    gmWalk cbc.heap fuel flags dotless st (info.stored :: rest) =
      (gmTurn fuel flags cbc.heap dotless st info.stored >>= fun st =>
        gmWalk cbc.heap fuel flags false st rest) := by
  have hne : ¬ info.stored = .finished := fun h => hseen.1 (info.stored_finished_iff.mp h)
  rw [gmWalk, if_neg hne]
  unfold gmTurn
  cases walkFault info.stored with
  | some e => rfl
  | none => rfl

/-- Every part of the walk is linear if and only if every access fits. -/
theorem walk_linear_iff (hcalc : flags.do_calc = true) {infos : List MeWalkInfo}
    (hseen : ∀ info ∈ infos, info.Seen) (hproper : p.Proper) (parent : Option ℕ) (dotless : Bool) :
    (∀ pre, pre <+: infos → pre ≠ [] → Linear cbc (p.walk cbc.heap fuel flags dotless pre)
        (gmWalk cbc.heap fuel flags dotless (p.state parent) (pre.map MeWalkInfo.stored))) ↔
      p.WalkFits cbc fuel flags dotless infos := by
  induction infos generalizing p parent dotless with
  | nil =>
    refine iff_of_true (fun pre hpre hne => ?_) trivial
    exact absurd (List.prefix_nil.mp hpre) hne
  | cons info rest ih =>
    have hinfo : info.Seen := hseen info List.mem_cons_self
    have hrest : ∀ info ∈ rest, info.Seen := fun x hx => hseen x (List.mem_cons_of_mem _ hx)
    have hcode (pre : List MeWalkInfo) :
        gmWalk cbc.heap fuel flags dotless (p.state parent) ((info :: pre).map MeWalkInfo.stored) =
          (gmTurn fuel flags cbc.heap dotless (p.state parent) info.stored >>= fun st =>
            gmWalk cbc.heap fuel flags false st (pre.map MeWalkInfo.stored)) :=
      gmWalk_cons dotless (p.state parent) hinfo _
    constructor
    · intro hlinear
      have hfirst := hlinear [info] (List.prefix_append [info] rest) (List.cons_ne_nil _ _)
      have hone : Linear cbc (p.step cbc.heap fuel flags dotless info)
          (gmTurn fuel flags cbc.heap dotless (p.state parent) info.stored) := by
        rw [hcode []] at hfirst
        have hwalk : p.walk cbc.heap fuel flags dotless [info] =
            p.step cbc.heap fuel flags dotless info := Option.bind_fun_some _
        rw [hwalk] at hfirst
        cases hturn : gmTurn fuel flags cbc.heap dotless (p.state parent) info.stored with
        | error e =>
          rw [hturn] at hfirst
          exact hfirst
        | ok st =>
          rw [hturn] at hfirst
          exact hfirst
      have hfits := (gmTurn_atPlace hheap hcalc hproper parent dotless hinfo).1 hone
      refine ⟨hfits, fun q hq => ?_⟩
      have hplace := (gmTurn_atPlace hheap hcalc hproper parent dotless hinfo).2 hfits
      rw [hq] at hplace
      obtain ⟨-, parent', hturn⟩ := hplace
      -- the rest of the walk starts at the place that was reached
      apply (ih hrest (Place.step_proper hheap hproper hq) parent' false).mp
      intro pre hpre hne
      have hlin := hlinear (info :: pre) (List.cons_prefix_cons.mpr ⟨rfl, hpre⟩) (List.cons_ne_nil _ _)
      rw [hcode, hturn] at hlin
      have hwalk : p.walk cbc.heap fuel flags dotless (info :: pre) =
          q.walk cbc.heap fuel flags false pre := by
        rw [Place.walk, hq]
        rfl
      rwa [hwalk] at hlin
    · rintro ⟨hfits, hnext⟩ pre hpre hne
      obtain ⟨first, pre, rfl⟩ := List.exists_cons_of_ne_nil hne
      obtain ⟨rfl, hrestPre⟩ := List.cons_prefix_cons.mp hpre
      have hplace := (gmTurn_atPlace hheap hcalc hproper parent dotless hinfo).2 hfits
      rw [hcode, Place.walk]
      cases hstep : p.step cbc.heap fuel flags dotless first with
      | none =>
        rw [hstep] at hplace
        exact reported_bind _ hplace
      | some q =>
        rw [hstep] at hplace
        obtain ⟨hsize, parent', hturn⟩ := hplace
        rw [hturn]
        cases pre with
        | nil => exact ⟨q.state parent', rfl, rfl, hsize⟩
        | cons second pre =>
          have hproper' := Place.step_proper hheap hproper hstep
          exact (ih hrest hproper' parent' false).mpr (hnext q hstep) _ hrestPre
            (List.cons_ne_nil _ _)

end Turn

section Answer
variable (cbc : CBC) (fuel : ℕ) (flags : GmFlags) (pMI : MemberInfo) (member : String)

/-- What `get_member` starts with has a declarator that it can index. -/
def MemberInfo.Valid (pMI : MemberInfo) : Prop :=
  (pMI.pDecl = none → pMI.level = 0) ∧ ∀ d ∈ pMI.pDecl, pMI.level ≤ d.dims.length ∧ Recorded d

/-- The answer for the whole expression is an error message or the offset and the size of
the object, and so it is for what its first accesses address. -/
structure LinearAccess : Prop where
  answer : match (Place.start cbc.heap pMI).walk cbc.heap fuel flags flags.accept_dotless_member
      (accesses member) with
    | none => Reported (getMember cbc.heap fuel flags pMI member) ∨
        getMember cbc.heap fuel flags pMI member = .ok none
    | some p => ∃ mi, getMember cbc.heap fuel flags pMI member = .ok (some mi) ∧
        mi.offset = p.offset ∧ mi.size = p.size cbc
  parts : ∀ pre, pre <+: accesses member → (pre ≠ [] ∨ (gmBase cbc.heap pMI).2.isSome) →
    Linear cbc ((Place.start cbc.heap pMI).walk cbc.heap fuel flags flags.accept_dotless_member pre)
      (gmStart cbc.heap flags pMI >>= fun st =>
        gmWalk cbc.heap fuel flags flags.accept_dotless_member st (pre.map MeWalkInfo.stored))

/-- The size of the declarator to start with can be divided down to the level. -/
def StartFits : Prop :=
  ∀ d ∈ (gmBase cbc.heap pMI).2,
    (0 < pMI.level → 0 ≤ d.size ∧ ∀ v ∈ d.dims.take pMI.level, v.iv ≠ 0) ∧
      u32 (d.size.tdiv ((d.dims.take pMI.level).map Value.iv).prod) = d.partSize pMI.level

/-- The condition for the answer to be exact. -/
structure AccessFits : Prop where
  start : StartFits cbc pMI
  sized : accesses member = [] → (Place.start cbc.heap pMI).SizeFits cbc
  walk : (Place.start cbc.heap pMI).WalkFits cbc fuel flags flags.accept_dotless_member
    (accesses member)

end Answer

section Start
variable {cbc : CBC} {fuel : ℕ} {flags : GmFlags} {pMI : MemberInfo} {member : String}

theorem tdiv_tdiv (a b c : ℤ) : (a.tdiv b).tdiv c = a.tdiv (b * c) := by
  have hnat (m n k : ℕ) : ((m : ℤ).tdiv n).tdiv k = (m : ℤ).tdiv (n * k) := by
    rw [← Int.natCast_mul, ← Int.ofNat_tdiv, ← Int.ofNat_tdiv, ← Int.ofNat_tdiv,
      Nat.div_div_eq_div_mul]
  -- the signs can be taken out one by one
  obtain ⟨m, rfl | rfl⟩ := a.eq_nat_or_neg <;> obtain ⟨n, rfl | rfl⟩ := b.eq_nat_or_neg <;>
    obtain ⟨k, rfl | rfl⟩ := c.eq_nat_or_neg <;>
    simp only [Int.neg_tdiv, Int.tdiv_neg, neg_mul, mul_neg, neg_neg, hnat]

theorem divideDims_ok_iff {dims : List Value} {size r : ℤ} (hsize : size.natAbs < 2147483648) :
    dims.foldlM (fun size pValue => divideInt size pValue.iv) size = .ok r ↔
      (∀ v ∈ dims, v.iv ≠ 0) ∧ r = size.tdiv (dims.map Value.iv).prod := by
  induction dims generalizing size with
  | nil =>
    rw [foldlM_nil_ok, List.map_nil, List.prod_nil, Int.tdiv_one]
    constructor
    · intro h
      exact ⟨fun v hv => absurd hv List.not_mem_nil, (Except.ok.inj h).symm⟩
    · intro h
      rw [h.2]
  | cons v dims ih =>
    have hquot : (size.tdiv v.iv).natAbs ≤ size.natAbs := Int.natAbs_tdiv_le_natAbs size v.iv
    have hstored : i32 (size.tdiv v.iv) = size.tdiv v.iv := i32_of_lt (by omega) (by omega)
    rw [List.foldlM_cons, List.map_cons, List.prod_cons, ← tdiv_tdiv]
    unfold divideInt
    by_cases hzero : v.iv = 0
    · rw [if_pos hzero]
      exact iff_of_false (fun h => nomatch h) (fun h => h.1 v List.mem_cons_self hzero)
    · rw [if_neg hzero, hstored, call_bind_apply]
      have hbound : (size.tdiv v.iv).natAbs < 2147483648 := by omega
      have hrest := ih hbound
      unfold divideInt at hrest
      rw [hrest, List.forall_mem_cons]
      constructor
      · intro h
        exact ⟨⟨hzero, h.1⟩, h.2⟩
      · intro h
        exact ⟨h.1.2, h.2⟩

/-- The size of what is left of a declarator is divided out of its own size. -/
theorem levelSize_ok_iff {d : Declarator} {level : ℕ} {r : ℤ} (hlevel : level ≤ d.dims.length)
    (hint : IsInt d.size) :
    levelSize d level = .ok r ↔
      (0 < level → 0 ≤ d.size ∧ ∀ v ∈ d.dims.take level, v.iv ≠ 0) ∧
        r = d.size.tdiv ((d.dims.take level).map Value.iv).prod := by
  unfold levelSize
  by_cases hzero : level = 0
  · rw [if_pos hzero, hzero, List.take_zero, List.map_nil, List.prod_nil, Int.tdiv_one]
    constructor
    · intro h
      exact ⟨fun hpos => absurd hpos (lt_irrefl 0), (Except.ok.inj h).symm⟩
    · intro h
      rw [h.2]
  · rw [if_neg hzero]
    have hpos : 0 < level := Nat.pos_of_ne_zero hzero
    by_cases hneg : d.size < 0
    · rw [if_pos hneg]
      exact iff_of_false (fun h => nomatch h) (fun h => not_le.mpr hneg (h.1 hpos).1)
    · obtain ⟨hlow, hhigh⟩ := hint
      rw [if_neg hneg, if_neg (not_lt.mpr hlevel), divideDims_ok_iff (by omega)]
      constructor
      · intro h
        exact ⟨fun _ => ⟨not_lt.mp hneg, h.1⟩, h.2⟩
      · intro h
        exact ⟨(h.1 hpos).2, h.2⟩

theorem start_proper (hheap : cbc.heap.Declarators Recorded) (hvalid : pMI.Valid) :
    (Place.start cbc.heap pMI).Proper := by
  obtain ⟨hlevel, hdecl⟩ := hvalid
  intro d hd
  unfold Place.start gmBase at hd ⊢
  split at hd
  · rename_i t hnone htype
    cases hd
    rw [hlevel hnone]
    exact ⟨Nat.zero_le _, hheap.typedef _⟩
  · exact hdecl d hd

theorem gmStart_none (hcalc : flags.do_calc = true) (hnone : (gmBase cbc.heap pMI).2 = none) :
    gmStart cbc.heap flags pMI = .ok ((Place.start cbc.heap pMI).state none) := by
  unfold gmStart gmStartSize
  rw [hcalc]
  dsimp only
  rw [if_pos rfl, hnone]
  unfold Place.state Place.sizeHeld Place.start
  dsimp only
  rw [hnone]
  rfl

/-- With a declarator, what is known at the start is its size. -/
theorem gmStart_some (hcalc : flags.do_calc = true) {d : Declarator}
    (hd : (gmBase cbc.heap pMI).2 = some d) (hproper : (Place.start cbc.heap pMI).Proper) :
    (Linear cbc (some (Place.start cbc.heap pMI)) (gmStart cbc.heap flags pMI) →
      StartFits cbc pMI) ∧
    (StartFits cbc pMI → (Place.start cbc.heap pMI).SizeFits cbc ∧
      gmStart cbc.heap flags pMI = .ok ((Place.start cbc.heap pMI).state none)) := by
  obtain ⟨hlevel, -, hint, -⟩ := hproper d hd
  have hlevel : pMI.level ≤ d.dims.length := hlevel
  have hstart : gmStart cbc.heap flags pMI = (levelSize d pMI.level >>= fun size =>
      .ok ⟨(gmBase cbc.heap pMI).1, some d, none, none, pMI.level, 0, size⟩) := by
    unfold gmStart gmStartSize
    rw [hcalc]
    dsimp only
    rw [if_pos rfl, hd]
  have hsize : (Place.start cbc.heap pMI).size cbc = d.partSize pMI.level := by
    unfold Place.size Place.start
    dsimp only
    rw [hd]
  have hfits : StartFits cbc pMI ↔
      (0 < pMI.level → 0 ≤ d.size ∧ ∀ v ∈ d.dims.take pMI.level, v.iv ≠ 0) ∧
        u32 (d.size.tdiv ((d.dims.take pMI.level).map Value.iv).prod) = d.partSize pMI.level := by
    unfold StartFits
    rw [hd]
    constructor
    · exact fun h => h d rfl
    · intro h d' hd'
      cases hd'
      exact h
  rw [hfits, hstart]
  constructor
  · rintro ⟨st, hst, -, hu32⟩
    obtain ⟨size, hlevelOk, hst⟩ := bind_ok hst
    cases hst
    obtain ⟨hdims, rfl⟩ := (levelSize_ok_iff hlevel hint).mp hlevelOk
    exact ⟨hdims, hu32.trans hsize⟩
  · rintro ⟨hdims, hu32⟩
    set quot := d.size.tdiv ((d.dims.take pMI.level).map Value.iv).prod with hquot
    have hle : quot.natAbs ≤ d.size.natAbs := Int.natAbs_tdiv_le_natAbs _ _
    have hheld : (Place.start cbc.heap pMI).sizeHeld = quot := by
      unfold Place.sizeHeld Place.start
      dsimp only
      rw [hd]
      dsimp only
      by_cases hzero : pMI.level = 0
      · rw [if_pos hzero, hquot, hzero, List.take_zero, List.map_nil, List.prod_nil, Int.tdiv_one]
      · have hnonneg : 0 ≤ d.size := (hdims (Nat.pos_of_ne_zero hzero)).1
        obtain ⟨-, hhigh⟩ := hint
        rw [if_neg hzero, ← hu32]
        unfold u32
        rw [i32_emod]
        exact i32_of_lt (by omega) (by omega)
    constructor
    · unfold Place.SizeFits
      rw [hheld, hsize]
      exact hu32
    · rw [(levelSize_ok_iff hlevel hint).mpr ⟨hdims, rfl⟩]
      unfold Place.state
      rw [hheld]
      unfold Place.start
      rw [hd]
      rfl

theorem gmWalk_takeWhile (dotless : Bool) (st : GmState) (infos : List MeWalkInfo) :
    gmWalk cbc.heap fuel flags dotless st infos =
      gmWalk cbc.heap fuel flags dotless st (infos.takeWhile (· ≠ .finished)) := by
  induction infos generalizing dotless st with
  | nil => rfl
  | cons info rest ih =>
    rw [List.takeWhile_cons]
    by_cases hend : info = .finished
    · have hstop : ¬ decide (info ≠ .finished) = true := fun h => of_decide_eq_true h hend
      rw [if_neg hstop]
      exact if_pos hend
    · have hgo : decide (info ≠ .finished) = true := decide_eq_true hend
      rw [if_pos hgo, gmWalk, gmWalk, if_neg hend, if_neg hend]
      cases walkFault info with
      | some e => rfl
      | none =>
        dsimp only
        cases gmStep cbc.heap fuel flags dotless st info with
        | error e => rfl
        | ok st' => exact ih false st'

/-- The answer of `get_member` is the end of its loop. -/
theorem answer_iff (ideal : Option Place) :
    (match ideal with
      | none => Reported (getMember cbc.heap fuel flags pMI member) ∨
          getMember cbc.heap fuel flags pMI member = .ok none
      | some p => ∃ mi, getMember cbc.heap fuel flags pMI member = .ok (some mi) ∧
          mi.offset = p.offset ∧ mi.size = p.size cbc) ↔
      Linear cbc ideal (gmStart cbc.heap flags pMI >>= fun st =>
        gmWalk cbc.heap fuel flags flags.accept_dotless_member st
          ((accesses member).map MeWalkInfo.stored)) := by
  have hwalk (st : GmState) : gmWalk cbc.heap fuel flags flags.accept_dotless_member st
      (memberExpr member.toList) = gmWalk cbc.heap fuel flags flags.accept_dotless_member st
        ((accesses member).map MeWalkInfo.stored) := by
    rw [gmWalk_takeWhile, memberExpr_accesses]
  unfold getMember
  dsimp only
  simp only [hwalk]
  generalize (gmStart cbc.heap flags pMI >>= fun st =>
    gmWalk cbc.heap fuel flags flags.accept_dotless_member st
      ((accesses member).map MeWalkInfo.stored)) = found
  cases found with
  | ok st =>
    cases ideal with
    | none =>
      refine iff_of_false ?_ (silent_ok st)
      rintro (h | h)
      · exact silent_ok _ h
      · exact nomatch h
    | some p =>
      constructor
      · rintro ⟨mi, hmi, hoffset, hsize⟩
        cases hmi
        exact ⟨st, rfl, hoffset, hsize⟩
      · rintro ⟨st', hst, hoffset, hsize⟩
        cases hst
        exact ⟨_, rfl, hoffset, hsize⟩
  | error e =>
    cases e with
    | croak err =>
      cases ideal with
      | none =>
        refine iff_of_true ?_ ⟨err, rfl⟩
        dsimp only
        split_ifs
        · exact Or.inr rfl
        · exact Or.inl ⟨err, rfl⟩
      | some p =>
        refine iff_of_false ?_ (fun ⟨st, hst, _⟩ => nomatch hst)
        rintro ⟨mi, hmi, -⟩
        dsimp only at hmi
        split_ifs at hmi
        · exact nomatch hmi
    | _ =>
      cases ideal with
      | none =>
        refine iff_of_false ?_ (fun ⟨err, h⟩ => nomatch h)
        rintro (⟨err, h⟩ | h)
        · exact nomatch h
        · exact nomatch h
      | some p =>
        refine iff_of_false ?_ (fun ⟨st, hst, _⟩ => nomatch hst)
        rintro ⟨mi, hmi, -⟩
        exact nomatch hmi

theorem LinearAccess.found {p : Place} (h : LinearAccess cbc fuel flags pMI member)
    (hp : (Place.start cbc.heap pMI).walk cbc.heap fuel flags flags.accept_dotless_member
      (accesses member) = some p) :
    ∃ mi, getMember cbc.heap fuel flags pMI member = .ok (some mi) ∧ mi.offset = p.offset ∧
      mi.size = p.size cbc := by
  have hanswer := h.answer
  rw [hp] at hanswer
  exact hanswer

/-- `get_member` reports an error or finds the offset and the size of what the expression
addresses if and only if every access fits. -/
theorem getMember_linear_iff (hheap : cbc.heap.Declarators Recorded) (hvalid : pMI.Valid)
    (hcalc : flags.no_offset_size_calc = false) :
    LinearAccess cbc fuel flags pMI member ↔ AccessFits cbc fuel flags pMI member := by
  have hcalc : flags.do_calc = true := by
    unfold GmFlags.do_calc
    rw [hcalc]
    rfl
  have hproper : (Place.start cbc.heap pMI).Proper := start_proper hheap hvalid
  have hseen := accesses_seen member
  constructor
  · rintro ⟨hanswer, hparts⟩
    have hlast := (answer_iff _).mp hanswer
    have hstart : StartFits cbc pMI ∧
        gmStart cbc.heap flags pMI = .ok ((Place.start cbc.heap pMI).state none) := by
      cases hbase : (gmBase cbc.heap pMI).2 with
      | none =>
        refine ⟨fun d hd => ?_, gmStart_none hcalc hbase⟩
        rw [hbase] at hd
        exact nomatch hd
      | some d =>
        have hempty := hparts [] List.nil_prefix (Or.inr (by rw [hbase]; rfl))
        have hlinear : Linear cbc (some (Place.start cbc.heap pMI)) (gmStart cbc.heap flags pMI) := by
          have hbind : (gmStart cbc.heap flags pMI >>= fun st =>
              gmWalk cbc.heap fuel flags flags.accept_dotless_member st
                (([] : List MeWalkInfo).map MeWalkInfo.stored)) = gmStart cbc.heap flags pMI :=
            bind_pure _
          rw [hbind] at hempty
          exact hempty
        have hfits := (gmStart_some hcalc hbase hproper).1 hlinear
        exact ⟨hfits, ((gmStart_some hcalc hbase hproper).2 hfits).2⟩
    obtain ⟨hfits, hstart⟩ := hstart
    refine ⟨hfits, fun hnil => ?_, ?_⟩
    · rw [hstart, hnil] at hlast
      obtain ⟨st, hst, -, hsize⟩ := hlast
      cases hst
      exact hsize
    · apply (walk_linear_iff hheap hcalc hseen hproper none flags.accept_dotless_member).mp
      intro pre hpre hne
      have hpart := hparts pre hpre (Or.inl hne)
      rwa [hstart] at hpart
  · rintro ⟨hfits, hsized, hwalk⟩
    have hstart : gmStart cbc.heap flags pMI = .ok ((Place.start cbc.heap pMI).state none) ∧
        ((gmBase cbc.heap pMI).2.isSome → (Place.start cbc.heap pMI).SizeFits cbc) := by
      cases hbase : (gmBase cbc.heap pMI).2 with
      | none => exact ⟨gmStart_none hcalc hbase, fun h => absurd h Bool.false_ne_true⟩
      | some d =>
        obtain ⟨hsize, hstart⟩ := (gmStart_some hcalc hbase hproper).2 hfits
        exact ⟨hstart, fun _ => hsize⟩
    obtain ⟨hstart, hsome⟩ := hstart
    have hwhole := (walk_linear_iff hheap hcalc hseen hproper none flags.accept_dotless_member).mpr hwalk
    have hparts (pre : List MeWalkInfo) (hpre : pre <+: accesses member)
        (hsize : pre = [] → (Place.start cbc.heap pMI).SizeFits cbc) :
        Linear cbc ((Place.start cbc.heap pMI).walk cbc.heap fuel flags flags.accept_dotless_member pre)
          (gmStart cbc.heap flags pMI >>= fun st =>
            gmWalk cbc.heap fuel flags flags.accept_dotless_member st (pre.map MeWalkInfo.stored)) := by
      rw [hstart]
      cases pre with
      | nil => exact ⟨_, rfl, rfl, hsize rfl⟩
      | cons info pre => exact hwhole _ hpre (List.cons_ne_nil _ _)
    constructor
    · apply (answer_iff _).mpr
      exact hparts _ List.prefix_rfl hsized
    · intro pre hpre hdeclared
      apply hparts pre hpre
      intro hnil
      exact hsome (hdeclared.resolve_left fun hne => hne hnil)

end Start

def arrayAt (identifier : String) (offset size item_size : ℤ) (dims : List Value) : Declarator :=
  { memberAt identifier offset size item_size with ext := .array dims }

/-- `struct { char c; int a[2][3]; int z[0]; }` -/
def tableStruct : Struct :=
  { structOf "" [declaration (.basic T_CHAR) [memberAt "c" 0 1 1],
      declaration (.basic T_INT) [arrayAt "a" 4 24 4 [⟨2, false, false⟩, ⟨3, false, false⟩],
        arrayAt "z" 28 0 4 [⟨0, false, false⟩]]] with size := 28 }

def tableCbc : CBC := cbc64 (singleHeap tableStruct)

def tableInfo : MemberInfo := ⟨.compound .struct 0, none, none, 0, 0, 28⟩

theorem tableCbc_recorded : tableCbc.heap.Declarators Recorded := by
  constructor
  · intro s pStructDecl hmem d hd
    have hdecl : d ∈ [memberAt "c" 0 1 1, arrayAt "a" 4 24 4 [⟨2, false, false⟩, ⟨3, false, false⟩],
        arrayAt "z" 28 0 4 [⟨0, false, false⟩]] := by
      rcases List.mem_pair.mp hmem with rfl | rfl
      · exact List.mem_append_left _ hd
      · exact List.mem_cons_of_mem _ hd
    have hall : ∀ d ∈ [memberAt "c" 0 1 1,
        arrayAt "a" 4 24 4 [⟨2, false, false⟩, ⟨3, false, false⟩],
        arrayAt "z" 28 0 4 [⟨0, false, false⟩]],
        d.ext ≠ .array [] ∧ IsInt d.size ∧ IsInt d.item_size := by decide
    exact hall d hdecl
  · intro t
    show Recorded (declNew "")
    exact ⟨by decide, by decide, by decide⟩

/-- `.a[1][2]` -/
theorem getMember_linear_iff_table :
    (LinearAccess tableCbc 2 .none tableInfo ".a[1][2]" ↔
      AccessFits tableCbc 2 .none tableInfo ".a[1][2]") ∧
    getMember tableCbc.heap 2 .none tableInfo ".a[1][2]" = .ok (some ⟨.basic T_INT, some 0,
      some (arrayAt "a" 4 24 4 [⟨2, false, false⟩, ⟨3, false, false⟩]), 2, 24, 4⟩) := by
  refine ⟨getMember_linear_iff tableCbc_recorded ⟨fun _ => rfl, fun d hd => nomatch hd⟩ rfl, ?_⟩
  decide +kernel

/-- An index is cut off to an int, an empty dimension is divided by, and without a member
the size is -1. -/
theorem getMember_not_linear :
    (getMember tableCbc.heap 2 .none tableInfo ".a[4294967296]" = .ok (some ⟨.basic T_INT, some 0,
        some (arrayAt "a" 4 24 4 [⟨2, false, false⟩, ⟨3, false, false⟩]), 1, 4, 12⟩) ∧
      ¬ LinearAccess tableCbc 2 .none tableInfo ".a[4294967296]") ∧
    (getMember tableCbc.heap 2 .none tableInfo ".z[0]" = .error .divideByZero ∧
      ¬ LinearAccess tableCbc 2 .none tableInfo ".z[0]") ∧
    (getMember tableCbc.heap 2 .none tableInfo "+3" =
        .ok (some ⟨.compound .struct 0, none, none, 0, 3, 4294967295⟩) ∧
      ¬ LinearAccess tableCbc 2 .none tableInfo "+3") := by
  have hfar : getMember tableCbc.heap 2 .none tableInfo ".a[4294967296]" = .ok (some ⟨.basic T_INT,
      some 0, some (arrayAt "a" 4 24 4 [⟨2, false, false⟩, ⟨3, false, false⟩]), 1, 4, 12⟩) := by
    decide +kernel
  have hzero : getMember tableCbc.heap 2 .none tableInfo ".z[0]" = .error .divideByZero := by
    decide +kernel
  have hbehind : getMember tableCbc.heap 2 .none tableInfo "+3" =
      .ok (some ⟨.compound .struct 0, none, none, 0, 3, 4294967295⟩) := by decide +kernel
  have hfarPlace : (Place.start tableCbc.heap tableInfo).walk tableCbc.heap 2 .none false
      (accesses ".a[4294967296]") = some ⟨.basic T_INT,
        some (arrayAt "a" 4 24 4 [⟨2, false, false⟩, ⟨3, false, false⟩]), some "a", 1,
        51539607556⟩ := by decide +kernel
  have hzeroPlace : (Place.start tableCbc.heap tableInfo).walk tableCbc.heap 2 .none false
      (accesses ".z[0]") = some ⟨.basic T_INT, some (arrayAt "z" 28 0 4 [⟨0, false, false⟩]),
        some "z", 1, 28⟩ := by decide +kernel
  have hbehindPlace : (Place.start tableCbc.heap tableInfo).walk tableCbc.heap 2 .none false
      (accesses "+3") = some ⟨.compound .struct 0, none, none, 0, 3⟩ := by decide +kernel
  refine ⟨⟨hfar, ?_⟩, ⟨hzero, ?_⟩, ⟨hbehind, ?_⟩⟩
  · intro hlinear
    obtain ⟨mi, hmi, hoffset, -⟩ := hlinear.found hfarPlace
    rw [hfar] at hmi
    cases hmi
    exact absurd hoffset (by decide)
  · intro hlinear
    obtain ⟨mi, hmi, -⟩ := hlinear.found hzeroPlace
    rw [hzero] at hmi
    exact nomatch hmi
  · intro hlinear
    obtain ⟨mi, hmi, -, hsize⟩ := hlinear.found hbehindPlace
    rw [hbehind] at hmi
    cases hmi
    exact absurd hsize (by decide)

end ConvertBinaryC
