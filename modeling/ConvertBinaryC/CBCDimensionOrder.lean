import ConvertBinaryC.CBCDimensionLookup
import ConvertBinaryC.CBCPackRules

/-! Where the member of a Dimension tag lies, and whether it is unpacked before the array
that is tagged. -/
namespace ConvertBinaryC
open FoldRules

section Names
variable (heap : Heap)

/-- The names of a declaration, for the names of the compounds that it can be of. -/
def declarationNames (fuel : ℕ) (names : ℕ → List String) (pStructDecl : StructDeclaration) :
    List String :=
  match pStructDecl.declarators with
  | some declarators => declarators.map Declarator.identifier
  | none =>
    match followTsptr heap fuel pStructDecl.type with
    | .ok s => names s
    | .error _ => []

/-- The names of the members of a compound, also those in unnamed compounds, in the order
of their declarations. -/
def memberNames : ℕ → ℕ → List String
  | 0, _ => []
  | fuel + 1, s => ((heap.structAt s).declarations.getD []).flatMap
      (declarationNames heap fuel (memberNames fuel))

theorem memberNames_split {fuel s : ℕ} {pre post : List StructDeclaration}
    {pStructDecl : StructDeclaration} {inner outer : List String} {x : String}
    (hdecls : (heap.structAt s).declarations.getD [] = pre ++ pStructDecl :: post)
    (hnames : declarationNames heap fuel (memberNames heap fuel) pStructDecl =
      inner ++ x :: outer) :
    memberNames heap (fuel + 1) s =
      (pre.flatMap (declarationNames heap fuel (memberNames heap fuel)) ++ inner) ++
        x :: (outer ++ post.flatMap (declarationNames heap fuel (memberNames heap fuel))) := by
  rw [memberNames, hdecls, List.flatMap_append, List.flatMap_cons, hnames]
  simp only [List.append_assoc, List.cons_append]

/-- The first member with the one name is declared before that with the other. -/
def DeclaredBefore (fuel s : ℕ) (c x : String) : Prop :=
  c ∈ (memberNames heap fuel s).takeWhile (· ≠ x)

end Names

def HasMember (h : Hash) (c : String) : Prop := (h.lookup c).isSome

/-- A hash is extended by members with these names. -/
def Adds (names : List String) (h h' : Hash) : Prop :=
  ∀ c, c ≠ "" → (HasMember h' c ↔ HasMember h c ∨ c ∈ names)

theorem Adds.refl (h : Hash) : Adds [] h h :=
  fun _ _ => ⟨.inl, fun hmem => hmem.resolve_right List.not_mem_nil⟩

theorem Adds.trans {names names' : List String} {h h' h'' : Hash} (hfst : Adds names h h')
    (hsnd : Adds names' h' h'') : Adds (names ++ names') h h'' := by
  intro c hc
  rw [hsnd c hc, hfst c hc, List.mem_append, or_assoc]

theorem hasMember_append (h : Hash) (name c : String) (value : SV) :
    HasMember (h ++ [(name, value)]) c ↔ HasMember h c ∨ c = name := by
  unfold HasMember
  rw [List.lookup_append, Option.isSome_or, Bool.or_eq_true]
  have hone : ([(name, value)] : Hash).lookup c = if c = name then some value else none := by
    rw [List.lookup_cons, List.lookup_nil]
    by_cases hc : c = name
    · rw [if_pos hc, beq_iff_eq.mpr hc]
    · rw [if_neg hc, beq_eq_false_iff_ne.mpr hc]
  rw [hone]
  split_ifs with hc
  · exact ⟨fun _ => .inr hc, fun _ => .inr rfl⟩
  · exact ⟨fun h => .inl (h.resolve_right Bool.noConfusion), fun h => .inl (h.resolve_right hc)⟩

theorem foldlM_adds {α : Type} {f : Hash → α → Pk Hash} {names : α → List String}
    (hf : ∀ a h st h' st', f h a st = .ok h' st' → Adds (names a) h h') (l : List α)
    {h h' : Hash} {st st' : PackInfo} (hfold : l.foldlM f h st = .ok h' st') :
    Adds (l.flatMap names) h h' := by
  induction l generalizing h st with
  | nil =>
    cases hfold
    exact Adds.refl _
  | cons a l ih =>
    rw [List.foldlM_cons] at hfold
    obtain ⟨h₁, st₁, hhead, htail⟩ := StateRules.bind_ok hfold
    rw [List.flatMap_cons]
    exact (hf a h st h₁ st₁ hhead).trans (ih htail)

theorem inScope_returns {α : Type} {scope : Scope} {tags : CtTagList} {m : Pk α}
    {st st' : PackInfo} {a : α} (h : inScope scope tags m st = .ok a st') :
    ∃ t, m ((st.tagged tags).enter scope) = .ok a t := by
  cases hm : m ((st.tagged tags).enter scope) with
  | ok b t =>
    rw [inScope_ok hm] at h
    cases h
    exact ⟨t, rfl⟩
  | error e t =>
    rw [inScope_error hm] at h
    exact nomatch h

section Unpack
variable {perl : Perl} {cbc : CBC}

/-- A member is added to the hash, unless it is there already. -/
theorem unpackMember_adds {unpackType : UnpackTypeFn} {pos : ℤ} {type : TypeSpec} {h h' : Hash}
    {pDecl : Declarator} {st st' : PackInfo}
    (hrun : unpackMember unpackType pos type h pDecl st = .ok h' st') :
    Adds [pDecl.identifier] h h' := by
  intro c hc
  rw [List.mem_singleton]
  rw [unpackMember] at hrun
  split_ifs at hrun with hskip
  · cases hrun
    refine ⟨.inl, ?_⟩
    rintro (hmem | rfl)
    · exact hmem
    · exact hskip.resolve_left hc
  · obtain ⟨_, _, _, h₁⟩ := StateRules.bind_ok hrun
    obtain ⟨_, _, _, h₂⟩ := StateRules.bind_ok h₁
    obtain ⟨value, _, _, h₃⟩ := StateRules.bind_ok h₂
    obtain ⟨_, _, _, h₄⟩ := StateRules.bind_ok h₃
    cases h₄
    exact hasMember_append h pDecl.identifier c value

theorem unpackDeclaration_adds {fuel : ℕ} {unpackType : UnpackTypeFn}
    {unpackStruct : UnpackStructFn} {names : ℕ → List String}
    (hstruct : ∀ s h st sv st', unpackStruct s (some h) st = .ok sv st' →
      ∃ h', sv = .hv h' ∧ Adds (names s) h h')
    {pos : ℤ} {h h' : Hash} {pStructDecl : StructDeclaration} {st st' : PackInfo}
    (hrun : unpackDeclaration cbc fuel unpackType unpackStruct pos h pStructDecl st = .ok h' st') :
    Adds (declarationNames cbc.heap fuel names pStructDecl) h h' := by
  rw [unpackDeclaration] at hrun
  rw [declarationNames]
  cases hdecls : pStructDecl.declarators with
  | some declarators =>
    rw [hdecls] at hrun
    have hadds := foldlM_adds (f := unpackMember unpackType pos pStructDecl.type)
      (fun _ _ _ _ _ => unpackMember_adds) declarators hrun
    rwa [← List.map_eq_flatMap] at hadds
  | none =>
    rw [hdecls] at hrun
    obtain ⟨s, st₁, hfollow, h₁⟩ := StateRules.bind_ok hrun
    obtain ⟨_, st₂, -, h₂⟩ := StateRules.bind_ok h₁
    obtain ⟨sv, st₃, hinner, h₃⟩ := StateRules.bind_ok h₂
    obtain ⟨h'', rfl, hadds⟩ := hstruct s h st₂ sv st₃ hinner
    cases h₃
    rw [(liftCall_ok hfollow).1]
    exact hadds

theorem unpackStruct_adds (fuel s : ℕ) {h : Hash} {st st' : PackInfo} {sv : SV}
    (hrun : unpackStruct perl cbc fuel s (some h) st = .ok sv st') :
    ∃ h', sv = .hv h' ∧ Adds (memberNames cbc.heap fuel s) h h' := by
  induction fuel generalizing s h st sv st' with
  | zero => exact nomatch hrun
  | succ fuel ih =>
    rw [unpackStruct, unpackStructStep] at hrun
    obtain ⟨h', t, hscope, hpure⟩ := StateRules.bind_ok hrun
    cases hpure
    refine ⟨h', rfl, ?_⟩
    obtain ⟨t', hmembers⟩ := inScope_returns hscope
    rw [memberNames]
    apply foldlM_adds (f := unpackDeclaration cbc fuel (unpackType perl cbc fuel)
      (unpackStruct perl cbc fuel) _) _ _ hmembers
    intro pStructDecl h₁ st₁ h₂ st₂ hdecl
    exact unpackDeclaration_adds (fun s h st sv st' => ih s) hdecl

variable (perl cbc) in
/-- The run of `unpack_struct` for a compound, entered with a hash, comes to the call of
`unpack_type` for a member with another one. -/
inductive Arrives : ℕ → ℕ → Hash → PackInfo → Declarator → Hash → Prop
  | member {fuel s : ℕ} {h h₁ h₂ : Hash} {st st₁ st₂ : PackInfo}
      {pre post : List StructDeclaration} {pStructDecl : StructDeclaration}
      {dpre dpost : List Declarator} {pDecl : Declarator}
      (hdecls : (cbc.heap.structAt s).declarations.getD [] = pre ++ pStructDecl :: post)
      (hpre : pre.foldlM (unpackDeclaration cbc fuel (unpackType perl cbc fuel)
        (unpackStruct perl cbc fuel) (i64 st.pos)) h st = .ok h₁ st₁)
      (hnamed : pStructDecl.declarators = some (dpre ++ pDecl :: dpost))
      (hdpre : dpre.foldlM (unpackMember (unpackType perl cbc fuel) (i64 st.pos)
        pStructDecl.type) h₁ st₁ = .ok h₂ st₂)
      (hname : pDecl.identifier ≠ "") (hnew : ¬ HasMember h₂ pDecl.identifier) :
      Arrives (fuel + 1) s h st pDecl h₂
  | unnamed {fuel s s' : ℕ} {h h₁ h₂ : Hash} {st st₁ : PackInfo}
      {pre post : List StructDeclaration} {pStructDecl : StructDeclaration} {pDecl : Declarator}
      (hdecls : (cbc.heap.structAt s).declarations.getD [] = pre ++ pStructDecl :: post)
      (hpre : pre.foldlM (unpackDeclaration cbc fuel (unpackType perl cbc fuel)
        (unpackStruct perl cbc fuel) (i64 st.pos)) h st = .ok h₁ st₁)
      (hunnamed : pStructDecl.declarators = none)
      (hfollow : followTsptr cbc.heap fuel pStructDecl.type = .ok s')
      (hinner : Arrives fuel s' h₁
        { st₁ with
          pos := u64 (i64 st.pos + pStructDecl.offset)
          path := .inlined (cbc.heap.structAt s') :: st₁.path } pDecl h₂) :
      Arrives (fuel + 1) s h st pDecl h₂

theorem unpackDeclarations_adds {fuel : ℕ} {pos : ℤ} {declarations : List StructDeclaration}
    {h h' : Hash} {st st' : PackInfo}
    (hrun : declarations.foldlM (unpackDeclaration cbc fuel (unpackType perl cbc fuel)
      (unpackStruct perl cbc fuel) pos) h st = .ok h' st') :
    Adds (declarations.flatMap (declarationNames cbc.heap fuel (memberNames cbc.heap fuel))) h h' := by
  apply foldlM_adds (f := unpackDeclaration cbc fuel (unpackType perl cbc fuel)
    (unpackStruct perl cbc fuel) pos) _ _ hrun
  intro pStructDecl h₁ st₁ h₂ st₂ hdecl
  exact unpackDeclaration_adds (fun s h st sv st' => unpackStruct_adds fuel s) hdecl

/-- What is in the hash then: the names in front of the member's own. -/
theorem Arrives.adds {fuel s : ℕ} {h h' : Hash} {st : PackInfo} {pDecl : Declarator}
    (harrives : Arrives perl cbc fuel s h st pDecl h') :
    pDecl.identifier ≠ "" ∧ ¬ HasMember h' pDecl.identifier ∧
      ∃ pre post, memberNames cbc.heap fuel s = pre ++ pDecl.identifier :: post ∧
        Adds pre h h' := by
  induction harrives with
  | @member fuel s h h₁ h₂ st st₁ st₂ pre post sd dpre dpost d hdecls hpre hnamed hdpre hname
      hnew =>
    refine ⟨hname, hnew, ?_⟩
    have hmembers := foldlM_adds (f := unpackMember (unpackType perl cbc fuel) (i64 st.pos)
      sd.type) (fun _ _ _ _ _ => unpackMember_adds) dpre hdpre
    rw [← List.map_eq_flatMap] at hmembers
    have hnames : declarationNames cbc.heap fuel (memberNames cbc.heap fuel) sd =
        dpre.map Declarator.identifier ++ d.identifier :: dpost.map Declarator.identifier := by
      rw [declarationNames, hnamed]
      exact List.map_append
    exact ⟨_, _, memberNames_split cbc.heap hdecls hnames,
      (unpackDeclarations_adds hpre).trans hmembers⟩
  | @unnamed fuel s s' h h₁ h₂ st st₁ pre post sd d hdecls hpre hunnamed hfollow hinner ih =>
    obtain ⟨hname, hnew, ipre, ipost, hnames, hadds⟩ := ih
    refine ⟨hname, hnew, ?_⟩
    have hsplit : declarationNames cbc.heap fuel (memberNames cbc.heap fuel) sd =
        ipre ++ d.identifier :: ipost := by
      rw [declarationNames, hunnamed, hfollow]
      exact hnames
    exact ⟨_, _, memberNames_split cbc.heap hdecls hsplit,
      (unpackDeclarations_adds hpre).trans hadds⟩

/-- When the run comes to a member of a compound that it entered with no members yet,
another one has been unpacked exactly if it is declared before. -/
theorem Arrives.unpacked_iff {fuel s : ℕ} {h' : Hash} {st : PackInfo} {pDecl : Declarator}
    (harrives : Arrives perl cbc fuel s [] st pDecl h') {c : String} (hc : c ≠ "") :
    HasMember h' c ↔ DeclaredBefore cbc.heap fuel s c pDecl.identifier := by
  obtain ⟨hname, hnew, pre, post, hnames, hadds⟩ := harrives.adds
  have hnil : ∀ name, ¬ HasMember [] name := fun name h => nomatch h
  rw [hadds _ hname, not_or] at hnew
  have hpre : ∀ name ∈ pre, decide (name ≠ pDecl.identifier) = true := by
    intro name hmem
    apply decide_eq_true
    rintro rfl
    exact hnew.2 hmem
  rw [hadds c hc, or_iff_right (hnil c), DeclaredBefore, hnames,
    List.takeWhile_append_of_pos hpre, List.takeWhile_cons_of_neg (by simp), List.append_nil]

end Unpack

section Tagged
variable {heap : Heap} {fuel : ℕ}

theorem searchDeclarations_identifier {search : ℕ → Call (Option FoundMember)} {elem : String}
    (hsearch : ∀ s found, search s = .ok (some found) → found.pDecl.identifier = elem)
    (declarations : List StructDeclaration) {found : FoundMember}
    (h : searchDeclarations heap fuel search elem declarations = .ok (some found)) :
    found.pDecl.identifier = elem := by
  induction declarations with
  | nil => exact nomatch h
  | cons pStructDecl declarations ih =>
    rw [searchDeclarations] at h
    cases hdecls : pStructDecl.declarators with
    | some declarators =>
      rw [hdecls] at h
      cases hfind : declarators.find? fun pDecl => pDecl.identifier = elem with
      | none =>
        simp only [hfind] at h
        exact ih h
      | some pDecl =>
        simp only [hfind] at h
        obtain rfl := Option.some.inj (Except.ok.inj h)
        have hname := List.find?_some hfind
        exact of_decide_eq_true hname
    | none =>
      rw [hdecls] at h
      obtain ⟨s, -, h₁⟩ := bind_ok h
      obtain ⟨result, hresult, h₂⟩ := bind_ok h₁
      cases result with
      | none => exact ih h₂
      | some inner =>
        obtain ⟨offset, -, h₃⟩ := bind_ok h₂
        obtain rfl := Option.some.inj (Except.ok.inj h₃)
        exact hsearch s inner hresult

theorem searchStructMember_identifier {elem : String} {n s : ℕ} {found : FoundMember}
    (h : searchStructMember heap elem n s = .ok (some found)) : found.pDecl.identifier = elem := by
  induction n generalizing s found with
  | zero => exact nomatch h
  | succ n ih =>
    rw [searchStructMember] at h
    obtain ⟨result, hresult, h₁⟩ := bind_ok h
    obtain ⟨inner, rfl, rfl⟩ := Option.map_eq_some_iff.mp (Except.ok.inj h₁)
    have hinner := searchDeclarations_identifier (fun s found hsearch => ih hsearch) _ hresult
    exact hinner

theorem gmWalk_append {flags : GmFlags} {dotless : Bool} {st st' : GmState}
    {pre rest : List MeWalkInfo} (hpre : .finished ∉ pre)
    (h : gmWalk heap fuel flags dotless st (pre ++ rest) = .ok st') :
    ∃ st₁ dotless', gmWalk heap fuel flags dotless st pre = .ok st₁ ∧
      gmWalk heap fuel flags dotless' st₁ rest = .ok st' := by
  induction pre generalizing dotless st with
  | nil => exact ⟨st, dotless, rfl, h⟩
  | cons info pre ih =>
    have hinfo : info ≠ .finished := fun heq => hpre (heq ▸ List.mem_cons_self)
    rw [List.cons_append, gmWalk, if_neg hinfo] at h
    rw [gmWalk, if_neg hinfo]
    cases hfault : walkFault info with
    | some e =>
      rw [hfault] at h
      cases h
    | none =>
      rw [hfault] at h
      obtain ⟨st₁, hstep, hrest⟩ := bind_ok h
      dsimp only
      rw [hstep, call_bind_apply]
      exact ih (fun hmem => hpre (List.mem_cons_of_mem _ hmem)) hrest

theorem gmResolve_offset {flags : GmFlags} {st st' : GmState}
    (h : gmResolve heap fuel flags st = .ok st') : st'.offset = st.offset := by
  have hkept : (Except.ok st : Call GmState) = .ok st' → st'.offset = st.offset :=
    fun heq => congrArg GmState.offset (Except.ok.inj heq).symm
  unfold gmResolve at h
  cases hdecl : st.pDecl with
  | none =>
    rw [hdecl] at h
    exact hkept h
  | some pDecl =>
    cases htype : st.pType with
    | typedef t =>
      simp only [hdecl, htype] at h
      split at h
      · obtain ⟨r, -, h₁⟩ := bind_ok h
        obtain rfl := Except.ok.inj h₁
        rfl
      · exact hkept h
    | _ =>
      simp only [hdecl, htype] at h
      exact hkept h

/-- A member is at its offset in the compound that it is found in. -/
theorem gmMember_found {flags : GmFlags} (hcalc : flags.do_calc = true) {dotless has_dot : Bool}
    {st st' : GmState} {name : String}
    (h : gmMember heap fuel flags dotless st name has_dot = .ok st') :
    ∃ s found, searchStructMember heap name fuel s = .ok (some found) ∧
      st'.pStruct = some s ∧ st'.pDecl = some found.pDecl ∧
      st'.offset = st.offset + found.offset := by
  rw [gmMember] at h
  split_ifs at h
  · exact nomatch h
  · obtain ⟨s, -, h₁⟩ := bind_ok h
    obtain ⟨result, hresult, h₂⟩ := bind_ok h₁
    cases result with
    | none =>
      obtain ⟨trunc, -, h₃⟩ := bind_ok h₂
      exact nomatch h₃
    | some found =>
      obtain ⟨offset, hoffset, h₃⟩ := bind_ok h₂
      obtain rfl := (int_ok_iff.mp hoffset).2
      obtain rfl := Except.ok.inj h₃
      exact ⟨s, found, hresult, rfl, rfl, rfl⟩

variable (heap fuel) in
/-- The part of a type expression in front of its last member leads to this offset. -/
def LeadsTo (pMI : MemberInfo) (pre : List MeWalkInfo) (base : ℤ) : Prop :=
  ∃ st st', gmStart heap .none pMI = .ok st ∧ gmWalk heap fuel .none false st pre = .ok st' ∧
    base = st'.offset

/-- The offset of a tagged member is the one in its parent, moved by that of the parent. -/
theorem tagged_member {pMI pmi : MemberInfo} {expr : String} {pre : List MeWalkInfo}
    {x : String} {has_dot : Bool}
    (hexpr : memberExpr expr.toList = pre ++ [.compoundMember x has_dot, .finished])
    (hpre : .finished ∉ pre) (htag : getMember heap fuel .none pMI expr = .ok (some pmi)) :
    ∃ base s found, LeadsTo heap fuel pMI pre base ∧ pmi.parent = some s ∧
      searchStructMember heap x fuel s = .ok (some found) ∧ pmi.pDecl = some found.pDecl ∧
      pmi.offset = base + found.offset := by
  obtain ⟨st, st', hstart, hwalk, rfl⟩ := getMember_found htag
  rw [hexpr] at hwalk
  obtain ⟨st₁, dotless, hfst, hsnd⟩ := gmWalk_append hpre hwalk
  have hmore : MeWalkInfo.compoundMember x has_dot ≠ .finished := by simp
  rw [gmWalk, if_neg hmore] at hsnd
  obtain ⟨st₂, hstep, hend⟩ := bind_ok hsnd
  rw [gmWalk, if_pos rfl] at hend
  obtain rfl := Except.ok.inj hend
  obtain ⟨st₃, hresolve, hmember⟩ := bind_ok hstep
  obtain ⟨s, found, hfound, hstruct, hdecl, hoffset⟩ := gmMember_found rfl hmember
  refine ⟨st₁.offset, s, found, ⟨st, st₁, hstart, hfst, rfl⟩, hstruct, hfound, hdecl, ?_⟩
  rw [hoffset, gmResolve_offset hresolve]

/-- The end of a member in the compound that its expression starts at. -/
def MemberInfo.stop (mi2 : MemberInfo) : ℤ := mi2.offset + i32 mi2.size

theorem validate_ok_iff {pmi mi2 : MemberInfo} {s : ℕ} {member : String}
    (hparent : pmi.parent = some s)
    (hfound : getMember heap fuel dimensionFlags (parentInfo heap s) member = .ok (some mi2))
    (htype : checkAllowedTypesString heap fuel mi2 .basicTypes = .ok none) (type : String) :
    validateMemberExpression heap fuel pmi member type = .ok () ↔
      IsInt mi2.stop ∧ mi2.stop ≤ pmi.offset := by
  simp only [validateMemberExpression, hparent, hfound, call_bind_apply, validateMember, htype]
  rw [show mi2.offset + i32 mi2.size = mi2.stop from rfl]
  by_cases hint : IsInt mi2.stop
  · rw [int_ok_iff.mpr ⟨hint, rfl⟩, call_bind_apply]
    by_cases hle : mi2.stop ≤ pmi.offset
    · rw [if_neg (not_lt.mpr hle)]
      exact ⟨fun _ => ⟨hint, hle⟩, fun _ => rfl⟩
    · rw [if_pos (not_le.mp hle)]
      exact ⟨fun h => (by cases h), fun h => absurd h.2 hle⟩
  · cases hstop : int mi2.stop with
    | ok stop => exact absurd (int_ok_iff.mp hstop).1 hint
    | error e => exact ⟨fun h => (by cases h), fun h => absurd h.1 hint⟩

variable (heap fuel) in
/-- What the check is for: an accepted member lies in front of the array, at `place`, and
is declared before it, and every member in front of the array is accepted. -/
structure PrecedesArray (pmi mi2 : MemberInfo) (s : ℕ) (member type c x : String) (place : ℤ) :
    Prop where
  before : validateMemberExpression heap fuel pmi member type = .ok () →
    mi2.stop ≤ place ∧ DeclaredBefore heap fuel s c x
  accepted : mi2.stop ≤ place → validateMemberExpression heap fuel pmi member type = .ok ()

/-- The offset of the parent, `base`, does not move the array over the end of the member,
and what lies in front of the array is declared before it. -/
structure OrderKept (base place stop : ℤ) (declared : Prop) : Prop where
  fits : stop ≤ place → IsInt stop
  not_behind : IsInt stop → ¬ (place < stop ∧ stop ≤ base + place)
  not_before : ¬ (base + place < stop ∧ stop ≤ place)
  declared : stop ≤ place → declared

theorem precedesArray_iff {pmi mi2 : MemberInfo} {s : ℕ} {member : String}
    (hparent : pmi.parent = some s)
    (hfound : getMember heap fuel dimensionFlags (parentInfo heap s) member = .ok (some mi2))
    (htype : checkAllowedTypesString heap fuel mi2 .basicTypes = .ok none) {base place : ℤ}
    (hoffset : pmi.offset = base + place) (type c x : String) :
    PrecedesArray heap fuel pmi mi2 s member type c x place ↔
      OrderKept base place mi2.stop (DeclaredBefore heap fuel s c x) := by
  have haccepted := validate_ok_iff hparent hfound htype type
  rw [hoffset] at haccepted
  constructor
  · intro h
    have hkept : mi2.stop ≤ place → IsInt mi2.stop ∧ mi2.stop ≤ base + place :=
      fun hle => haccepted.mp (h.accepted hle)
    refine ⟨fun hle => (hkept hle).1, ?_, ?_, ?_⟩
    · rintro hint ⟨hlt, hle⟩
      exact absurd (h.before (haccepted.mpr ⟨hint, hle⟩)).1 (not_le.mpr hlt)
    · rintro ⟨hlt, hle⟩
      exact absurd (hkept hle).2 (not_le.mpr hlt)
    · exact fun hle => (h.before (h.accepted hle)).2
  · intro h
    have hplace : IsInt mi2.stop → mi2.stop ≤ base + place → mi2.stop ≤ place :=
      fun hint hle => not_lt.mp fun hlt => h.not_behind hint ⟨hlt, hle⟩
    constructor
    · intro hok
      have hle := hplace (haccepted.mp hok).1 (haccepted.mp hok).2
      exact ⟨hle, h.declared hle⟩
    · intro hle
      refine haccepted.mpr ⟨h.fits hle, ?_⟩
      exact not_lt.mp fun hlt => h.not_before ⟨hlt, hle⟩

end Tagged

theorem walkMember_name {me : MemberExprWalker} {dot : Bool} {p : List Char} {name : String}
    {has_dot : Bool} (h : (walkMember me dot p).1 = .compoundMember name has_dot) : name ≠ "" := by
  unfold walkMember at h
  split at h
  · cases h
  · split_ifs at h
    · injection h with hname
      rw [← hname]
      exact fun hempty => List.cons_ne_nil _ _ (String.ofList_eq_empty_iff.mp hempty)
    · cases h

/-- The walker reports no empty names. -/
theorem memberExpr_name {expr : List Char} {name : String} {has_dot : Bool}
    {infos : List MeWalkInfo} (h : memberExpr expr = .compoundMember name has_dot :: infos) :
    name ≠ "" := by
  have hdotless : ∀ p, (walkDotless (memberExprWalkerNew expr) p).1 = .compoundMember name has_dot →
      name ≠ "" := by
    intro p hp
    unfold walkDotless at hp
    split at hp
    · cases hp
    · split_ifs at hp
      · exact walkMember_name hp
      · cases hp
  have hindex : ∀ p, (walkIndex (memberExprWalkerNew expr) p).1 ≠ .compoundMember name has_dot := by
    intro p hp
    unfold walkIndex walkFinishIndex at hp
    repeat' split at hp
    all_goals cases hp
  have hwalk : (memberExprWalk (memberExprWalkerNew expr)).1 = .compoundMember name has_dot :=
    (List.cons.inj h).1
  unfold memberExprWalk at hwalk
  rw [if_neg (by exact Bool.false_ne_true)] at hwalk
  split at hwalk
  · split_ifs at hwalk
    · cases hwalk
    · exact hdotless _ hwalk
  · exact walkMember_name hwalk
  · exact absurd hwalk (hindex _)
  · exact hdotless _ hwalk

/-- For a tagged member and every expression for a member of its parent: the check does
what it is for exactly if the offset of the parent in the tagged type does not move the
array over the end of the member and no union puts a member in front of the array that is
declared behind it. What is declared before is what a run of `unpack_struct` has put into
the hash when it comes to the array. -/
theorem dimension_member_precedes_iff {cbc : CBC} {fuel : ℕ} {pMI pmi : MemberInfo}
    {expr : String} {pre : List MeWalkInfo} {x : String} {has_dot : Bool}
    (hexpr : memberExpr expr.toList = pre ++ [.compoundMember x has_dot, .finished])
    (hpre : .finished ∉ pre) (htag : getMember cbc.heap fuel .none pMI expr = .ok (some pmi)) :
    ∃ base s found, LeadsTo cbc.heap fuel pMI pre base ∧ pmi.parent = some s ∧
      searchStructMember cbc.heap x fuel s = .ok (some found) ∧ pmi.pDecl = some found.pDecl ∧
      ∀ member type mi2 c dot infos,
        getMember cbc.heap fuel dimensionFlags (parentInfo cbc.heap s) member = .ok (some mi2) →
        checkAllowedTypesString cbc.heap fuel mi2 .basicTypes = .ok none →
        memberExpr member.toList = .compoundMember c dot :: infos →
        (PrecedesArray cbc.heap fuel pmi mi2 s member type c x found.offset ↔
          OrderKept base found.offset mi2.stop (DeclaredBefore cbc.heap fuel s c x)) ∧
        ∀ perl st h, Arrives perl cbc fuel s [] st found.pDecl h →
          (HasMember h c ↔ DeclaredBefore cbc.heap fuel s c x) := by
  obtain ⟨base, s, found, hbase, hparent, hfound, hdecl, hoffset⟩ := tagged_member hexpr hpre htag
  refine ⟨base, s, found, hbase, hparent, hfound, hdecl, ?_⟩
  intro member type mi2 c dot infos hmember htype hname
  refine ⟨precedesArray_iff hparent hmember htype hoffset type c x, ?_⟩
  intro perl st h harrives
  rw [harrives.unpacked_iff (memberExpr_name hname), searchStructMember_identifier hfound]

/-- `struct { char pad[16]; struct { int a[2]; int n; } inner; }` -/
def nestedArray : Heap where
  structAt
    | 0 => { structOf "outer" [declaration (.basic T_CHAR)
          [{ memberAt "pad" 0 16 1 with ext := .array [⟨16, false, false⟩] }],
        declaration (.compound .struct 1) [memberAt "inner" 16 12 12]] with size := 28 }
    | _ => { structOf "inner" [declaration (.basic T_INT)
          [{ memberAt "a" 0 8 4 with ext := .array [⟨2, false, false⟩] }],
        declaration (.basic T_INT) [memberAt "n" 8 4 4]] with size := 12 }
  enumAt _ := ⟨0, false, false, 4, 4, ⟨"order.h", 1⟩, none, .empty, ""⟩
  typedefAt _ := ⟨.basic T_INT, declNew ""⟩

/-- What `outer` is as the start of a type expression. -/
def outerInfo : MemberInfo := ⟨.compound .struct 0, none, none, 0, 0, 28⟩

/-- The member `outer.inner.a`, as it is found for the tag. -/
def nestedInfo : MemberInfo :=
  ⟨.basic T_INT, some 1, some { memberAt "a" 0 8 4 with ext := .array [⟨2, false, false⟩] }, 0, 16, 8⟩

theorem nested_tagged :
    getMember nestedArray 10 .none outerInfo ".inner.a" = .ok (some nestedInfo) := by
  decide +kernel

theorem dimension_member_precedes_iff_nested :
    ∃ base s found, LeadsTo nestedArray 10 outerInfo [.compoundMember "inner" true] base ∧
      nestedInfo.parent = some s ∧
      searchStructMember nestedArray "a" 10 s = .ok (some found) ∧
      nestedInfo.pDecl = some found.pDecl ∧
      ∀ member type mi2 c dot infos,
        getMember nestedArray 10 dimensionFlags (parentInfo nestedArray s) member = .ok (some mi2) →
        checkAllowedTypesString nestedArray 10 mi2 .basicTypes = .ok none →
        memberExpr member.toList = .compoundMember c dot :: infos →
        (PrecedesArray nestedArray 10 nestedInfo mi2 s member type c "a" found.offset ↔
          OrderKept base found.offset mi2.stop (DeclaredBefore nestedArray 10 s c "a")) ∧
        ∀ perl st h, Arrives perl (cbc64 nestedArray) 10 s [] st found.pDecl h →
          (HasMember h c ↔ DeclaredBefore nestedArray 10 s c "a") :=
  have hexpr : memberExpr ".inner.a".toList =
      [.compoundMember "inner" true] ++ [.compoundMember "a" true, .finished] := by decide +kernel
  have hpre : MeWalkInfo.finished ∉ [MeWalkInfo.compoundMember "inner" true] := by decide
  have htag : getMember (cbc64 nestedArray).heap 10 .none outerInfo ".inner.a" =
      .ok (some nestedInfo) := nested_tagged
  dimension_member_precedes_iff hexpr hpre htag

/-- `struct { union { struct { int pad[2]; int a[2]; }; struct { int n; }; }; }` -/
def overlaidArray : Heap where
  structAt
    | 0 => { structOf "" [⟨.compound .union 1, none, 0, 16⟩] with size := 16 }
    | 1 => { structOf "" [⟨.compound .struct 2, none, 0, 16⟩, ⟨.compound .struct 3, none, 0, 4⟩] with
        kind := .union, size := 16 }
    | 2 => { structOf "" [declaration (.basic T_INT)
          [{ memberAt "pad" 0 8 4 with ext := .array [⟨2, false, false⟩] },
            { memberAt "a" 8 8 4 with ext := .array [⟨2, false, false⟩] }]] with size := 16 }
    | _ => { structOf "" [declaration (.basic T_INT) [memberAt "n" 0 4 4]] with size := 4 }
  enumAt _ := ⟨0, false, false, 4, 4, ⟨"order.h", 1⟩, none, .empty, ""⟩
  typedefAt _ := ⟨.basic T_INT, declNew ""⟩

/-- The array `a` of the overlaid compound. -/
def overlaidInfo : MemberInfo :=
  ⟨.basic T_INT, some 0, some { memberAt "a" 8 8 4 with ext := .array [⟨2, false, false⟩] }, 0, 8, 8⟩

/-- A count behind the nested array is accepted, since that seems to be at offset 16. In
the union the count lies in front of the array, but is declared and unpacked after it. -/
theorem dimension_member_behind :
    (getMember nestedArray 10 .none outerInfo ".inner.a" = .ok (some nestedInfo) ∧
      validateMemberExpression nestedArray 10 nestedInfo "n" "outer.inner.a" = .ok () ∧
      (searchStructMember nestedArray "n" 10 1).map (Option.map FoundMember.offset) = .ok (some 8) ∧
      (searchStructMember nestedArray "a" 10 1).map (Option.map FoundMember.offset) = .ok (some 0)) ∧
    getMember overlaidArray 10 .none (parentInfo overlaidArray 0) ".a" = .ok (some overlaidInfo) ∧
      validateMemberExpression overlaidArray 10 overlaidInfo "n" "a" = .ok () ∧
      ¬ DeclaredBefore overlaidArray 10 0 "n" "a" := by
  refine ⟨⟨nested_tagged, by decide +kernel, by decide +kernel, by decide +kernel⟩,
    by decide +kernel, by decide +kernel, ?_⟩
  unfold DeclaredBefore
  decide +kernel

end ConvertBinaryC
