import ConvertBinaryC.AgreeRules
import ConvertBinaryC.CBCFlexibleCount

/-! The parent that a Dimension tag is evaluated with. Packing and unpacking are run with
an assertion in front of every type whose tag is going to be evaluated: the parent of the
handle is the hash of the innermost compound, which is passed down along the type tree. -/
namespace ConvertBinaryC
open StateRules AgreeRules

/-- The tag of the declarator is evaluated, and for its parent. -/
def Declarator.UsesParent (d : Declarator) : Prop :=
  match d.tags.dimension with
  | some (.member _) | some (.hook _) => d.dims ≠ [] ∨ d.tags.format.isSome
  | _ => False

section Asserted
variable (perl : Perl) (cbc : CBC)

open Classical in
/-- The assertion in front of the type of a declarator. -/
noncomputable def assertParent (parent : Option Hash) (pDecl : Option Declarator) (dimension : ℕ) :
    Pk Unit := do
  let st ← get
  if dimension = 0 ∧ (∃ d ∈ pDecl, d.UsesParent) ∧ st.parent ≠ parent then
    throw (.fatal "Dimension tag with the wrong parent")
  else pure ()

/-- The hash that is packed for a compound. -/
def SV.hash : SV → Option Hash
  | .hv h => some h
  | _ => none

section Steps
variable (fuel : ℕ) (packTypeIn : Option Hash → PackTypeFn) (packStruct : PackStructFn)
  (unpackTypeIn : Option Hash → UnpackTypeFn) (unpackStruct : UnpackStructFn)

/-- The members of a compound have its hash for a parent, also those that an unnamed compound
adds to it. -/
noncomputable def assertedPackMembers (pStruct : Struct) (sv : SV) : Pk Unit :=
  packMembers cbc fuel (packTypeIn sv.hash) packStruct pStruct sv

noncomputable def assertedPackStructStep : PackStructFn := fun s sv inlined =>
  let pStruct := cbc.heap.structAt s
  if inlined then
    inScope (.inlined pStruct) .empty (assertedPackMembers cbc fuel packTypeIn packStruct pStruct sv)
  else do
    let sv ← hookCall perl (pStruct.tags.hooks.bind TypeHooks.pack) sv
    match pStruct.tags.format with
    | some format => within (.compound pStruct) (packFormat perl format pStruct.size false sv)
    | none =>
      inScope (.compound pStruct) pStruct.tags
        (assertedPackMembers cbc fuel packTypeIn packStruct pStruct sv)

/-- A member that is unpacked has the hash of the members before it for a parent. -/
noncomputable def assertedUnpackDeclaration (pos : ℤ) (h : Hash) (pStructDecl : StructDeclaration) :
    Pk Hash :=
  match pStructDecl.declarators with
  | some declarators => declarators.foldlM
      (fun h pDecl => unpackMember (unpackTypeIn (some h)) pos pStructDecl.type h pDecl) h
  | none => unpackDeclaration cbc fuel (unpackTypeIn (some h)) unpackStruct pos h pStructDecl

noncomputable def assertedUnpackMembers (pStruct : Struct) (h : Hash) : Pk Hash := do
  let st ← get
  (pStruct.declarations.getD []).foldlM
    (assertedUnpackDeclaration cbc fuel unpackTypeIn unpackStruct (i64 st.pos)) h

noncomputable def assertedUnpackStructStep : UnpackStructFn := fun s hash =>
  let pStruct := cbc.heap.structAt s
  match hash with
  | some h => do
    let h ← inScope (.inlined pStruct) .empty
      (assertedUnpackMembers cbc fuel unpackTypeIn unpackStruct pStruct h)
    pure (.hv h)
  | none => do
    let hook := pStruct.tags.hooks.bind TypeHooks.unpack
    match pStruct.tags.format with
    | some format => do
      let sv ← within (.compound pStruct) (unpackFormat format pStruct.size false)
      hookCall perl hook sv
    | none => do
      let h ← inScope (.compound pStruct) pStruct.tags
        (assertedUnpackMembers cbc fuel unpackTypeIn unpackStruct pStruct [])
      hookCall perl hook (.hv h)

end Steps

mutual

/-- `pack_type` inside of the compound that `parent` is the hash of. -/
noncomputable def assertedPackType : ℕ → Option Hash → PackTypeFn
  | 0, _ => fun _ _ _ _ _ => throw .outOfFuel
  | fuel + 1, parent => fun pTS pDecl dimension pBI sv => do
    assertParent parent pDecl dimension
    packTypeStep perl cbc (assertedPackType fuel parent) (assertedPackStruct fuel) pTS pDecl
      dimension pBI sv

/-- `pack_struct`, whose members are inside of the compound. -/
noncomputable def assertedPackStruct : ℕ → PackStructFn
  | 0 => fun _ _ _ => throw .outOfFuel
  | fuel + 1 => assertedPackStructStep perl cbc fuel (assertedPackType fuel) (assertedPackStruct fuel)

end

mutual

/-- `unpack_type` inside of the compound that `parent` is the hash of. -/
noncomputable def assertedUnpackType : ℕ → Option Hash → UnpackTypeFn
  | 0, _ => fun _ _ _ _ => throw .outOfFuel
  | fuel + 1, parent => fun pTS pDecl dimension pBI => do
    assertParent parent pDecl dimension
    unpackTypeStep perl cbc (assertedUnpackType fuel parent) (assertedUnpackStruct fuel) pTS pDecl
      dimension pBI

/-- `unpack_struct`, whose members are inside of the compound. -/
noncomputable def assertedUnpackStruct : ℕ → UnpackStructFn
  | 0 => fun _ _ => throw .outOfFuel
  | fuel + 1 =>
    assertedUnpackStructStep perl cbc fuel (assertedUnpackType fuel) (assertedUnpackStruct fuel)

end

/-- `pk_pack`, outside of any compound. -/
noncomputable def assertedPkPack (fuel : ℕ) (pTS : TypeSpec) (pDecl : Option Declarator)
    (dimension : ℕ) (sv : SV) : Pk Unit := do
  restoreByteOrder cbc.pLP.byte_order
  assertedPackType perl cbc fuel none pTS pDecl dimension none sv

noncomputable def assertedPkUnpack (fuel : ℕ) (pTS : TypeSpec) (pDecl : Option Declarator)
    (dimension : ℕ) : Pk SV := do
  restoreByteOrder cbc.pLP.byte_order
  assertedUnpackType perl cbc fuel none pTS pDecl dimension none

end Asserted

/-- The number of elements at a dimension, where neither data nor the evaluation of a tag decide. -/
def Declarator.fixedCount (d : Declarator) (k : ℕ) : Option ℤ :=
  match d.tagAt k with
  | some (.fixed dim) => some (i64 dim)
  | some _ => none
  | none => d.dims[k]?.bind fun v => if v.undef then none else some v.iv

/-- A dimension has so many elements, or may have. -/
def Declarator.MayHave (d : Declarator) (n : ℤ) (k : ℕ) : Prop :=
  ∀ c, d.fixedCount k = some c → n ≤ c

/-- An array has elements from a dimension on, or may have. -/
def Declarator.MayFill (d : Declarator) (k : ℕ) : Prop :=
  ∀ j, k ≤ j → j < d.dims.length → d.MayHave 1 j

/-- An array has more than one element from a dimension on, or may have. -/
structure Declarator.Repeats (d : Declarator) (k : ℕ) : Prop where
  fill : d.MayFill k
  twice : ∃ j, k ≤ j ∧ j < d.dims.length ∧ d.MayHave 2 j

section Chains
variable (heap : Heap)

/-- A tag that uses the parent is evaluated when a type is processed from one of its
dimensions on, before its elements or through the typedefs that it stands for. -/
inductive Asks : ℕ → TypeSpec → Declarator → Prop
  | here {pTS : TypeSpec} {d : Declarator} (huses : d.UsesParent) : Asks 0 pTS d
  | typedef {dimension t : ℕ} {d : Declarator} (hformat : dimension = 0 → d.tags.format = none)
      (hpointer : d.pointer_flag = false) (hfill : d.MayFill dimension)
      (hbelow : Asks 0 (heap.typedefAt t).type (heap.typedefAt t).decl) :
      Asks dimension (.typedef t) d

/-- A compound has a member with a name. -/
inductive Declares : ℕ → Prop
  | member {s : ℕ} {pStructDecl : StructDeclaration} {d : Declarator}
      (hdecl : pStructDecl ∈ (heap.structAt s).declarations.getD [])
      (hmem : d ∈ pStructDecl.declarators.getD []) (hname : d.identifier ≠ "") : Declares s
  | unnamed {fuel s s' : ℕ} {pStructDecl : StructDeclaration}
      (hdecl : pStructDecl ∈ (heap.structAt s).declarations.getD [])
      (hunnamed : pStructDecl.declarators = none)
      (hfollow : followTsptr heap fuel pStructDecl.type = .ok s') (hinner : Declares s') :
      Declares s

/-- A type comes to a compound with members, which sets the parent and clears it. -/
inductive Meets : ℕ → TypeSpec → Declarator → Prop
  | compound {dimension s : ℕ} {kind : CompoundKind} {d : Declarator}
      (hformat : dimension = 0 → d.tags.format = none) (hpointer : d.pointer_flag = false)
      (hfill : d.MayFill dimension) (hplain : (heap.structAt s).tags.format = none)
      (hdeclares : Declares heap s) :
      Meets dimension (.compound kind s) d
  | typedef {dimension t : ℕ} {d : Declarator} (hformat : dimension = 0 → d.tags.format = none)
      (hpointer : d.pointer_flag = false) (hfill : d.MayFill dimension)
      (hbelow : Meets 0 (heap.typedefAt t).type (heap.typedefAt t).decl) :
      Meets dimension (.typedef t) d

/-- In an array of more than one element, the elements evaluate a tag for the parent and
come to a compound: the second one finds the parent cleared. -/
inductive Loses : ℕ → TypeSpec → Declarator → Prop
  | array {dimension : ℕ} {pTS : TypeSpec} {d : Declarator}
      (hformat : dimension = 0 → d.tags.format = none) (hrepeats : d.Repeats dimension)
      (hasks : Asks heap d.dims.length pTS d) (hmeets : Meets heap d.dims.length pTS d) :
      Loses dimension pTS d
  | typedef {dimension t : ℕ} {d : Declarator} (hformat : dimension = 0 → d.tags.format = none)
      (hpointer : d.pointer_flag = false) (hfill : d.MayFill dimension)
      (hbelow : Loses 0 (heap.typedefAt t).type (heap.typedefAt t).decl) :
      Loses dimension (.typedef t) d

variable {heap}
variable {k : ℕ} {pTS : TypeSpec} {d : Declarator}

theorem Declarator.MayFill.cons (h : d.MayFill (k + 1)) (hone : d.MayHave 1 k) : d.MayFill k := by
  intro j hj hlt
  rcases Nat.eq_or_lt_of_le hj with rfl | hj
  · exact hone
  · exact h j hj hlt

theorem Declarator.mayFill_of_le (h : d.dims.length ≤ k) : d.MayFill k :=
  fun _ hj hlt => absurd hlt (not_lt.mpr (h.trans hj))

theorem Asks.element (h : Asks heap (k + 1) pTS d) (hformat : k = 0 → d.tags.format = none)
    (hone : d.MayHave 1 k) : Asks heap k pTS d := by
  cases h with
  | typedef _ hpointer hfill hbelow => exact .typedef hformat hpointer (hfill.cons hone) hbelow

theorem Asks.leaf (h : Asks heap (k + 1) pTS d) (hk : k < d.dims.length) :
    Asks heap d.dims.length pTS d := by
  cases h with
  | typedef _ hpointer _ hbelow =>
    exact .typedef (fun hnil => by omega) hpointer (Declarator.mayFill_of_le le_rfl) hbelow

theorem Meets.fill (h : Meets heap k pTS d) : d.MayFill k := by
  cases h with
  | compound _ _ hfill _ _ => exact hfill
  | typedef _ _ hfill _ => exact hfill

theorem Meets.element (h : Meets heap (k + 1) pTS d) (hformat : k = 0 → d.tags.format = none)
    (hone : d.MayHave 1 k) : Meets heap k pTS d := by
  cases h with
  | compound _ hpointer hfill hplain hdeclares =>
    exact .compound hformat hpointer (hfill.cons hone) hplain hdeclares
  | typedef _ hpointer hfill hbelow => exact .typedef hformat hpointer (hfill.cons hone) hbelow

theorem Meets.leaf (h : Meets heap (k + 1) pTS d) (hk : k < d.dims.length) :
    Meets heap d.dims.length pTS d := by
  cases h with
  | compound _ hpointer _ hplain hdeclares =>
    exact .compound (fun hnil => by omega) hpointer (Declarator.mayFill_of_le le_rfl) hplain hdeclares
  | typedef _ hpointer _ hbelow =>
    exact .typedef (fun hnil => by omega) hpointer (Declarator.mayFill_of_le le_rfl) hbelow

theorem Loses.element (h : Loses heap (k + 1) pTS d) (hformat : k = 0 → d.tags.format = none)
    (hone : d.MayHave 1 k) : Loses heap k pTS d := by
  cases h with
  | array _ hrepeats hasks hmeets =>
    obtain ⟨hfill, j, hj, hlt, htwo⟩ := hrepeats
    exact .array hformat ⟨hfill.cons hone, j, Nat.le_of_succ_le hj, hlt, htwo⟩ hasks hmeets
  | typedef _ hpointer hfill hbelow => exact .typedef hformat hpointer (hfill.cons hone) hbelow

end Chains

/-- The parent is left as it was. -/
def parentEffect : Effect Fault PackInfo where
  returns s t := t.parent = s.parent
  fails _ _ _ := True
  refl _ := rfl
  trans h h' := h'.trans h
  absorb _ _ := trivial

theorem parent_lift {α : Type} (c : Call α) : parentEffect.Holds (liftCall c) := by
  cases c with
  | ok a => exact Effect.holds_pure a
  | error e => exact fun s => trivial

theorem parent_emit (e : Event) : parentEffect.Holds (emit e) := fun _ => Effect.At.modify rfl

theorem parent_indifferent (perl : Perl) : LeafIndifferent parentEffect perl where
  pos x s := by
    show s.parent = s.parent
    rfl
  sub sub arg s := by
    apply Effect.At.get_bind
    have hset : parentEffect.At (set { s with calls := s.calls + 1 } : Pk PUnit) s :=
      Effect.At.set rfl
    apply hset.bind
    intro _ t _
    split
    · exact Effect.holds_pure _ t
    · trivial
  fault _ _ _ := trivial
  order _ _ := rfl
  path _ _ := rfl

theorem parent_packFormat (perl : Perl) (format : FormatTag) (size : ℤ) (flexible : Bool) (sv : SV) :
    parentEffect.Holds (packFormat perl format size flexible sv) :=
  (parent_indifferent perl).leafClosed.packFormat (fun _ _ _ _ => rfl) format sv
    (fun _ _ _ => trivial) (fun _ _ => parent_emit _ _) fun _ _ => parent_emit _ _

/-- What packing does at the leaves leaves the parent alone. -/
theorem parent_packLeaves (perl : Perl) (cbc : CBC) :
    PackLeaves parentEffect perl cbc fun _ => True where
  toLeafClosed := (parent_indifferent perl).leafClosed
  grow _ _ := (parent_indifferent perl).leafClosed.grow (fun _ _ _ _ => rfl) (parent_emit _ _)
  store _ _ iv _ :=
    (parent_indifferent perl).leafClosed.storeInt (fun _ _ _ _ => rfl) iv (parent_emit _ _)
  storeFloat _ flags v _ :=
    (parent_indifferent perl).leafClosed.storeFloatSv (fun _ _ _ _ => rfl) flags v
      (parent_emit _ _)
  elements _ _ _ _ _ _ := parent_emit _
  format _ _ _ _ _ _ := (parent_indifferent perl).within _ (parent_packFormat perl _ _ _ _)
  declaratorFormat d _ _ _ _ := by
    apply (parent_indifferent perl).within
    apply ((parent_indifferent perl).leafClosed.prepare (parent_lift _)).bind
    rintro ⟨size, flexible⟩
    exact parent_packFormat perl _ _ _ _

theorem parent_check (size : ℤ) : parentEffect.Holds (checkBuffer size) := by
  intro s
  obtain ⟨short, pos, hcheck⟩ := checkBuffer_eq size s
  unfold Effect.At
  rw [hcheck]
  rfl

theorem parent_fetchInt (perl : Perl) (cbc : CBC) (size : ℤ) (sign : Bool)
    (pBI : Option BitfieldInfo) : parentEffect.Holds (fetchInt cbc size sign pBI) :=
  fun _ => (parent_indifferent perl).leafClosed.fetchInt sign (parent_emit _ _)

theorem parent_unpackFormat (perl : Perl) (format : FormatTag) (size : ℤ) (flexible : Bool) :
    parentEffect.Holds (unpackFormat format size flexible) :=
  fun _ => (parent_indifferent perl).leafClosed.unpackFormat format (fun _ _ => trivial)
    fun _ => parent_emit _ _

/-- What unpacking does at the leaves leaves the parent alone. -/
theorem parent_unpackLeaves (perl : Perl) (cbc : CBC) :
    UnpackLeaves parentEffect perl cbc fun _ => True where
  toLeafClosed := (parent_indifferent perl).leafClosed
  check := parent_check
  fetch := parent_fetchInt perl cbc
  fetchFloat _ flags _ :=
    (parent_indifferent perl).leafClosed.fetchFloatSv flags (parent_emit _ _)
  enum := (parent_indifferent perl).unpackEnum parent_check (parent_fetchInt perl cbc)
    fun format size => parent_unpackFormat perl format size false
  head d dimension dimtag _ _ _ _ := (parent_indifferent perl).leafClosed.head (fun _ => trivial)
    fun _ _ _ _ _ _ _ => parent_emit _ _
  format _ _ _ _ _ := (parent_indifferent perl).within _ (parent_unpackFormat perl _ _ _)
  declaratorFormat d _ _ _ := by
    apply (parent_indifferent perl).within
    apply ((parent_indifferent perl).leafClosed.prepare (parent_lift _)).bind
    rintro ⟨size, flexible⟩
    exact parent_unpackFormat perl _ _ _

section Agree
variable {α β : Type} {m m' : Pk α} {st : PackInfo}

/-- What leaves the parent alone agrees with itself. -/
theorem agrees_kept (h : parentEffect.Holds m) :
    Agrees m m st fun t => t.parent = st.parent := by
  apply Agrees.refl
  exact fun a t ht => (h st).returns ht

theorem agrees_kept_bind {f f' : α → Pk β} {Q : PackInfo → Prop} (h : parentEffect.Holds m)
    (hf : ∀ a t, t.parent = st.parent → Agrees (f a) (f' a) t Q) :
    Agrees (m >>= f) (m >>= f') st Q :=
  (agrees_kept h).bind fun a t _ ht => hf a t ht

variable {Q : Option Hash → Prop}

theorem agrees_keepByteOrder (h : Agrees m m' st fun t => Q t.parent) :
    Agrees (keepByteOrder m) (keepByteOrder m') st fun t => Q t.parent := by
  cases hrun : m' st with
  | ok a t =>
    constructor
    · rw [keepByteOrder_ok (h.same.trans hrun), keepByteOrder_ok hrun]
    · rw [keepByteOrder_ok hrun]
      rintro b u ⟨⟩
      exact h.returns a t hrun
  | error e t =>
    constructor
    · rw [keepByteOrder_error (h.same.trans hrun), keepByteOrder_error hrun]
    · rw [keepByteOrder_error hrun]
      intro b u hu
      exact nomatch hu

theorem agrees_within {scope : Scope} (h : Agrees m m' (st.enter scope) fun t => Q t.parent) :
    Agrees (within scope m) (within scope m') st fun t => Q t.parent := by
  cases hrun : m' (st.enter scope) with
  | ok a t =>
    constructor
    · rw [within_ok (h.same.trans hrun), within_ok hrun]
    · rw [within_ok hrun]
      rintro b u ⟨⟩
      exact h.returns a t hrun
  | error e t =>
    constructor
    · rw [within_error (h.same.trans hrun), within_error hrun]
    · rw [within_error hrun]
      intro b u hu
      exact nomatch hu

theorem agrees_inScope {scope : Scope} {tags : CtTagList}
    (h : Agrees m m' ((st.tagged tags).enter scope) fun t => Q t.parent) :
    Agrees (inScope scope tags m) (inScope scope tags m') st fun t => Q t.parent :=
  agrees_keepByteOrder (Agrees.modify_bind (agrees_within h))

end Agree

/-- The parent after a call: as before it, or cleared by a compound with members. -/
def LeftBy (heap : Heap) (dimension : ℕ) (pTS : TypeSpec) (d : Declarator)
    (before after : Option Hash) : Prop :=
  after = before ∨ after = none ∧ Meets heap dimension pTS d

/-- The same for a compound; only an unnamed one is processed in spite of a Format tag. -/
def ClearedBy (heap : Heap) (s : ℕ) (inlined : Bool) (before after : Option Hash) : Prop :=
  after = before ∨ after = none ∧ Declares heap s ∧
    (inlined = false → (heap.structAt s).tags.format = none)

theorem LeftBy.trans {heap : Heap} {dimension : ℕ} {pTS : TypeSpec} {d : Declarator}
    {before mid after : Option Hash} (hfst : LeftBy heap dimension pTS d before mid)
    (hsnd : LeftBy heap dimension pTS d mid after) : LeftBy heap dimension pTS d before after := by
  rcases hsnd with rfl | hsnd
  · exact hfst
  · exact .inr hsnd

theorem LeftBy.array {heap : Heap} {dimension : ℕ} {pTS : TypeSpec} {d : Declarator}
    {before after : Option Hash} (h : LeftBy heap (dimension + 1) pTS d before after)
    (hformat : dimension = 0 → d.tags.format = none) (hone : d.MayHave 1 dimension) :
    LeftBy heap dimension pTS d before after :=
  h.imp_right fun hleft => ⟨hleft.1, hleft.2.element hformat hone⟩

/-- A loop has no turn, or one, or the declarator tells that there may be more. -/
theorem Declarator.turns_cases (d : Declarator) (k n : ℕ)
    (h : ∀ c, d.fixedCount k = some c → (n : ℤ) ≤ max c 0) :
    n = 0 ∨ d.MayHave 1 k ∧ (n ≤ 1 ∨ d.MayHave 2 k) := by
  cases hfixed : d.fixedCount k with
  | none =>
    have hany (m : ℤ) : d.MayHave m k := fun c hc => by
      rw [hfixed] at hc
      exact absurd hc (Option.some_ne_none c).symm
    exact .inr ⟨hany 1, .inr (hany 2)⟩
  | some c =>
    have hle := h c hfixed
    have hmay (m : ℤ) (hm : m ≤ c) : d.MayHave m k := fun c' hc' => by
      rw [hfixed] at hc'
      exact Option.some.inj hc' ▸ hm
    by_cases hone : 1 ≤ c
    · refine .inr ⟨hmay 1 hone, ?_⟩
      by_cases htwo : 2 ≤ c
      · exact .inr (hmay 2 htwo)
      · omega
    · omega

/-- Before a call the parent is right, or it is cleared and no tag asks for it; and no
array of it loses the parent, unless there is none. -/
structure Ready (heap : Heap) (parent : Option Hash) (dimension : ℕ) (pTS : TypeSpec)
    (d : Declarator) (before : Option Hash) : Prop where
  right : before = parent ∨ before = none ∧ ¬ Asks heap dimension pTS d
  kept : parent = none ∨ ¬ Loses heap dimension pTS d

theorem Ready.parent_of_asks {heap : Heap} {parent before : Option Hash} {dimension : ℕ}
    {pTS : TypeSpec} {d : Declarator} (h : Ready heap parent dimension pTS d before)
    (hasks : Asks heap dimension pTS d) : before = parent :=
  h.right.resolve_right fun hright => hright.2 hasks

/-- The type behind a typedef. -/
theorem Ready.typedef {heap : Heap} {parent before : Option Hash} {dimension t : ℕ}
    {d : Declarator} (h : Ready heap parent dimension (.typedef t) d before)
    (hformat : dimension = 0 → d.tags.format = none) (hpointer : d.pointer_flag = false)
    (hfill : d.MayFill dimension) :
    Ready heap parent 0 (heap.typedefAt t).type (heap.typedefAt t).decl before where
  right := h.right.imp_right fun hright =>
    ⟨hright.1, fun hasks => hright.2 (.typedef hformat hpointer hfill hasks)⟩
  kept := h.kept.imp_right fun hkept hloses => hkept (.typedef hformat hpointer hfill hloses)

/-- An element that is processed before the parent is lost. -/
theorem Ready.element {heap : Heap} {parent before : Option Hash} {dimension : ℕ}
    {pTS : TypeSpec} {d : Declarator} (h : Ready heap parent dimension pTS d before)
    (hformat : dimension = 0 → d.tags.format = none) (hone : d.MayHave 1 dimension) :
    Ready heap parent (dimension + 1) pTS d before where
  right := h.right.imp_right fun hright =>
    ⟨hright.1, fun hasks => hright.2 (hasks.element hformat hone)⟩
  kept := h.kept.imp_right fun hkept hloses => hkept (hloses.element hformat hone)

/-- An element behind others, in an array that does not lose the parent. -/
theorem Ready.next {heap : Heap} {parent before after : Option Hash} {dimension : ℕ}
    {pTS : TypeSpec} {d : Declarator} (h : Ready heap parent dimension pTS d before)
    (hformat : dimension = 0 → d.tags.format = none) (hdim : dimension < d.dims.length)
    (hone : d.MayHave 1 dimension) (htwo : d.MayHave 2 dimension)
    (hafter : LeftBy heap (dimension + 1) pTS d before after) :
    Ready heap parent (dimension + 1) pTS d after where
  right := by
    rcases hafter with rfl | ⟨rfl, hmeets⟩
    · exact (h.element hformat hone).right
    · rcases h.kept with rfl | hkept
      · exact .inl rfl
      · refine .inr ⟨rfl, fun hasks => hkept (.array hformat ?_ (hasks.leaf hdim) (hmeets.leaf hdim))⟩
        exact ⟨hmeets.fill.cons hone, dimension, le_rfl, hdim, htwo⟩
  kept := (h.element hformat hone).kept

theorem assertParent_passes {parent : Option Hash} {pDecl : Option Declarator} {dimension : ℕ}
    {st : PackInfo} (h : ∀ d ∈ pDecl, dimension = 0 → d.UsesParent → st.parent = parent) :
    assertParent parent pDecl dimension st = .ok ⟨⟩ st := by
  have hpass : ¬ (dimension = 0 ∧ (∃ d ∈ pDecl, d.UsesParent) ∧ st.parent ≠ parent) := by
    rintro ⟨hdimension, ⟨d, hd, huses⟩, hne⟩
    exact hne (h d hd hdimension huses)
  exact congrFun (if_neg hpass) st

section Fixed
variable {perl : Perl} {d : Declarator} {k : ℕ} {c : ℤ} (hc : d.fixedCount k = some c)
include hc

theorem packCount_fixed {size avail s : ℤ} {st t : PackInfo}
    (h : packCount perl d k (d.tagAt k) size avail st = .ok s t) : s = c := by
  unfold Declarator.fixedCount at hc
  unfold packCount at h
  cases htag : d.tagAt k with
  | some tag =>
    rw [htag] at hc h
    cases tag with
    | fixed dim =>
      cases hc
      obtain ⟨_, _, hdim, h⟩ := bind_ok h
      cases hdim
      obtain ⟨_, _, _, h⟩ := bind_ok h
      obtain ⟨_, _, _, h⟩ := bind_ok h
      cases h
      rfl
    | _ => cases hc
  | none =>
    rw [htag] at hc h
    cases hv : d.dims[k]? with
    | none =>
      rw [hv] at hc
      cases hc
    | some v =>
      rw [hv] at hc h
      dsimp only [Option.bind_some] at hc h
      split_ifs at hc h with hundef
      cases hc
      cases h
      rfl

theorem unpackCount_fixed {avail s : ℤ} {st t : PackInfo}
    (h : unpackCount perl d k (d.tagAt k) avail st = .ok s t) : s = c := by
  unfold Declarator.fixedCount at hc
  unfold unpackCount at h
  cases htag : d.tagAt k with
  | some tag =>
    rw [htag] at hc h
    cases tag with
    | fixed dim =>
      cases hc
      cases h
      rfl
    | _ => cases hc
  | none =>
    rw [htag] at hc h
    cases hv : d.dims[k]? with
    | none =>
      rw [hv] at hc
      cases hc
    | some v =>
      rw [hv] at hc h
      dsimp only [Option.bind_some] at hc h
      split_ifs at hc with hundef
      cases hc
      rw [if_neg hundef] at h
      cases h
      rfl

end Fixed

/-- No member of a compound has an array that loses the parent. -/
def Heap.KeepsParents (heap : Heap) : Prop :=
  ∀ s, ∀ pStructDecl ∈ (heap.structAt s).declarations.getD [],
    ∀ d ∈ pStructDecl.declarators.getD [], d.identifier ≠ "" → ¬ Loses heap 0 pStructDecl.type d

section Pack
variable {perl : Perl} {cbc : CBC}

variable (perl cbc) in
/-- Packing with the assertion agrees with packing. -/
structure PackAgrees (fuel : ℕ) : Prop where
  type : ∀ parent pTS d dimension pBI sv st, Ready cbc.heap parent dimension pTS d st.parent →
    Agrees (assertedPackType perl cbc fuel parent pTS (some d) dimension pBI sv)
      (packType perl cbc fuel pTS (some d) dimension pBI sv) st
      fun t => LeftBy cbc.heap dimension pTS d st.parent t.parent
  struct : ∀ s sv inlined st,
    Agrees (assertedPackStruct perl cbc fuel s sv inlined) (packStruct perl cbc fuel s sv inlined) st
      fun t => ClearedBy cbc.heap s inlined st.parent t.parent

/-- One turn of the loop over the elements. -/
theorem agrees_packElement {fuel : ℕ} (ih : PackAgrees perl cbc fuel) {parent : Option Hash}
    {pTS : TypeSpec} {d : Declarator} {dimension : ℕ} (pos size : ℤ) (elem : Option SV × ℕ)
    {st : PackInfo} (hready : Ready cbc.heap parent (dimension + 1) pTS d st.parent) :
    Agrees (packElement (assertedPackType perl cbc fuel parent) pTS d dimension pos size elem)
      (packElement (packType perl cbc fuel) pTS d dimension pos size elem) st
      fun t => LeftBy cbc.heap (dimension + 1) pTS d st.parent t.parent := by
  obtain ⟨elem, i⟩ := elem
  cases elem with
  | none => exact agrees_pure (.inl rfl)
  | some sv =>
    apply agrees_within
    apply agrees_kept_bind (parent_lift _)
    intro distance t ht
    apply agrees_kept_bind ((parent_packLeaves perl cbc).pos _)
    intro _ u hu
    have hparent : u.parent = st.parent := hu.trans ht
    rw [← hparent] at hready ⊢
    exact ih.type _ _ _ _ _ _ u hready

theorem agrees_packArray {fuel : ℕ} (ih : PackAgrees perl cbc fuel) {parent : Option Hash}
    {pTS : TypeSpec} {d : Declarator} {dimension : ℕ} (hdim : dimension < d.dims.length)
    (hformat : dimension = 0 → d.tags.format = none) (sv : SV) {st : PackInfo}
    (hready : Ready cbc.heap parent dimension pTS d st.parent) :
    Agrees (packArray perl (assertedPackType perl cbc fuel parent) pTS d dimension
        (d.tagAt dimension) sv)
      (packArray perl (packType perl cbc fuel) pTS d dimension (d.tagAt dimension) sv) st
      fun t => LeftBy cbc.heap dimension pTS d st.parent t.parent := by
  have hleaves := parent_packLeaves perl cbc
  cases sv with
  | av elems =>
    apply agrees_kept_bind (parent_lift _)
    intro size t₁ ht₁
    apply (agrees_kept (hleaves.count hleaves.grow _ _ _ _ _)).bind
    intro s t₂ hcount ht₂
    apply Agrees.get_bind
    apply agrees_kept_bind (parent_emit _)
    intro _ t₃ ht₃
    have hparent : t₃.parent = st.parent := ht₃.trans (ht₂.trans ht₁)
    rw [← hparent] at hready ⊢
    have hturns := d.turns_cases dimension (elems.take s.toNat).zipIdx.length (by
      intro c hc
      rw [List.length_zipIdx, List.length_take, packCount_fixed hc hcount]
      omega)
    rcases hturns with hnil | ⟨hone, hlength | htwo⟩
    · rw [List.length_eq_zero_iff.mp hnil]
      exact agrees_pure (.inl rfl)
    · refine (agrees_forM_one
        (Q := fun t => LeftBy cbc.heap (dimension + 1) pTS d t₃.parent t.parent) hlength ?_
        (.inl rfl)).mono fun t ht => ht.array hformat hone
      exact fun elem _ => agrees_packElement ih _ _ elem (hready.element hformat hone)
    · -- every element may be the one that clears the parent
      refine (agrees_forM
        (Q := fun t : PackInfo => LeftBy cbc.heap (dimension + 1) pTS d t₃.parent t.parent)
        ?_ (.inl rfl)).mono fun t ht => ht.array hformat hone
      intro elem _ t ht
      apply (agrees_packElement ih _ _ elem (hready.next hformat hdim hone htwo ht)).mono
      exact fun u hu => ht.trans hu
  | _ =>
    apply agrees_kept_bind (parent_lift _)
    intro size t ht
    apply (agrees_kept (hleaves.grow _)).mono
    exact fun u hu => .inl (hu.trans ht)

theorem agrees_packUntagged {fuel : ℕ} (ih : PackAgrees perl cbc fuel) {parent : Option Hash}
    (pTS : TypeSpec) {d : Declarator} {dimension : ℕ}
    (hformat : dimension = 0 → d.tags.format = none) (pBI : Option BitfieldInfo) (sv : SV)
    {st : PackInfo} (hready : Ready cbc.heap parent dimension pTS d st.parent) :
    Agrees (packUntagged perl cbc (assertedPackType perl cbc fuel parent)
        (assertedPackStruct perl cbc fuel) pTS (some d) dimension (d.tagAt dimension) pBI sv)
      (packUntagged perl cbc (packType perl cbc fuel) (packStruct perl cbc fuel) pTS (some d)
        dimension (d.tagAt dimension) pBI sv) st
      fun t => LeftBy cbc.heap dimension pTS d st.parent t.parent := by
  have hleaves := parent_packLeaves perl cbc
  unfold packUntagged
  by_cases hdim : dimension < d.dims.length
  · rw [show (some d).filter (fun d => decide (dimension < d.dims.length)) = some d from
      Option.filter_some_pos (decide_eq_true hdim)]
    exact agrees_packArray ih hdim hformat sv hready
  · rw [show (some d).filter (fun d => decide (dimension < d.dims.length)) = none from
      Option.filter_some_neg (by simpa using hdim)]
    dsimp only
    have hfill : d.MayFill dimension := Declarator.mayFill_of_le (not_lt.mp hdim)
    cases hpointer : d.pointer_flag with
    | true =>
      rw [Option.any_some, hpointer, if_pos rfl]
      apply agrees_kept_bind (hleaves.hook _ _)
      intro sv t ht
      apply (agrees_kept (hleaves.pointer _)).mono
      exact fun u hu => .inl (hu.trans ht)
    | false =>
      rw [Option.any_some, hpointer, if_neg Bool.false_ne_true]
      cases pTS with
      | typedef t =>
        apply (ih.type _ _ _ _ _ _ st (hready.typedef hformat hpointer hfill)).mono
        exact fun u hu => hu.imp_right fun hleft =>
          ⟨hleft.1, .typedef hformat hpointer hfill hleft.2⟩
      | compound kind s =>
        dsimp only
        split
        · exact agrees_pure (.inl rfl)
        · apply (ih.struct s sv false st).mono
          exact fun u hu => hu.imp_right fun hleft =>
            ⟨hleft.1, .compound hformat hpointer hfill (hleft.2.2 rfl) hleft.2.1⟩
      | enum e => exact (agrees_kept (hleaves.enum _ _ _)).mono fun u hu => .inl hu
      | basic flags => exact (agrees_kept (hleaves.basic _ _ _)).mono fun u hu => .inl hu

theorem agrees_packType {fuel : ℕ} (ih : PackAgrees perl cbc fuel) (parent : Option Hash)
    (pTS : TypeSpec) (d : Declarator) (dimension : ℕ) (pBI : Option BitfieldInfo) (sv : SV)
    (st : PackInfo) (hready : Ready cbc.heap parent dimension pTS d st.parent) :
    Agrees (assertedPackType perl cbc (fuel + 1) parent pTS (some d) dimension pBI sv)
      (packType perl cbc (fuel + 1) pTS (some d) dimension pBI sv) st
      fun t => LeftBy cbc.heap dimension pTS d st.parent t.parent := by
  have hleaves := parent_packLeaves perl cbc
  have hassert : assertParent parent (some d) dimension st = .ok ⟨⟩ st := by
    apply assertParent_passes
    rintro d' ⟨⟩ rfl huses
    exact hready.parent_of_asks (.here huses)
  have hstep : Agrees (packTypeStep perl cbc (assertedPackType perl cbc fuel parent)
        (assertedPackStruct perl cbc fuel) pTS (some d) dimension pBI sv)
      (packTypeStep perl cbc (packType perl cbc fuel) (packStruct perl cbc fuel) pTS (some d)
        dimension pBI sv) st
      fun t => LeftBy cbc.heap dimension pTS d st.parent t.parent := by
    cases dimension with
    | zero =>
      apply agrees_kept_bind (hleaves.hook _ _)
      intro sv t ht
      rw [← ht] at hready ⊢
      split
      · rename_i format hformat
        exact (agrees_kept (hleaves.declaratorFormat d format sv trivial hformat)).mono
          fun u hu => .inl hu
      · rename_i hformat
        apply agrees_inScope (Q := LeftBy cbc.heap 0 pTS d t.parent)
        exact agrees_packUntagged ih pTS (fun _ => hformat) pBI sv hready
    | succ dimension =>
      apply agrees_keepByteOrder (Q := LeftBy cbc.heap (dimension + 1) pTS d st.parent)
      exact agrees_packUntagged ih pTS (fun h => absurd h (Nat.succ_ne_zero _)) pBI sv hready
  rw [assertedPackType, packType]
  exact ⟨(bind_of_ok hassert).trans hstep.same, hstep.returns⟩

/-- A member that is named sets the parent and clears it. -/
theorem agrees_packMember {fuel : ℕ} (ih : PackAgrees perl cbc fuel) {s : ℕ} {h : Hash} {pos : ℤ}
    {type : TypeSpec} {d : Declarator} (hdeclares : d.identifier ≠ "" → Declares cbc.heap s)
    (hkept : d.identifier ≠ "" → ¬ Loses cbc.heap 0 type d) (inlined : Bool)
    (hplain : inlined = false → (cbc.heap.structAt s).tags.format = none)
    {before : Option Hash} {st : PackInfo} (hst : ClearedBy cbc.heap s inlined before st.parent) :
    Agrees (packMember (assertedPackType perl cbc fuel (some h)) h pos type d)
      (packMember (packType perl cbc fuel) h pos type d) st
      fun t => ClearedBy cbc.heap s inlined before t.parent := by
  unfold packMember
  by_cases hname : d.identifier = ""
  · rw [if_pos hname]
    exact agrees_pure hst
  · rw [if_neg hname]
    split
    · apply agrees_kept_bind ((parent_packLeaves perl cbc).pos _)
      intro _ t _
      apply Agrees.modify_bind
      refine (ih.type (some h) type d 0 _ (by assumption)
        { t with parent := some h } ⟨.inl rfl, .inr (hkept hname)⟩).bind ?_
      intro _ u _ _
      exact Agrees.refl (by
        rintro a v ⟨⟩
        exact .inr ⟨rfl, hdeclares hname, hplain⟩)
    · exact agrees_pure hst

variable (hkeeps : cbc.heap.KeepsParents)
include hkeeps

theorem agrees_packMembers {fuel : ℕ} (ih : PackAgrees perl cbc fuel) (s : ℕ) (sv : SV)
    {inlined : Bool} (hplain : inlined = false → (cbc.heap.structAt s).tags.format = none)
    (st : PackInfo) :
    Agrees (assertedPackMembers cbc fuel (assertedPackType perl cbc fuel)
        (assertedPackStruct perl cbc fuel) (cbc.heap.structAt s) sv)
      (packMembers cbc fuel (packType perl cbc fuel) (packStruct perl cbc fuel)
        (cbc.heap.structAt s) sv) st
      fun t => ClearedBy cbc.heap s inlined st.parent t.parent := by
  apply Agrees.get_bind
  cases sv with
  | hv h =>
    refine agrees_forM
      (Q := fun t : PackInfo => ClearedBy cbc.heap s inlined st.parent t.parent) ?_ (.inl rfl)
    intro pStructDecl hdecl t ht
    unfold packDeclaration
    cases hdecls : pStructDecl.declarators with
    | some declarators =>
      refine agrees_forM
        (Q := fun t : PackInfo => ClearedBy cbc.heap s inlined st.parent t.parent) ?_ ht
      intro d hd u hu
      have hmem : d ∈ pStructDecl.declarators.getD [] := by rwa [hdecls]
      apply agrees_packMember ih (fun hname => .member hdecl hmem hname)
        (hkeeps s pStructDecl hdecl d hmem) inlined hplain hu
    | none =>
      cases hfollow : followTsptr cbc.heap fuel pStructDecl.type with
      | error e =>
        apply Agrees.refl
        intro a u hu
        exact nomatch hu
      | ok s' =>
        apply Agrees.bind (Q := fun u => u = t)
        · apply Agrees.refl
          intro a u hu
          exact (liftCall_ok hu).2
        · rintro a u hu rfl
          obtain rfl := Except.ok.inj (liftCall_ok hu).1
          apply Agrees.modify_bind
          apply (ih.struct s' (.hv h) true _).mono
          rintro v (hv | ⟨hv, hinner, -⟩)
          · rw [hv]
            exact ht
          · exact .inr ⟨hv, .unnamed hdecl hdecls hfollow hinner, hplain⟩
  | _ => exact agrees_pure (.inl rfl)

theorem agrees_packStruct {fuel : ℕ} (ih : PackAgrees perl cbc fuel) (s : ℕ) (sv : SV)
    (inlined : Bool) (st : PackInfo) :
    Agrees (assertedPackStruct perl cbc (fuel + 1) s sv inlined)
      (packStruct perl cbc (fuel + 1) s sv inlined) st
      fun t => ClearedBy cbc.heap s inlined st.parent t.parent := by
  have hleaves := parent_packLeaves perl cbc
  rw [assertedPackStruct, packStruct]
  unfold assertedPackStructStep packStructStep
  cases inlined with
  | true =>
    apply agrees_inScope (Q := ClearedBy cbc.heap s true st.parent)
    exact agrees_packMembers hkeeps ih s sv (fun h => absurd h Bool.noConfusion) _
  | false =>
    dsimp only
    rw [if_neg Bool.false_ne_true, if_neg Bool.false_ne_true]
    apply agrees_kept_bind (hleaves.hook _ _)
    intro sv t ht
    rw [← ht]
    cases hformat : (cbc.heap.structAt s).tags.format with
    | some format =>
      dsimp only
      exact (agrees_kept (hleaves.format (.compound (cbc.heap.structAt s))
        (cbc.heap.structAt s).tags _ _ _ rfl)).mono fun u hu => .inl hu
    | none =>
      apply agrees_inScope (Q := ClearedBy cbc.heap s false t.parent)
      exact agrees_packMembers hkeeps ih s sv (fun _ => hformat) _

theorem packAgrees (fuel : ℕ) : PackAgrees perl cbc fuel := by
  induction fuel with
  | zero => exact ⟨fun _ _ _ _ _ _ _ _ => agrees_throw, fun _ _ _ _ => agrees_throw⟩
  | succ fuel ih => exact ⟨agrees_packType ih, agrees_packStruct hkeeps ih⟩

/-- Outside of any compound there is no parent, and a type without a declarator has no
tags of its own. -/
theorem packTop_agrees (fuel : ℕ) (pTS : TypeSpec) (pDecl : Option Declarator) (dimension : ℕ)
    (sv : SV) {st : PackInfo} (hst : st.parent = none) :
    assertedPackType perl cbc fuel none pTS pDecl dimension none sv st =
      packType perl cbc fuel pTS pDecl dimension none sv st := by
  cases pDecl with
  | some d => exact ((packAgrees hkeeps fuel).type none pTS d dimension none sv st
      ⟨.inl hst, .inl rfl⟩).same
  | none =>
    cases fuel with
    | zero => rfl
    | succ fuel =>
      have ih : PackAgrees perl cbc fuel := packAgrees hkeeps fuel
      have hassert : assertParent none none dimension st = .ok ⟨⟩ st :=
        assertParent_passes (by simp)
      have hstep : Agrees (packTypeStep perl cbc (assertedPackType perl cbc fuel none)
            (assertedPackStruct perl cbc fuel) pTS none dimension none sv)
          (packTypeStep perl cbc (packType perl cbc fuel) (packStruct perl cbc fuel) pTS none
            dimension none sv) st fun _ => True := by
        apply agrees_keepByteOrder (Q := fun _ => True)
        cases pTS with
        | typedef t =>
          exact (ih.type none _ _ 0 none sv st ⟨.inl hst, .inl rfl⟩).mono fun _ _ => trivial
        | compound kind s =>
          simp only [packUntagged, Option.filter_none, Option.any_none, Bool.false_eq_true, if_false]
          split
          · exact agrees_pure trivial
          · exact (ih.struct s sv false st).mono fun _ _ => trivial
        | enum e => exact Agrees.refl fun _ _ _ => trivial
        | basic flags => exact Agrees.refl fun _ _ _ => trivial
      rw [assertedPackType, packType]
      exact (bind_of_ok hassert).trans hstep.same

end Pack

theorem parent_of_keepByteOrder {α : Type} {m : Pk α} (h : parentEffect.Holds (keepByteOrder m)) :
    parentEffect.Holds m := by
  intro s
  have hs := h s
  unfold Effect.At at hs ⊢
  cases hm : m s with
  | ok a t =>
    rw [keepByteOrder_ok hm] at hs
    exact hs
  | error e t => trivial

section Unpack
variable {perl : Perl} {cbc : CBC}

variable (perl cbc) in
/-- Unpacking with the assertion agrees with unpacking. -/
structure UnpackAgrees (fuel : ℕ) : Prop where
  type : ∀ parent pTS d dimension pBI st, Ready cbc.heap parent dimension pTS d st.parent →
    Agrees (assertedUnpackType perl cbc fuel parent pTS (some d) dimension pBI)
      (unpackType perl cbc fuel pTS (some d) dimension pBI) st
      fun t => LeftBy cbc.heap dimension pTS d st.parent t.parent
  struct : ∀ s hash st,
    Agrees (assertedUnpackStruct perl cbc fuel s hash) (unpackStruct perl cbc fuel s hash) st
      fun t => ClearedBy cbc.heap s hash.isSome st.parent t.parent

theorem agrees_unpackElement {fuel : ℕ} (ih : UnpackAgrees perl cbc fuel) {parent : Option Hash}
    {pTS : TypeSpec} {d : Declarator} {dimension : ℕ} (pos size : ℤ) (i : ℕ)
    {st : PackInfo} (hready : Ready cbc.heap parent (dimension + 1) pTS d st.parent) :
    Agrees (unpackElement (assertedUnpackType perl cbc fuel parent) pTS d dimension pos size i)
      (unpackElement (unpackType perl cbc fuel) pTS d dimension pos size i) st
      fun t => LeftBy cbc.heap (dimension + 1) pTS d st.parent t.parent := by
  apply agrees_within
  apply agrees_kept_bind (parent_lift _)
  intro distance t ht
  apply agrees_kept_bind ((parent_unpackLeaves perl cbc).pos _)
  intro _ u hu
  have hparent : u.parent = st.parent := hu.trans ht
  rw [← hparent] at hready ⊢
  exact ih.type _ _ _ _ _ u hready

theorem unpackArrayHead_fixed {d : Declarator} {k : ℕ} {c : ℤ} (hc : d.fixedCount k = some c)
    {st t : PackInfo} {size pos s : ℤ}
    (h : unpackArrayHead perl d k (d.tagAt k) st = .ok (size, pos, s) t) : s = loopBound c := by
  unfold unpackArrayHead at h
  obtain ⟨_, _, _, h₁⟩ := bind_ok h
  obtain ⟨_, _, _, h₂⟩ := bind_ok h₁
  obtain ⟨_, _, _, h₃⟩ := bind_ok h₂
  obtain ⟨count, _, hcount, h₄⟩ := bind_ok h₃
  obtain ⟨_, _, _, h₅⟩ := bind_ok h₄
  obtain ⟨_, _, _, h₆⟩ := bind_ok h₅
  cases h₆
  rw [unpackCount_fixed hc hcount]

theorem agrees_unpackArray {fuel : ℕ} (ih : UnpackAgrees perl cbc fuel) {parent : Option Hash}
    {pTS : TypeSpec} {d : Declarator} {dimension : ℕ} (hdim : dimension < d.dims.length)
    (hformat : dimension = 0 → d.tags.format = none) {st : PackInfo}
    (hready : Ready cbc.heap parent dimension pTS d st.parent) :
    Agrees (unpackArray perl (assertedUnpackType perl cbc fuel parent) pTS d dimension
        (d.tagAt dimension))
      (unpackArray perl (unpackType perl cbc fuel) pTS d dimension (d.tagAt dimension)) st
      fun t => LeftBy cbc.heap dimension pTS d st.parent t.parent := by
  have hleaves := parent_unpackLeaves perl cbc
  apply (agrees_kept (hleaves.head d dimension (d.tagAt dimension) trivial hformat hdim)).bind
  rintro ⟨size, pos, s⟩ t hhead ht
  rw [← ht] at hready ⊢
  have hturns := d.turns_cases dimension s.toNat (by
    intro c hc
    rw [unpackArrayHead_fixed hc hhead]
    unfold loopBound
    split_ifs <;> omega)
  have hloop : Agrees ((List.range s.toNat).mapM
        (unpackElement (assertedUnpackType perl cbc fuel parent) pTS d dimension pos size))
      ((List.range s.toNat).mapM
        (unpackElement (unpackType perl cbc fuel) pTS d dimension pos size)) t
      fun u => LeftBy cbc.heap dimension pTS d t.parent u.parent := by
    rcases hturns with hnil | ⟨hone, hlength | htwo⟩
    · rw [hnil]
      exact agrees_pure (.inl rfl)
    · refine (agrees_mapM_one
        (Q := fun u => LeftBy cbc.heap (dimension + 1) pTS d t.parent u.parent) ?_ ?_
        (.inl rfl)).mono fun u hu => hu.array hformat hone
      · rwa [List.length_range]
      · exact fun i _ => agrees_unpackElement ih _ _ i (hready.element hformat hone)
    · refine (agrees_mapM
        (Q := fun u : PackInfo => LeftBy cbc.heap (dimension + 1) pTS d t.parent u.parent)
        ?_ (.inl rfl)).mono fun u hu => hu.array hformat hone
      intro i _ u hu
      apply (agrees_unpackElement ih _ _ i (hready.next hformat hdim hone htwo hu)).mono
      exact fun v hv => hu.trans hv
  apply hloop.bind
  exact fun elems u _ hu => agrees_pure hu

theorem agrees_unpackUntagged {fuel : ℕ} (ih : UnpackAgrees perl cbc fuel) {parent : Option Hash}
    (pTS : TypeSpec) {d : Declarator} {dimension : ℕ}
    (hformat : dimension = 0 → d.tags.format = none) (pBI : Option BitfieldInfo)
    {st : PackInfo} (hready : Ready cbc.heap parent dimension pTS d st.parent) :
    Agrees (unpackUntagged perl cbc (assertedUnpackType perl cbc fuel parent)
        (assertedUnpackStruct perl cbc fuel) pTS (some d) dimension (d.tagAt dimension) pBI)
      (unpackUntagged perl cbc (unpackType perl cbc fuel) (unpackStruct perl cbc fuel) pTS (some d)
        dimension (d.tagAt dimension) pBI) st
      fun t => LeftBy cbc.heap dimension pTS d st.parent t.parent := by
  have hleaves := parent_unpackLeaves perl cbc
  unfold unpackUntagged
  by_cases hdim : dimension < d.dims.length
  · rw [show (some d).filter (fun d => decide (dimension < d.dims.length)) = some d from
      Option.filter_some_pos (decide_eq_true hdim)]
    exact agrees_unpackArray ih hdim hformat hready
  · rw [show (some d).filter (fun d => decide (dimension < d.dims.length)) = none from
      Option.filter_some_neg (by simpa using hdim)]
    dsimp only
    have hfill : d.MayFill dimension := Declarator.mayFill_of_le (not_lt.mp hdim)
    cases hpointer : d.pointer_flag with
    | true =>
      rw [Option.any_some, hpointer, if_pos rfl]
      apply agrees_kept_bind hleaves.pointer
      intro rv t ht
      apply (agrees_kept (hleaves.hook _ _)).mono
      exact fun u hu => .inl (hu.trans ht)
    | false =>
      rw [Option.any_some, hpointer, if_neg Bool.false_ne_true]
      cases pTS with
      | typedef t =>
        apply (ih.type _ _ _ _ _ st (hready.typedef hformat hpointer hfill)).mono
        exact fun u hu => hu.imp_right fun hleft =>
          ⟨hleft.1, .typedef hformat hpointer hfill hleft.2⟩
      | compound kind s =>
        dsimp only
        split
        · exact agrees_pure (.inl rfl)
        · apply (ih.struct s none st).mono
          exact fun u hu => hu.imp_right fun hleft =>
            ⟨hleft.1, .compound hformat hpointer hfill (hleft.2.2 rfl) hleft.2.1⟩
      | enum e =>
        exact (agrees_kept (parent_of_keepByteOrder (hleaves.enum _ _))).mono fun u hu => .inl hu
      | basic flags => exact (agrees_kept (hleaves.basic _ _)).mono fun u hu => .inl hu

theorem agrees_unpackType {fuel : ℕ} (ih : UnpackAgrees perl cbc fuel) (parent : Option Hash)
    (pTS : TypeSpec) (d : Declarator) (dimension : ℕ) (pBI : Option BitfieldInfo)
    (st : PackInfo) (hready : Ready cbc.heap parent dimension pTS d st.parent) :
    Agrees (assertedUnpackType perl cbc (fuel + 1) parent pTS (some d) dimension pBI)
      (unpackType perl cbc (fuel + 1) pTS (some d) dimension pBI) st
      fun t => LeftBy cbc.heap dimension pTS d st.parent t.parent := by
  have hleaves := parent_unpackLeaves perl cbc
  have hassert : assertParent parent (some d) dimension st = .ok ⟨⟩ st := by
    apply assertParent_passes
    rintro d' ⟨⟩ rfl huses
    exact hready.parent_of_asks (.here huses)
  have hstep : Agrees (unpackTypeStep perl cbc (assertedUnpackType perl cbc fuel parent)
        (assertedUnpackStruct perl cbc fuel) pTS (some d) dimension pBI)
      (unpackTypeStep perl cbc (unpackType perl cbc fuel) (unpackStruct perl cbc fuel) pTS (some d)
        dimension pBI) st
      fun t => LeftBy cbc.heap dimension pTS d st.parent t.parent := by
    cases dimension with
    | zero =>
      cases hformat : d.tags.format with
      | some format =>
        rw [unpackTypeStep_format hformat, unpackTypeStep_format hformat]
        apply agrees_kept_bind (hleaves.declaratorFormat d format trivial hformat)
        intro rv t ht
        exact (agrees_kept (hleaves.hook _ _)).mono fun u hu => .inl (hu.trans ht)
      | none =>
        rw [unpackTypeStep_plain hformat, unpackTypeStep_plain hformat]
        apply Agrees.bind (agrees_inScope (Q := LeftBy cbc.heap 0 pTS d st.parent)
          (agrees_unpackUntagged ih pTS (fun _ => hformat) pBI hready))
        intro rv t _ ht
        apply (agrees_kept (hleaves.hook _ _)).mono
        intro u hu
        rw [hu]
        exact ht
    | succ dimension =>
      apply agrees_keepByteOrder (Q := LeftBy cbc.heap (dimension + 1) pTS d st.parent)
      exact agrees_unpackUntagged ih pTS (fun h => absurd h (Nat.succ_ne_zero _)) pBI hready
  rw [assertedUnpackType, unpackType]
  exact ⟨(bind_of_ok hassert).trans hstep.same, hstep.returns⟩

/-- A member that is unpacked sets the parent and clears it. -/
theorem agrees_unpackMember {fuel : ℕ} (ih : UnpackAgrees perl cbc fuel) {s : ℕ} {h : Hash}
    {pos : ℤ} {type : TypeSpec} {d : Declarator}
    (hdeclares : d.identifier ≠ "" → Declares cbc.heap s)
    (hkept : d.identifier ≠ "" → ¬ Loses cbc.heap 0 type d) (inlined : Bool)
    (hplain : inlined = false → (cbc.heap.structAt s).tags.format = none)
    {before : Option Hash} {st : PackInfo} (hst : ClearedBy cbc.heap s inlined before st.parent) :
    Agrees (unpackMember (assertedUnpackType perl cbc fuel (some h)) pos type h d)
      (unpackMember (unpackType perl cbc fuel) pos type h d) st
      fun t => ClearedBy cbc.heap s inlined before t.parent := by
  unfold unpackMember
  split
  · exact agrees_pure hst
  · rename_i hnew
    have hname : d.identifier ≠ "" := fun heq => hnew (.inl heq)
    apply agrees_kept_bind ((parent_unpackLeaves perl cbc).pos _)
    intro _ t _
    apply Agrees.modify_bind
    refine (ih.type (some h) type d 0 _ { t with parent := some h }
      ⟨.inl rfl, .inr (hkept hname)⟩).bind ?_
    intro value u _ _
    exact Agrees.modify_bind (agrees_pure (.inr ⟨rfl, hdeclares hname, hplain⟩))

variable (hkeeps : cbc.heap.KeepsParents)
include hkeeps

theorem agrees_unpackMembers {fuel : ℕ} (ih : UnpackAgrees perl cbc fuel) (s : ℕ) (h : Hash)
    {inlined : Bool} (hplain : inlined = false → (cbc.heap.structAt s).tags.format = none)
    (st : PackInfo) :
    Agrees (assertedUnpackMembers cbc fuel (assertedUnpackType perl cbc fuel)
        (assertedUnpackStruct perl cbc fuel) (cbc.heap.structAt s) h)
      (unpackMembers cbc fuel (unpackType perl cbc fuel) (unpackStruct perl cbc fuel)
        (cbc.heap.structAt s) h) st
      fun t => ClearedBy cbc.heap s inlined st.parent t.parent := by
  apply Agrees.get_bind
  refine agrees_foldlM (Q := fun t : PackInfo => ClearedBy cbc.heap s inlined st.parent t.parent)
    ?_ h (.inl rfl)
  intro pStructDecl hdecl h t ht
  unfold assertedUnpackDeclaration unpackDeclaration
  cases hdecls : pStructDecl.declarators with
  | some declarators =>
    refine agrees_foldlM
      (Q := fun t : PackInfo => ClearedBy cbc.heap s inlined st.parent t.parent) ?_ h ht
    intro d hd h u hu
    have hmem : d ∈ pStructDecl.declarators.getD [] := by rwa [hdecls]
    exact agrees_unpackMember ih (fun hname => .member hdecl hmem hname)
      (hkeeps s pStructDecl hdecl d hmem) inlined hplain hu
  | none =>
    cases hfollow : followTsptr cbc.heap fuel pStructDecl.type with
    | error e =>
      apply Agrees.refl
      intro a u hu
      exact nomatch hu
    | ok s' =>
      apply Agrees.bind (Q := fun u => u = t)
      · apply Agrees.refl
        intro a u hu
        exact (liftCall_ok hu).2
      · rintro a u hu rfl
        obtain rfl := Except.ok.inj (liftCall_ok hu).1
        apply Agrees.modify_bind
        apply (ih.struct s' (some h) _).bind
        intro sv v _ hv
        have hcleared : ClearedBy cbc.heap s inlined st.parent v.parent := by
          rcases hv with hv | ⟨hv, hinner, -⟩
          · rw [hv]
            exact ht
          · exact .inr ⟨hv, .unnamed hdecl hdecls hfollow hinner, hplain⟩
        cases sv <;> exact agrees_pure hcleared

theorem agrees_unpackStruct {fuel : ℕ} (ih : UnpackAgrees perl cbc fuel) (s : ℕ)
    (hash : Option Hash) (st : PackInfo) :
    Agrees (assertedUnpackStruct perl cbc (fuel + 1) s hash)
      (unpackStruct perl cbc (fuel + 1) s hash) st
      fun t => ClearedBy cbc.heap s hash.isSome st.parent t.parent := by
  have hleaves := parent_unpackLeaves perl cbc
  rw [assertedUnpackStruct, unpackStruct]
  unfold assertedUnpackStructStep unpackStructStep
  cases hash with
  | some h =>
    apply Agrees.bind (agrees_inScope (Q := ClearedBy cbc.heap s true st.parent)
      (agrees_unpackMembers hkeeps ih s h (fun h => absurd h Bool.noConfusion) _))
    exact fun h t _ ht => agrees_pure ht
  | none =>
    dsimp only
    cases hformat : (cbc.heap.structAt s).tags.format with
    | some format =>
      apply agrees_kept_bind
        (hleaves.format (.compound (cbc.heap.structAt s)) (cbc.heap.structAt s).tags _ _ rfl)
      intro sv t ht
      exact (agrees_kept (hleaves.hook _ _)).mono fun u hu => .inl (hu.trans ht)
    | none =>
      apply Agrees.bind (agrees_inScope (Q := ClearedBy cbc.heap s false st.parent)
        (agrees_unpackMembers hkeeps ih s [] (fun _ => hformat) _))
      intro h t _ ht
      apply (agrees_kept (hleaves.hook _ _)).mono
      intro u hu
      rw [hu]
      exact ht

theorem unpackAgrees (fuel : ℕ) : UnpackAgrees perl cbc fuel := by
  induction fuel with
  | zero => exact ⟨fun _ _ _ _ _ _ _ => agrees_throw, fun _ _ _ => agrees_throw⟩
  | succ fuel ih => exact ⟨agrees_unpackType ih, agrees_unpackStruct hkeeps ih⟩

theorem unpackTop_agrees (fuel : ℕ) (pTS : TypeSpec) (pDecl : Option Declarator) (dimension : ℕ)
    {st : PackInfo} (hst : st.parent = none) :
    assertedUnpackType perl cbc fuel none pTS pDecl dimension none st =
      unpackType perl cbc fuel pTS pDecl dimension none st := by
  cases pDecl with
  | some d => exact ((unpackAgrees hkeeps fuel).type none pTS d dimension none st
      ⟨.inl hst, .inl rfl⟩).same
  | none =>
    cases fuel with
    | zero => rfl
    | succ fuel =>
      have ih : UnpackAgrees perl cbc fuel := unpackAgrees hkeeps fuel
      have hassert : assertParent none none dimension st = .ok ⟨⟩ st :=
        assertParent_passes (by simp)
      have hstep : Agrees (unpackTypeStep perl cbc (assertedUnpackType perl cbc fuel none)
            (assertedUnpackStruct perl cbc fuel) pTS none dimension none)
          (unpackTypeStep perl cbc (unpackType perl cbc fuel) (unpackStruct perl cbc fuel) pTS none
            dimension none) st fun _ => True := by
        apply agrees_keepByteOrder (Q := fun _ => True)
        cases pTS with
        | typedef t =>
          exact (ih.type none _ _ 0 none st ⟨.inl hst, .inl rfl⟩).mono fun _ _ => trivial
        | compound kind s =>
          simp only [unpackUntagged, Option.filter_none, Option.any_none, Bool.false_eq_true,
            if_false]
          split
          · exact agrees_pure trivial
          · exact (ih.struct s none st).mono fun _ _ => trivial
        | enum e => exact Agrees.refl fun _ _ _ => trivial
        | basic flags => exact Agrees.refl fun _ _ _ => trivial
      rw [assertedUnpackType, unpackType]
      exact (bind_of_ok hassert).trans hstep.same

end Unpack

/-- Unless a member has an array that loses the parent, every Dimension tag that packing or
unpacking evaluates is evaluated with the hash of the innermost compound: the assertion
in front of it changes nothing. -/
theorem dimension_parents_right {cbc : CBC} (hkeeps : cbc.heap.KeepsParents) (perl : Perl)
    (fuel : ℕ) (pTS : TypeSpec) (pDecl : Option Declarator) (dimension : ℕ) {st : PackInfo}
    (hst : st.parent = none) :
    (∀ sv, assertedPkPack perl cbc fuel pTS pDecl dimension sv st =
        pkPack perl cbc fuel pTS pDecl dimension sv st) ∧
      assertedPkUnpack perl cbc fuel pTS pDecl dimension st =
        pkUnpack perl cbc fuel pTS pDecl dimension st := by
  constructor
  · intro sv
    have hordered : ({ st with order := cbc.pLP.byte_order } : PackInfo).parent = none := hst
    exact packTop_agrees hkeeps fuel pTS pDecl dimension sv hordered
  · have hordered : ({ st with order := cbc.pLP.byte_order } : PackInfo).parent = none := hst
    exact unpackTop_agrees hkeeps fuel pTS pDecl dimension hordered

/-- `typedef struct { int v; } pair[2]; struct { pair x[n]; }`, where the typedef has a hook
for its dimension -/
def taggedPairs (n : ℤ) : Heap where
  structAt
    | 0 => { structOf "" [declaration (.typedef 0)
        [{ memberAt "x" 0 (8 * n) 8 with ext := .array [⟨n, false, false⟩] }]] with size := 8 * n }
    | _ => { structOf "" [declaration (.basic T_INT) [memberAt "v" 0 4 4]] with size := 4 }
  enumAt _ := ⟨0, false, false, 4, 4, ⟨"order.h", 1⟩, none, .empty, ""⟩
  typedefAt _ := ⟨.compound .struct 1, { memberAt "pair" 0 8 4 with
    ext := .array [⟨2, false, false⟩]
    tags := ⟨none, some (.hook 0), none, none⟩ }⟩

/-- The hook is asked for each of the elements of `x`, of which there is only one. -/
theorem taggedPairs_keepsParents : (cbc64 (taggedPairs 1)).heap.KeepsParents := by
  intro s pStructDecl hdecl d hd _ hloses
  cases s with
  | zero =>
    obtain rfl : pStructDecl = _ := List.mem_singleton.mp hdecl
    obtain rfl : d = _ := List.mem_singleton.mp hd
    cases hloses with
    | array _ hrepeats _ _ =>
      obtain ⟨j, -, hj, htwo⟩ := hrepeats.twice
      obtain rfl : j = 0 := Nat.lt_one_iff.mp hj
      exact absurd (htwo 1 rfl) (by decide)
    | typedef _ _ _ hbelow =>
      change Loses _ 0 (.compound .struct 1) _ at hbelow
      cases hbelow with
      | array _ _ hasks _ =>
        change Asks _ 1 (.compound .struct 1) _ at hasks
        cases hasks
  | succ s =>
    obtain rfl : pStructDecl = _ := List.mem_singleton.mp hdecl
    change Loses _ 0 (.basic T_INT) _ at hloses
    cases hloses with
    | array _ _ _ hmeets => cases hmeets

/-- An interpreter whose hook answers 1, and dies when it is called without a parent. -/
def parentPerl : Perl :=
  { slotPerl with call := fun _ _ arg => match arg with
    | some _ => .ok (newSViv 1)
    | none => .error "no parent" }

theorem dimension_parents_right_single :
    (∀ sv, assertedPkPack parentPerl (cbc64 (taggedPairs 1)) 10 (.compound .struct 0) none 0
        sv (pkCreate [] 0) =
      pkPack parentPerl (cbc64 (taggedPairs 1)) 10 (.compound .struct 0) none 0 sv
        (pkCreate [] 0)) ∧
    assertedPkUnpack parentPerl (cbc64 (taggedPairs 1)) 10 (.compound .struct 0) none 0
        (pkCreate (List.replicate 8 0) 8) =
      pkUnpack parentPerl (cbc64 (taggedPairs 1)) 10 (.compound .struct 0) none 0
        (pkCreate (List.replicate 8 0) 8) :=
  ⟨(dimension_parents_right taggedPairs_keepsParents parentPerl 10 (.compound .struct 0) none 0
      rfl).1,
    (dimension_parents_right taggedPairs_keepsParents parentPerl 10 (.compound .struct 0) none 0
      rfl).2⟩

/-- `{ x => [ [ { v => 1 } ], [ { v => 2 } ] ] }` -/
def pairsHash : SV :=
  .hv [("x", .av [some (.av [some (.hv [("v", newSViv 1)])]),
    some (.av [some (.hv [("v", newSViv 2)])])])]

/-- How a run ended, and how many subroutines it has called. -/
def outcome {α : Type} (r : EStateM.Result Fault PackInfo α) : Option Fault × ℕ :=
  match r with
  | .ok _ st => (none, st.calls)
  | .error e st => (some e, st.calls)

/-- Inside of the same compound the hook gets the parent for the first of the two arrays and
none for the second. -/
theorem dimension_parent_cleared :
    outcome (pkPack parentPerl (cbc64 (taggedPairs 2)) 10 (.compound .struct 0) none 0 pairsHash
        (pkCreate [] 0)) = (some (.croak "no parent"), 2) ∧
      outcome (pkUnpack parentPerl (cbc64 (taggedPairs 2)) 10 (.compound .struct 0) none 0
        (pkCreate (List.replicate 16 0) 16)) = (some (.croak "no parent"), 2) := by
  decide +kernel

end ConvertBinaryC
