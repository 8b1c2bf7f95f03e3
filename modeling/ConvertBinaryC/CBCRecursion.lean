import ConvertBinaryC.CBCContainment
import ConvertBinaryC.CBCZeroSized

/-! The recursions of `unpack_type`, of the initializers and of `get_all_member_strings` are
recursions over types: where containment is well-founded some depth is enough for all of them. -/
namespace ConvertBinaryC

open StateRules Filter

/-- A computation that does not run out of depth. -/
def Ends {α : Type} (c : Call α) : Prop := c ≠ .error .outOfFuel

theorem ends_ok {α : Type} (a : α) : Ends (.ok a : Call α) := fun h => by cases h

theorem ends_error {α : Type} {e : Fault} (h : e ≠ .outOfFuel) : Ends (.error e : Call α) :=
  fun he => h (Except.error.inj he)

theorem Ends.bind {α β : Type} {c : Call α} {f : α → Call β} (hc : Ends c)
    (hf : ∀ a, c = .ok a → Ends (f a)) : Ends (c >>= f) := by
  cases c with
  | ok a => exact hf a rfl
  | error e => exact ends_error fun h => hc (congrArg _ h)

theorem Ends.foldlM {α β : Type} {l : List β} {f : α → β → Call α}
    (hf : ∀ b ∈ l, ∀ a, Ends (f a b)) (a : α) : Ends (l.foldlM f a) := by
  induction l generalizing a with
  | nil => exact ends_ok a
  | cons b l ih =>
    rw [List.foldlM_cons]
    apply (hf b List.mem_cons_self a).bind
    exact fun a' _ => ih (fun c hc => hf c (List.mem_cons_of_mem b hc)) a'

/-- What `get_init_str_type` and `get_ams_type` look for first. -/
theorem dimension_found {d : Declarator} {dimension : ℕ} (h : dimension < d.dims.length) :
    ((some d).bind fun d => d.dims[dimension]?.map fun pValue => (d, pValue)) =
      some (d, d.dims[dimension]) := by
  simp [h]

theorem dimension_over {pDecl : Option Declarator} {dimension : ℕ}
    (h : ∀ d ∈ pDecl, d.dims.length ≤ dimension) :
    (pDecl.bind fun d => d.dims[dimension]?.map fun pValue => (d, pValue)) = none := by
  cases pDecl with
  | none => rfl
  | some d =>
    have hd := h d rfl
    simp [hd]

theorem pointer_flag_plain {pDecl : Option Declarator} (h : ∀ d ∈ pDecl, d.pointer_flag = false) :
    pDecl.any Declarator.pointer_flag = false := by
  cases pDecl with
  | none => rfl
  | some d => exact h d rfl

section Initializer
variable (perl : Perl) (heap : Heap)

/-- The recursion of `get_init_str_type`. -/
def initRecursion : TypeRecursion heap where
  type n pTS pDecl dimension :=
    ∀ init level string, Ends (initType perl heap n pTS pDecl dimension init level string)
  struct n s := ∀ init level string, Ends (initStruct perl heap n s init level string)
  element := by
    intro n pTS d dimension hdim hnext init level string
    rw [initType]
    unfold initTypeStep
    rw [dimension_found hdim]
    apply Ends.bind
    · apply Ends.foldlM
      intro i _ st
      apply (hnext _ _ _).bind
      exact fun string' _ => ends_ok _
    · exact fun st _ => ends_ok _
  pointer := by
    intro n pTS d dimension hover hpointer init level string
    rw [initType]
    unfold initTypeStep
    rw [dimension_over (by rintro d' ⟨⟩; exact hover)]
    dsimp only
    rw [if_pos (show (some d).any Declarator.pointer_flag = true from hpointer)]
    exact ends_ok _
  typedef := by
    intro n t pDecl dimension hplain hnext init level string
    rw [initType]
    unfold initTypeStep
    rw [dimension_over fun d hd => (hplain d hd).1]
    dsimp only
    rw [pointer_flag_plain fun d hd => (hplain d hd).2, if_neg Bool.false_ne_true]
    exact hnext _ _ _
  compound := by
    intro n kind s pDecl dimension hplain hnext init level string
    rw [initType]
    unfold initTypeStep
    rw [dimension_over fun d hd => (hplain d hd).1]
    dsimp only
    rw [pointer_flag_plain fun d hd => (hplain d hd).2, if_neg Bool.false_ne_true]
    exact hnext _ _ _
  leaf := by
    intro n pTS pDecl dimension hleaf hplain init level string
    rw [initType]
    unfold initTypeStep
    rw [dimension_over fun d hd => (hplain d hd).1]
    dsimp only
    rw [pointer_flag_plain fun d hd => (hplain d hd).2, if_neg Bool.false_ne_true]
    cases pTS with
    | typedef t => exact absurd hleaf (List.cons_ne_nil _ _)
    | compound kind s => exact absurd hleaf (List.cons_ne_nil _ _)
    | _ => exact ends_ok _
  members := by
    intro n s hmember hunnamed init level string
    rw [initStruct]
    unfold initStructStep
    apply Ends.bind
    · apply Ends.foldlM
      intro sd hsd st
      unfold initDeclaration
      cases hds : sd.declarators with
      | some ds =>
        dsimp only
        apply Ends.foldlM
        intro d hd st
        unfold initMember
        split_ifs
        · exact ends_ok _
        · apply (hmember sd hsd ds hds d hd _ _ _).bind
          exact fun string' _ => ends_ok _
      | none =>
        dsimp only
        split_ifs
        · exact ends_ok _
        · obtain ⟨hfollow, hstruct⟩ := hunnamed sd hsd hds
          apply Ends.bind hfollow
          intro s' hs'
          apply (hstruct s' hs' _ _ _).bind
          exact fun string' _ => ends_ok _
    · exact fun st _ => ends_ok _

end Initializer

section MemberStrings
variable (heap : Heap)

theorem indexDigits_ends (room ix : ℕ) (text : List Char) : Ends (indexDigits room ix text) := by
  induction room generalizing ix text with
  | zero => exact ends_error (by decide)
  | succ room ih =>
    unfold indexDigits
    dsimp only
    split_ifs
    · exact ends_ok _
    · exact ih _ _

theorem elementName_ends (name : Option String) (i : ℕ) : Ends (elementName name i) := by
  cases name with
  | none => exact ends_ok _
  | some name =>
    apply (indexDigits_ends 13 i [']']).bind
    exact fun ixstr _ => ends_ok _

/-- The recursion of `get_ams_type`. -/
def memberStringsRecursion : TypeRecursion heap where
  type n pTS pDecl dimension := ∀ name info, Ends (amsType heap n pTS pDecl dimension name info)
  struct n s := ∀ name info, Ends (amsStruct heap n s name info)
  element := by
    intro n pTS d dimension hdim hnext name info
    rw [amsType]
    unfold amsTypeStep
    rw [dimension_found hdim]
    dsimp only
    unfold amsArray
    split_ifs
    · exact ends_ok _
    · apply Ends.foldlM
      intro i _ info
      apply (elementName_ends name i).bind
      exact fun element _ => hnext _ _
  pointer := by
    intro n pTS d dimension hover hpointer name info
    rw [amsType]
    unfold amsTypeStep
    rw [dimension_over (by rintro d' ⟨⟩; exact hover)]
    dsimp only
    rw [if_pos (show (some d).any Declarator.pointer_flag = true from hpointer)]
    exact ends_ok _
  typedef := by
    intro n t pDecl dimension hplain hnext name info
    rw [amsType]
    unfold amsTypeStep
    rw [dimension_over fun d hd => (hplain d hd).1]
    dsimp only
    rw [pointer_flag_plain fun d hd => (hplain d hd).2, if_neg Bool.false_ne_true]
    exact hnext _ _
  compound := by
    intro n kind s pDecl dimension hplain hnext name info
    rw [amsType]
    unfold amsTypeStep
    rw [dimension_over fun d hd => (hplain d hd).1]
    dsimp only
    rw [pointer_flag_plain fun d hd => (hplain d hd).2, if_neg Bool.false_ne_true]
    exact hnext _ _
  leaf := by
    intro n pTS pDecl dimension hleaf hplain name info
    rw [amsType]
    unfold amsTypeStep
    rw [dimension_over fun d hd => (hplain d hd).1]
    dsimp only
    rw [pointer_flag_plain fun d hd => (hplain d hd).2, if_neg Bool.false_ne_true]
    cases pTS with
    | typedef t => exact absurd hleaf (List.cons_ne_nil _ _)
    | compound kind s => exact absurd hleaf (List.cons_ne_nil _ _)
    | _ => exact ends_ok _
  members := by
    intro n s hmember hunnamed name info
    rw [amsStruct]
    unfold amsStructStep
    apply Ends.foldlM
    intro sd hsd info
    unfold amsDeclaration
    cases hds : sd.declarators with
    | some ds =>
      dsimp only
      apply Ends.foldlM
      intro d hd info
      unfold amsMember
      split_ifs
      · exact ends_ok _
      · exact hmember sd hsd ds hds d hd _ _
    | none =>
      obtain ⟨hfollow, hstruct⟩ := hunnamed sd hsd hds
      apply Ends.bind hfollow
      exact fun s' hs' => hstruct s' hs' _ _

end MemberStrings

/-- No run is out of depth. -/
def fuelEffect : Effect Fault PackInfo where
  returns _ _ := True
  fails _ e _ := e ≠ .outOfFuel
  refl _ := trivial
  trans _ _ := trivial
  absorb _ h := h

section Unpack
variable (perl : Perl)

theorem fuel_indifferent : Indifferent fuelEffect perl where
  pos _ _ := trivial
  parent _ _ := trivial
  sub sub arg := by
    intro s
    apply Effect.At.get_bind
    have hset : fuelEffect.At (set { s with calls := s.calls + 1 } : Pk PUnit) s := trivial
    apply hset.bind
    intro _ t _
    split
    · exact Effect.holds_pure _ t
    · exact fun h => by cases h
  fault _ he _ := he.2
  order _ _ := trivial
  path _ _ := trivial

theorem fuel_divide {α : Type} (s : PackInfo) :
    fuelEffect.At (throw .divideByZero : Pk α) s := fun h => by cases h

theorem fuel_check (size : ℤ) : fuelEffect.Holds (checkBuffer size) := by
  intro s
  obtain ⟨short, pos, hcheck⟩ := checkBuffer_eq size s
  unfold Effect.At
  rw [hcheck]
  trivial

include perl in
theorem fuel_format (format : FormatTag) (size : ℤ) (flexible : Bool) :
    fuelEffect.Holds (unpackFormat format size flexible) := by
  intro s
  apply (fuel_indifferent perl).closed.unpackFormat
  · exact fun _ _ h => by cases h
  · exact fun _ => trivial

include perl in
theorem fuel_unit (d : Declarator) (dimtag : Option DimensionTag) :
    fuelEffect.Holds (liftCall (formatUnit d dimtag)) := by
  unfold formatUnit
  split_ifs
  · exact (fuel_indifferent perl).closed.lift (plain_timesDims _ _)
  · split
    · exact (fuel_indifferent perl).closed.lift plain_ub
    · split_ifs
      · exact fuel_divide
      · exact Effect.holds_pure _
  · exact Effect.holds_pure _

theorem fuel_unpackClosed (cbc : CBC) : UnpackClosed fuelEffect perl cbc fun _ => True where
  toClosed := (fuel_indifferent perl).closed
  check := fuel_check
  fetch _ sign _ _ := (fuel_indifferent perl).closed.fetchInt sign trivial
  fetchFloat _ flags _ := (fuel_indifferent perl).closed.fetchFloatSv flags trivial
  enum := by
    apply (fuel_indifferent perl).unpackEnum fuel_check
    · exact fun _ sign _ _ => (fuel_indifferent perl).closed.fetchInt sign trivial
    · exact fun format size => fuel_format perl format size false
  head d dimension dimtag _ _ _ s := by
    apply (fuel_indifferent perl).closed.head
    · exact fun _ h => by cases h
    · exact fun _ _ _ _ _ _ _ => trivial
  format _ _ format size _ := (fuel_indifferent perl).within _ (fuel_format perl format size false)
  declaratorFormat d format _ _ := by
    apply (fuel_indifferent perl).within
    apply ((fuel_indifferent perl).closed.prepare (fuel_unit perl d _)).bind
    rintro ⟨size, flexible⟩
    exact fuel_format perl format _ flexible

variable (cbc : CBC)

/-- The recursion of `unpack_type`. -/
def unpackRecursion : TypeRecursion cbc.heap where
  type n pTS pDecl dimension :=
    ∀ pBI, fuelEffect.Holds (unpackType perl cbc n pTS pDecl dimension pBI)
  struct n s := ∀ hash, fuelEffect.Holds (unpackStruct perl cbc n s hash)
  element := by
    intro n pTS d dimension hdim hnext pBI
    rw [unpackType]
    apply (fuel_unpackClosed perl cbc).parts.typeStep trivial fun _ _ => trivial
    · rintro d' ⟨⟩ _
      exact hnext none
    · intro hplain
      exact absurd hdim (Nat.not_lt.mpr (hplain d rfl).1)
  pointer := by
    intro n pTS d dimension hover hpointer pBI
    rw [unpackType]
    apply (fuel_unpackClosed perl cbc).parts.typeStep trivial fun _ _ => trivial
    · rintro d' ⟨⟩ hdim
      exact absurd hdim (Nat.not_lt.mpr hover)
    · intro hplain
      rw [(hplain d rfl).2] at hpointer
      cases hpointer
  typedef := by
    intro n t pDecl dimension hplain hnext pBI
    rw [unpackType]
    apply (fuel_unpackClosed perl cbc).parts.typeStep trivial fun _ _ => trivial
    · intro d hd hdim
      exact absurd hdim (Nat.not_lt.mpr (hplain d hd).1)
    · exact fun _ => hnext pBI
  compound := by
    intro n kind s pDecl dimension hplain hnext pBI
    rw [unpackType]
    apply (fuel_unpackClosed perl cbc).parts.typeStep trivial fun _ _ => trivial
    · intro d hd hdim
      exact absurd hdim (Nat.not_lt.mpr (hplain d hd).1)
    · exact fun _ => hnext none
  leaf := by
    intro n pTS pDecl dimension hleaf hplain pBI
    rw [unpackType]
    apply (fuel_unpackClosed perl cbc).parts.typeStep trivial fun _ _ => trivial
    · intro d hd hdim
      exact absurd hdim (Nat.not_lt.mpr (hplain d hd).1)
    · intro _
      cases pTS with
      | typedef t => exact absurd hleaf (List.cons_ne_nil _ _)
      | compound kind s => exact absurd hleaf (List.cons_ne_nil _ _)
      | _ => trivial
  members := by
    intro n s hmember hunnamed hash
    rw [unpackStruct]
    apply (fuel_unpackClosed perl cbc).parts.structStep fun sd hsd ds hds d hd => ⟨trivial, fun pBI _ =>
      hmember sd hsd ds hds d hd pBI⟩
    intro sd hsd hnone
    obtain ⟨hfollow, hstruct⟩ := hunnamed sd hsd hnone
    refine ⟨?_, hstruct⟩
    apply (fuel_indifferent perl).closed.lift
    exact ⟨undivided_followTsptr _ _ _, hfollow⟩

end Unpack

end ConvertBinaryC
