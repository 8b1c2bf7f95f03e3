import ConvertBinaryC.CTLibParserTables
import ConvertBinaryC.CBCRecursion

/-! What the types of a parse contain by value. A tag can be completed while its own members are
being parsed, and nothing looks for a loop then. -/
namespace ConvertBinaryC

open DescentRules Filter Relation

/-- The objects that a semantic value refers to. -/
def Symbol.objects : Symbol → List TypeObject
  | .typeName t => [.typedef t]
  | .typeSpec _ (some spec) => spec.objects
  | .memberDeclarations (some list) => list.flatMap fun sd => sd.type.objects
  | _ => []

/-- The lexer gives typedefs that were made, and a production that touches no table refers to what
the values refer to that it takes off the stack. -/
def ParserState.grounds (st : ParserState) : ParserStep → Bool
  | .shift tok => tok.objects.all fun o => match o with
      | .typedef t => t < st.typedefCount
      | _ => false
  | .other n value => value.objects.all fun o => (st.stack.take n).any fun s => o ∈ s.objects
  | _ => true

def groundedStep (st : ParserState) (step : ParserStep) : Option ParserState :=
  if st.grounds step then parserStep st step else none

/-- The types of the parse, as far as they are parsed. -/
def ParserState.heap (st : ParserState) : Heap where
  structAt s := (st.structs[s]?).getD (structNew "" .struct 0 ⟨"", 0⟩ none)
  enumAt e := ((st.enums[e]?).map EnumObject.spec).getD (enumspecNew "" ⟨"", 0⟩)
  typedefAt := st.typedefAt

def ParserState.Made (st : ParserState) : TypeObject → Prop
  | .compound s => s < st.structs.length
  | .typedef t => t < st.typedefCount
  | .unnamed t => t < st.typedefCount

/-- The compound that a step gives its members after it was only known by its tag. -/
def ParserState.completed (st : ParserState) : ParserStep → Option (ℕ × List StructDeclaration)
  | .reduce .aggregateNameDefinition =>
    match st.isLocal, st.stack with
    | false, .token _ :: .memberDeclarations (some list) :: .token _ :: .name (some tag) ::
        .aggregateKeyContext _ _ :: _ =>
      match st.htStructs tag with
      | some i =>
        if ((st.structs[i]?).bind Struct.declarations).isNone then some (i, list) else none
      | none => none
    | _, _ => none
  | _ => none

/-- The condition on a step: when it completes a compound, that compound is not below any of the
members. -/
def ClosesNoLoop (st : ParserState) (step : ParserStep) : Prop :=
  ∀ i list, st.completed step = some (i, list) →
    ∀ o ∈ declaredParts (some list), ¬ ReflTransGen st.heap.Contains (.compound i) o

/-- All references are to objects that were made, and only these have parts. -/
structure Rooted (st : ParserState) : Prop where
  tags : ∀ n i, st.htStructs n = some i → i < st.structs.length
  values : ∀ s ∈ st.stack, ∀ o ∈ s.objects, st.Made o
  lists : ∀ l ∈ st.typedef_lists, ∀ o ∈ l.type.objects, st.Made o
  parts : ∀ a b, st.heap.Contains b a → st.Made a ∧ st.Made b

/-- Objects without parts get some, which were made before. -/
structure Gains (st st' : ParserState) (grown : TypeObject → Prop) : Prop where
  others : ∀ a, ¬ grown a → st'.heap.parts a = st.heap.parts a
  empty : ∀ a, grown a → st.heap.parts a = []
  made : ∀ a, grown a → ∀ b ∈ st'.heap.parts a, st.Made b

/-- What a step does to the types: it makes new ones, or it completes a compound. -/
inductive StepGains (st : ParserState) (step : ParserStep) (st' : ParserState) : Prop
  | fresh (grown : TypeObject → Prop) (hnone : st.completed step = none)
      (hgains : Gains st st' grown) (hfresh : ∀ x, grown x → ¬ st.Made x)
  | completes (i : ℕ) (list : List StructDeclaration) (hcompleted : st.completed step = some (i, list))
      (hgains : Gains st st' (· = .compound i))
      (hparts : st'.heap.parts (.compound i) = declaredParts (some list))

section Containment
variable {st st' : ParserState} {step : ParserStep}

theorem Gains.keeps {grown : TypeObject → Prop} (h : Gains st st' grown) {a b : TypeObject}
    (hb : st.heap.Contains b a) : st'.heap.Contains b a := by
  unfold Heap.Contains at hb ⊢
  by_cases hgrown : grown a
  · rw [h.empty a hgrown] at hb
    exact absurd hb List.not_mem_nil
  · rwa [h.others a hgrown]

theorem StepGains.keeps (h : StepGains st step st') {a b : TypeObject}
    (hb : st.heap.Contains b a) : st'.heap.Contains b a := by
  cases h with
  | fresh grown _ hgains _ => exact hgains.keeps hb
  | completes i list _ hgains _ => exact hgains.keeps hb

/-- What is below an object that was made was made. -/
theorem Rooted.below (h : Rooted st) {x b : TypeObject} (hb : st.Made b)
    (hx : ReflTransGen st.heap.Contains x b) : st.Made x := by
  induction hx using ReflTransGen.head_induction_on with
  | refl => exact hb
  | head hstep _ _ => exact (h.parts _ _ hstep).2

/-- Descents still end after a good step. -/
theorem StepGains.wellFounded (h : StepGains st step st') (hroot : Rooted st)
    (hgood : ClosesNoLoop st step) (hwf : WellFounded st.heap.Contains) :
    WellFounded st'.heap.Contains := by
  cases h with
  | fresh grown _ hgains hfresh =>
    apply wellFounded_extend hwf
    · intro a b ha hb
      rwa [Heap.Contains, ← hgains.others a ha]
    · intro a b x ha hb hx hbelow
      have hmade : st.Made b := hgains.made a ha b hb
      exact hfresh x hx (hroot.below hmade hbelow)
  | completes i list hcompleted hgains hparts =>
    apply wellFounded_extend hwf
    · intro a b ha hb
      rwa [Heap.Contains, ← hgains.others a ha]
    · rintro a b x rfl hb rfl hbelow
      have hmem : b ∈ declaredParts (some list) := hparts ▸ hb
      exact hgood i list hcompleted b hmem hbelow

/-- A bad step closes a loop. -/
theorem StepGains.loop (h : StepGains st step st') (hbad : ¬ ClosesNoLoop st step) :
    ∃ o, TransGen st'.heap.Contains o o := by
  unfold ClosesNoLoop at hbad
  push Not at hbad
  obtain ⟨i, list, hcompleted, o, ho, hbelow⟩ := hbad
  cases h with
  | fresh grown hnone _ _ =>
    rw [hnone] at hcompleted
    cases hcompleted
  | completes i' list' hcompleted' hgains hparts =>
    rw [hcompleted'] at hcompleted
    cases hcompleted
    have hbelow' : ReflTransGen st'.heap.Contains (.compound i) o :=
      ReflTransGen.mono (fun _ _ hb => hgains.keeps hb) _ _ hbelow
    have hlast : st'.heap.Contains o (.compound i) := by rwa [Heap.Contains, hparts]
    exact ⟨.compound i, TransGen.tail' hbelow' hlast⟩

theorem TypeSpec.made_unnamed {spec : TypeSpec} (h : ∀ o ∈ spec.objects, st.Made o) :
    ∀ o ∈ spec.unnamedObjects, st.Made o := by
  cases spec with
  | typedef t =>
    intro o ho
    rw [List.mem_singleton.mp ho]
    exact h (.typedef t) List.mem_cons_self
  | compound kind s => exact h
  | basic tflags => exact h
  | enum pES => exact h

theorem StructDeclaration.made_parts {sd : StructDeclaration}
    (h : ∀ o ∈ sd.type.objects, st.Made o) : ∀ o ∈ sd.parts, st.Made o := by
  unfold StructDeclaration.parts
  cases sd.declarators with
  | none => exact TypeSpec.made_unnamed h
  | some ds =>
    dsimp only
    split_ifs
    · exact h
    · exact fun o ho => absurd ho List.not_mem_nil

theorem made_declaredParts {list : List StructDeclaration}
    (h : ∀ o ∈ list.flatMap fun sd => sd.type.objects, st.Made o) :
    ∀ o ∈ declaredParts (some list), st.Made o := by
  intro o ho
  obtain ⟨sd, hsd, ho⟩ := List.mem_flatMap.mp ho
  apply StructDeclaration.made_parts _ o ho
  exact fun o' ho' => h o' (List.mem_flatMap.mpr ⟨sd, hsd, ho'⟩)

theorem Typedef.made_parts {td : Typedef} (h : ∀ o ∈ td.type.objects, st.Made o) :
    ∀ o ∈ td.parts, st.Made o := by
  unfold Typedef.parts
  split_ifs
  · exact fun o ho => absurd ho List.not_mem_nil
  · exact h

theorem Typedef.made_unnamedParts {td : Typedef} (h : ∀ o ∈ td.type.objects, st.Made o) :
    ∀ o ∈ td.unnamedParts, st.Made o := by
  unfold Typedef.unnamedParts
  cases htype : td.type with
  | typedef t =>
    dsimp only
    rw [htype] at h
    split_ifs
    · intro o ho
      rw [List.mem_singleton.mp ho]
      exact h (.typedef t) List.mem_cons_self
    · exact fun o ho => absurd ho List.not_mem_nil
  | _ =>
    rw [htype] at h
    exact h

/-! A step either makes no type, or one compound, or one typedef, or it completes a compound. -/

theorem parts_of_eq (hstructs : st'.structs = st.structs) (hat : st'.typedefAt = st.typedefAt) :
    st'.heap.parts = st.heap.parts := by
  funext a
  cases a with
  | compound s => simp only [Heap.parts, ParserState.heap, hstructs]
  | typedef t => simp only [Heap.parts, ParserState.heap, hat]
  | unnamed t => simp only [Heap.parts, ParserState.heap, hat]

theorem Gains.nothing (h : st'.heap.parts = st.heap.parts) : Gains st st' fun _ => False where
  others a _ := by rw [h]
  empty _ ha := ha.elim
  made _ ha := ha.elim

theorem StepGains.nothing (hnone : st.completed step = none)
    (h : st'.heap.parts = st.heap.parts) : StepGains st step st' :=
  .fresh _ hnone (Gains.nothing h) fun _ hx => hx.elim

theorem made_of_le (hs : st.structs.length ≤ st'.structs.length)
    (ht : st.typedefCount ≤ st'.typedefCount) {o : TypeObject} (h : st.Made o) : st'.Made o := by
  cases o with
  | compound s => exact Nat.lt_of_lt_of_le h hs
  | typedef t => exact Nat.lt_of_lt_of_le h ht
  | unnamed t => exact Nat.lt_of_lt_of_le h ht

/-- The parts after objects that were made then got theirs. -/
theorem Gains.rooted {grown : TypeObject → Prop} (h : Gains st st' grown) (hroot : Rooted st)
    (hmade : ∀ o, st.Made o → st'.Made o) (hgrown : ∀ a, grown a → st'.Made a) {a b : TypeObject}
    (hb : st'.heap.Contains b a) : st'.Made a ∧ st'.Made b := by
  by_cases ha : grown a
  · exact ⟨hgrown a ha, hmade b (h.made a ha b hb)⟩
  · rw [Heap.Contains, h.others a ha] at hb
    obtain ⟨ha, hb⟩ := hroot.parts a b hb
    exact ⟨hmade a ha, hmade b hb⟩

/-- A step that changes the types at most by completing one. -/
theorem Rooted.keep {grown : TypeObject → Prop} (h : Rooted st) (hgains : Gains st st' grown)
    (hgrown : ∀ a, grown a → st'.Made a) (hlength : st'.structs.length = st.structs.length)
    (hcount : st'.typedefCount = st.typedefCount) (htags : st'.htStructs = st.htStructs)
    (hlists : st'.typedef_lists = st.typedef_lists)
    (hvalues : ∀ s ∈ st'.stack, ∀ o ∈ s.objects, st.Made o) : Rooted st' := by
  have hmade (o : TypeObject) (ho : st.Made o) : st'.Made o := made_of_le hlength.ge hcount.ge ho
  refine ⟨?_, fun s hs o ho => hmade o (hvalues s hs o ho), ?_, ?_⟩
  · intro n i hi
    rw [hlength]
    exact h.tags n i (htags ▸ hi)
  · intro l hl o ho
    exact hmade o (h.lists l (hlists ▸ hl) o ho)
  · exact fun a b hb => hgains.rooted h hmade hgrown hb

/-- The values on the stack after a step. -/
theorem Rooted.pushed (h : Rooted st) {top rest : List Symbol} {value : Symbol}
    (hstack : st.stack = top ++ rest) (hvalue : ∀ o ∈ value.objects, st'.Made o)
    (hmade : ∀ o, st.Made o → st'.Made o) : ∀ s ∈ value :: rest, ∀ o ∈ s.objects, st'.Made o := by
  intro s hs o ho
  rcases List.mem_cons.mp hs with rfl | hs
  · exact hvalue o ho
  · apply hmade
    apply h.values s _ o ho
    rw [hstack]
    exact List.mem_append_right _ hs

section AddStruct
variable {s : Struct} (hstructs : st'.structs = st.structs ++ [s])
include hstructs

theorem parts_addStruct (hat : st'.typedefAt = st.typedefAt) {a : TypeObject}
    (ha : a ≠ .compound st.structs.length) : st'.heap.parts a = st.heap.parts a := by
  cases a with
  | compound k =>
    have hk : k ≠ st.structs.length := fun h => ha (congrArg _ h)
    have hget : st'.structs[k]? = st.structs[k]? := by
      rw [hstructs, List.getElem?_append]
      split_ifs with hlt
      · rfl
      · rw [List.getElem?_eq_none (by rw [List.length_singleton]; omega),
          List.getElem?_eq_none (by omega)]
    simp only [Heap.parts, ParserState.heap, hget]
  | typedef t => simp only [Heap.parts, ParserState.heap, hat]
  | unnamed t => simp only [Heap.parts, ParserState.heap, hat]

theorem parts_newStruct :
    st'.heap.parts (.compound st.structs.length) = declaredParts s.declarations := by
  simp [Heap.parts, ParserState.heap, hstructs]

omit hstructs in
theorem parts_beyond {k : ℕ} (hk : st.structs.length ≤ k) : st.heap.parts (.compound k) = [] := by
  simp only [Heap.parts, ParserState.heap, List.getElem?_eq_none hk]
  rfl

theorem Gains.addStruct (hat : st'.typedefAt = st.typedefAt)
    (hs : ∀ o ∈ declaredParts s.declarations, st.Made o) :
    Gains st st' (· = .compound st.structs.length) where
  others _ ha := parts_addStruct hstructs hat ha
  empty a ha := by
    rw [ha]
    exact parts_beyond le_rfl
  made a ha b hb := by
    rw [ha, parts_newStruct hstructs] at hb
    exact hs b hb

theorem Rooted.addStruct (h : Rooted st) (hat : st'.typedefAt = st.typedefAt)
    (hcount : st'.typedefCount = st.typedefCount)
    (hs : ∀ o ∈ declaredParts s.declarations, st.Made o)
    (htags : ∀ n i, st'.htStructs n = some i → st.htStructs n = some i ∨ i = st.structs.length)
    (hlists : st'.typedef_lists = st.typedef_lists)
    (hvalues : ∀ s ∈ st'.stack, ∀ o ∈ s.objects, st'.Made o) : Rooted st' := by
  have hlength : st'.structs.length = st.structs.length + 1 := by
    rw [hstructs, List.length_append, List.length_singleton]
  have hmade (o : TypeObject) (ho : st.Made o) : st'.Made o :=
    made_of_le (by omega) hcount.ge ho
  refine ⟨?_, hvalues, ?_, ?_⟩
  · intro n i hi
    rcases htags n i hi with hi | rfl
    · have hlt := h.tags n i hi
      omega
    · omega
  · intro l hl o ho
    exact hmade o (h.lists l (hlists ▸ hl) o ho)
  · intro a b hb
    apply (Gains.addStruct hstructs hat hs).rooted h hmade _ hb
    rintro a rfl
    show st.structs.length < st'.structs.length
    omega

theorem StepGains.addStruct (hnone : st.completed step = none) (hat : st'.typedefAt = st.typedefAt)
    (hs : ∀ o ∈ declaredParts s.declarations, st.Made o) : StepGains st step st' := by
  apply StepGains.fresh _ hnone (Gains.addStruct hstructs hat hs)
  rintro x rfl hx
  exact lt_irrefl _ hx

end AddStruct

section CompleteStruct
variable {i : ℕ} {f : Struct → Struct} {old : Struct} (hstructs : st'.structs = st.structs.modify i f)
include hstructs

theorem parts_modify (hat : st'.typedefAt = st.typedefAt) {a : TypeObject} (ha : a ≠ .compound i) :
    st'.heap.parts a = st.heap.parts a := by
  cases a with
  | compound k =>
    have hk : i ≠ k := fun h => ha (congrArg _ h.symm)
    have hget : st'.structs[k]? = st.structs[k]? := by
      rw [hstructs, List.getElem?_modify]
      simp [hk]
    simp only [Heap.parts, ParserState.heap, hget]
  | typedef t => simp only [Heap.parts, ParserState.heap, hat]
  | unnamed t => simp only [Heap.parts, ParserState.heap, hat]

theorem parts_modified (hold : st.structs[i]? = some old) :
    st'.heap.parts (.compound i) = declaredParts (f old).declarations := by
  have hget : st'.structs[i]? = some (f old) := by
    rw [hstructs, List.getElem?_modify, hold]
    simp
  simp only [Heap.parts, ParserState.heap, hget]
  rfl

omit hstructs in
theorem parts_found (hold : st.structs[i]? = some old) :
    st.heap.parts (.compound i) = declaredParts old.declarations := by
  simp only [Heap.parts, ParserState.heap, hold]
  rfl

/-- The members of a compound that has some are left alone. -/
theorem parts_unmodified (hat : st'.typedefAt = st.typedefAt) (hold : st.structs[i]? = some old)
    (hsame : (f old).declarations = old.declarations) : st'.heap.parts = st.heap.parts := by
  funext a
  by_cases ha : a = .compound i
  · rw [ha, parts_modified hstructs hold, parts_found hold, hsame]
  · exact parts_modify hstructs hat ha

theorem Gains.complete (hat : st'.typedefAt = st.typedefAt) (hold : st.structs[i]? = some old)
    (hnone : old.declarations = none) (hmade : ∀ o ∈ declaredParts (f old).declarations, st.Made o) :
    Gains st st' (· = .compound i) where
  others _ ha := parts_modify hstructs hat ha
  empty a ha := by
    rw [ha, parts_found hold, hnone]
    rfl
  made a ha b hb := by
    rw [ha, parts_modified hstructs hold] at hb
    exact hmade b hb

end CompleteStruct

section MakeTypedef
variable {td : Typedef} (hat : st'.typedefAt = Function.update st.typedefAt st.typedefCount td)
  (hcount : st'.typedefCount = st.typedefCount + 1) (hstructs : st'.structs = st.structs)
  (htype : ∀ o ∈ td.type.objects, st.Made o)
include hat hcount hstructs htype

omit hcount in
theorem Gains.makeTypedef (h : Rooted st) :
    Gains st st' fun a => a = .typedef st.typedefCount ∨ a = .unnamed st.typedefCount where
  others a ha := by
    cases a with
    | compound s => simp only [Heap.parts, ParserState.heap, hstructs]
    | typedef t =>
      have ht : t ≠ st.typedefCount := fun h => ha (.inl (congrArg _ h))
      simp only [Heap.parts, ParserState.heap, hat, Function.update_of_ne ht]
    | unnamed t =>
      have ht : t ≠ st.typedefCount := fun h => ha (.inr (congrArg _ h))
      simp only [Heap.parts, ParserState.heap, hat, Function.update_of_ne ht]
  empty a ha := by
    apply List.eq_nil_iff_forall_not_mem.mpr
    intro b hb
    have hmade := (h.parts a b hb).1
    rcases ha with rfl | rfl
    · exact lt_irrefl _ hmade
    · exact lt_irrefl _ hmade
  made a ha b hb := by
    rcases ha with rfl | rfl
    · simp only [Heap.parts, ParserState.heap, hat, Function.update_self] at hb
      exact Typedef.made_parts htype b hb
    · simp only [Heap.parts, ParserState.heap, hat, Function.update_self] at hb
      exact Typedef.made_unnamedParts htype b hb

theorem Rooted.makeTypedef (h : Rooted st) (htags : st'.htStructs = st.htStructs)
    (hlists : ∀ l ∈ st'.typedef_lists, ∀ o ∈ l.type.objects, st.Made o)
    (hvalues : ∀ s ∈ st'.stack, ∀ o ∈ s.objects, st.Made o) : Rooted st' := by
  have hmade (o : TypeObject) (ho : st.Made o) : st'.Made o :=
    made_of_le (by rw [hstructs]) (by omega) ho
  have hnew : st.typedefCount < st'.typedefCount := by omega
  refine ⟨?_, fun s hs o ho => hmade o (hvalues s hs o ho),
    fun l hl o ho => hmade o (hlists l hl o ho), ?_⟩
  · intro n i hi
    rw [hstructs]
    exact h.tags n i (htags ▸ hi)
  · intro a b hb
    apply (Gains.makeTypedef hat hstructs htype h).rooted h hmade _ hb
    rintro a (rfl | rfl)
    · exact hnew
    · exact hnew

omit hcount in
theorem StepGains.makeTypedef (h : Rooted st) (hnone : st.completed step = none) :
    StepGains st step st' := by
  apply StepGains.fresh _ hnone (Gains.makeTypedef hat hstructs htype h)
  rintro x (rfl | rfl) hx
  · exact lt_irrefl _ hx
  · exact lt_irrefl _ hx

end MakeTypedef

/-- The references stay sound, and the types change as they may. -/
structure SoundStep (st : ParserState) (step : ParserStep) (st' : ParserState) : Prop where
  rooted : Rooted st'
  gains : StepGains st step st'

/-- The types are left alone, and the new value refers to nothing. -/
structure KeepsTypes (st : ParserState) (rest : List Symbol) (st' : ParserState) : Prop where
  structs : st'.structs = st.structs
  typedefAt : st'.typedefAt = st.typedefAt
  typedefCount : st'.typedefCount = st.typedefCount
  htStructs : st'.htStructs = st.htStructs
  typedef_lists : st'.typedef_lists = st.typedef_lists
  stack : ∃ value, value.objects = [] ∧ st'.stack = value :: rest

theorem Rooted.unchanged (h : Rooted st) (hnone : st.completed step = none)
    (hstructs : st'.structs = st.structs) (hat : st'.typedefAt = st.typedefAt)
    (hcount : st'.typedefCount = st.typedefCount) (htags : st'.htStructs = st.htStructs)
    (hlists : st'.typedef_lists = st.typedef_lists)
    (hvalues : ∀ s ∈ st'.stack, ∀ o ∈ s.objects, st.Made o) : SoundStep st step st' where
  rooted := h.keep (Gains.nothing (parts_of_eq hstructs hat)) (fun _ ha => ha.elim)
    (congrArg _ hstructs) hcount htags hlists hvalues
  gains := .nothing hnone (parts_of_eq hstructs hat)

theorem KeepsTypes.sound {top rest : List Symbol} (hkeeps : KeepsTypes st rest st')
    (h : Rooted st) (hstack : st.stack = top ++ rest) (hnone : st.completed step = none) :
    SoundStep st step st' := by
  obtain ⟨value, hvalue, hpushed⟩ := hkeeps.stack
  apply h.unchanged hnone hkeeps.structs hkeeps.typedefAt hkeeps.typedefCount hkeeps.htStructs
    hkeeps.typedef_lists
  rw [hpushed]
  apply h.pushed hstack _ fun _ => id
  rw [hvalue]
  exact fun o ho => absurd ho List.not_mem_nil

section Reductions
variable {rest : List Symbol} {node : Option String} {ctx : ContextInfo}

theorem reduceEnumerator_keepsTypes {value : Value}
    (h : reduceEnumerator st node value rest = some st') : KeepsTypes st rest st' := by
  unfold reduceEnumerator at h
  split at h
  · cases h
    exact ⟨rfl, rfl, rfl, rfl, rfl, _, rfl, rfl⟩
  · cases h
    exact ⟨rfl, rfl, rfl, rfl, rfl, _, rfl, rfl⟩
  · cases h

theorem reduceEnumeratorList_keepsTypes {pEnum : Option ℕ}
    (h : reduceEnumeratorList st pEnum rest = some st') : KeepsTypes st rest st' := by
  unfold reduceEnumeratorList at h
  split at h
  · cases h
    exact ⟨rfl, rfl, rfl, rfl, rfl, _, rfl, rfl⟩
  · cases h
    exact ⟨rfl, rfl, rfl, rfl, rfl, _, rfl, rfl⟩
  · cases h

theorem reduceEnumeratorListMore_keepsTypes {list : Option (List ℕ)} {pEnum : Option ℕ}
    (h : reduceEnumeratorListMore st list pEnum rest = some st') : KeepsTypes st rest st' := by
  unfold reduceEnumeratorListMore at h
  split at h
  · cases h
    exact ⟨rfl, rfl, rfl, rfl, rfl, _, rfl, rfl⟩
  · cases h
    exact ⟨rfl, rfl, rfl, rfl, rfl, _, rfl, rfl⟩
  · cases h

theorem reduceEnumNameUnnamed_keepsTypes {list : Option (List ℕ)}
    (h : reduceEnumNameUnnamed st ctx list rest = some st') : KeepsTypes st rest st' := by
  unfold reduceEnumNameUnnamed at h
  split_ifs at h
  · cases h
    exact ⟨rfl, rfl, rfl, rfl, rfl, _, rfl, rfl⟩
  · split at h
    · cases h
      exact ⟨rfl, rfl, rfl, rfl, rfl, _, rfl, rfl⟩
    · cases h

theorem reduceEnumNameDefinition_keepsTypes {list : Option (List ℕ)}
    (h : reduceEnumNameDefinition st ctx node list rest = some st') : KeepsTypes st rest st' := by
  unfold reduceEnumNameDefinition at h
  split at h
  · cases h
    exact ⟨rfl, rfl, rfl, rfl, rfl, _, rfl, rfl⟩
  · split at h
    · cases h
      exact ⟨rfl, rfl, rfl, rfl, rfl, _, rfl, rfl⟩
    · split at h
      · cases h
        exact ⟨rfl, rfl, rfl, rfl, rfl, _, rfl, rfl⟩
      · cases h
        exact ⟨rfl, rfl, rfl, rfl, rfl, _, rfl, rfl⟩
  · cases h

theorem reduceEnumNameReference_keepsTypes
    (h : reduceEnumNameReference st ctx node rest = some st') : KeepsTypes st rest st' := by
  unfold reduceEnumNameReference at h
  split at h
  · cases h
    exact ⟨rfl, rfl, rfl, rfl, rfl, _, rfl, rfl⟩
  · split at h
    · cases h
      exact ⟨rfl, rfl, rfl, rfl, rfl, _, rfl, rfl⟩
    · cases h
      exact ⟨rfl, rfl, rfl, rfl, rfl, _, rfl, rfl⟩
  · cases h

variable {top : List Symbol} (hroot : Rooted st) (hstack : st.stack = top ++ rest)
  (hnone : st.completed step = none) {kind : CompoundKind}
include hroot hstack hnone

/-- A new compound, with what its name refers to. -/
theorem Rooted.newStruct {s : Struct} {htStructs : String → Option ℕ}
    (hs : ∀ o ∈ declaredParts s.declarations, st.Made o)
    (htags : ∀ n i, htStructs n = some i → st.htStructs n = some i ∨ i = st.structs.length) :
    SoundStep st step (({ st with structs := st.structs ++ [s], htStructs := htStructs } :
      ParserState).push rest (.typeSpec false (some (.compound kind st.structs.length)))) := by
  constructor
  · refine hroot.addStruct (s := s) rfl rfl rfl hs htags rfl ?_
    apply hroot.pushed hstack
    · intro o ho
      rw [List.mem_singleton.mp ho]
      show st.structs.length < (st.structs ++ [s]).length
      rw [List.length_append, List.length_singleton]
      exact Nat.lt_succ_self _
    · have hle : st.structs.length ≤ (st.structs ++ [s]).length := by
        rw [List.length_append]
        exact Nat.le_add_right _ _
      intro o ho
      cases o with
      | compound k => exact Nat.lt_of_lt_of_le ho hle
      | typedef t => exact ho
      | unnamed t => exact ho
  · exact StepGains.addStruct (s := s) rfl hnone rfl hs

theorem Rooted.reduceAggregateNameUnnamed {list : Option (List StructDeclaration)}
    (hlist : ∀ o ∈ (Symbol.memberDeclarations list).objects, st.Made o) :
    SoundStep st step (reduceAggregateNameUnnamed st kind ctx list rest) := by
  unfold ConvertBinaryC.reduceAggregateNameUnnamed
  split_ifs
  · have hkeeps : KeepsTypes st rest (st.push rest (.typeSpec false none)) :=
      ⟨rfl, rfl, rfl, rfl, rfl, _, rfl, rfl⟩
    exact hkeeps.sound hroot hstack hnone
  · apply hroot.newStruct hstack hnone
    · cases list with
      | none => exact fun o ho => absurd ho List.not_mem_nil
      | some list => exact made_declaredParts hlist
    · exact fun n i h => .inl h

theorem Rooted.reduceAggregateNameReference
    (h : reduceAggregateNameReference st kind ctx node rest = some st') : SoundStep st step st' := by
  unfold ConvertBinaryC.reduceAggregateNameReference at h
  split at h
  · cases h
    have hkeeps : KeepsTypes st rest (st.push rest (.typeSpec false none)) :=
      ⟨rfl, rfl, rfl, rfl, rfl, _, rfl, rfl⟩
    exact hkeeps.sound hroot hstack hnone
  · split at h
    · cases h
      apply hroot.newStruct hstack hnone
      · exact fun o ho => absurd ho List.not_mem_nil
      · intro n i hi
        rcases Ownership.htStore_some hi with hi | ⟨_, rfl⟩
        · exact .inl hi
        · exact .inr rfl
    · rename_i i hi
      cases h
      refine hroot.unchanged hnone rfl rfl rfl rfl rfl ?_
      apply hroot.pushed hstack _ fun _ => id
      intro o ho
      rw [List.mem_singleton.mp ho]
      exact hroot.tags _ i hi
  · cases h

/-- A typedef of a list whose type is known. -/
theorem Rooted.newTypedef {spec : TypeSpec} {pDecl : Declarator} {lists : List TypedefList} {l : ℕ}
    (hst' : st' = (({ st with typedef_lists := lists } : ParserState).makeTypedef l spec
      pDecl).push rest (.declaringList (some l)))
    (hspec : ∀ o ∈ spec.objects, st.Made o)
    (hlists : ∀ list ∈ lists, ∀ o ∈ list.type.objects, st.Made o) : SoundStep st step st' := by
  have hat : st'.typedefAt = Function.update st.typedefAt st.typedefCount ⟨spec, pDecl⟩ := by
    rw [hst']
    rfl
  have hcount : st'.typedefCount = st.typedefCount + 1 := by
    rw [hst']
    rfl
  have hstructs : st'.structs = st.structs := by
    rw [hst']
    rfl
  have hmodify : st'.typedef_lists =
      lists.modify l fun list => { list with typedefs := list.typedefs ++ [st.typedefCount] } := by
    rw [hst']
    rfl
  constructor
  · apply hroot.makeTypedef hat hcount hstructs hspec
    · rw [hst']
      rfl
    · intro list hlist
      rw [hmodify] at hlist
      obtain ⟨k, hk, rfl⟩ := List.mem_iff_getElem.mp hlist
      rw [List.length_modify] at hk
      have hold := hlists _ (List.getElem_mem hk)
      rw [List.getElem_modify]
      split_ifs
      · exact hold
      · exact hold
    · rw [hst']
      apply hroot.pushed hstack _ fun _ => id
      exact fun o ho => absurd ho List.not_mem_nil
  · exact StepGains.makeTypedef hat hstructs hspec hroot hnone

theorem Rooted.reduceDeclaringList {isTypedef : Bool} {spec : Option TypeSpec}
    {pDecl : Option Declarator} (hspec : ∀ o ∈ (Symbol.typeSpec isTypedef spec).objects, st.Made o)
    (h : reduceDeclaringList st isTypedef spec pDecl rest = some st') : SoundStep st step st' := by
  have hkeeps : KeepsTypes st rest (st.push rest (.declaringList none)) :=
    ⟨rfl, rfl, rfl, rfl, rfl, _, rfl, rfl⟩
  unfold ConvertBinaryC.reduceDeclaringList at h
  split at h
  · cases h
    exact hkeeps.sound hroot hstack hnone
  · cases h
    exact hkeeps.sound hroot hstack hnone
  · split at h
    · cases h
      apply hroot.newTypedef hstack hnone rfl hspec
      intro list hlist
      rcases List.mem_append.mp hlist with hlist | hlist
      · exact hroot.lists list hlist
      · rw [List.mem_singleton.mp hlist]
        exact hspec
    · cases h

theorem Rooted.reduceDeclaringListMore {pTypedefList : Option ℕ} {pDecl : Option Declarator}
    (h : reduceDeclaringListMore st pTypedefList pDecl rest = some st') : SoundStep st step st' := by
  unfold ConvertBinaryC.reduceDeclaringListMore at h
  split at h
  · cases h
    have hkeeps : KeepsTypes st rest (st.push rest (.declaringList none)) :=
      ⟨rfl, rfl, rfl, rfl, rfl, _, rfl, rfl⟩
    exact hkeeps.sound hroot hstack hnone
  · split at h
    · rename_i list decl hlist
      cases h
      apply hroot.newTypedef hstack hnone rfl
      · exact hroot.lists list (List.mem_of_getElem? hlist)
      · exact hroot.lists
    · cases h

omit hnone in
theorem Rooted.completeStruct {i : ℕ} {f : Struct → Struct} (hi : i < st.structs.length)
    (hst' : st' = ({ st with structs := st.structs.modify i f } : ParserState).push rest
      (.typeSpec false (some (.compound kind i)))) {grown : TypeObject → Prop}
    (hgains : Gains st st' grown) (hgrown : ∀ a, grown a → st.Made a) : Rooted st' := by
  have hlength : st'.structs.length = st.structs.length := by
    rw [hst']
    exact List.length_modify ..
  apply hroot.keep hgains
  · exact fun a ha => made_of_le hlength.ge (by rw [hst']; rfl) (hgrown a ha)
  · exact hlength
  · rw [hst']
    rfl
  · rw [hst']
    rfl
  · rw [hst']
    rfl
  · rw [hst']
    apply hroot.pushed hstack _ fun _ => id
    intro o ho
    rw [List.mem_singleton.mp ho]
    exact hi

end Reductions

section Definition
variable {rest : List Symbol} {kind : CompoundKind} {ctx : ContextInfo} {node : Option String}
  {list : Option (List StructDeclaration)} {brace brace' : String}

/-- The reduction that can complete a compound. -/
theorem Rooted.reduceAggregateNameDefinition (hroot : Rooted st)
    (hstack : st.stack = .token brace :: .memberDeclarations list :: .token brace' :: .name node ::
      .aggregateKeyContext kind ctx :: rest)
    (h : reduceAggregateNameDefinition st kind ctx node list rest = some st') :
    SoundStep st (.reduce .aggregateNameDefinition) st' := by
  have hmade : ∀ o ∈ (Symbol.memberDeclarations list).objects, st.Made o := by
    apply hroot.values
    rw [hstack]
    exact List.mem_cons_of_mem _ List.mem_cons_self
  have happend : st.stack = [.token brace, .memberDeclarations list, .token brace', .name node,
      .aggregateKeyContext kind ctx] ++ rest := hstack
  have hparts : ∀ o ∈ declaredParts list, st.Made o := by
    cases list with
    | none => exact fun o ho => absurd ho List.not_mem_nil
    | some list => exact made_declaredParts hmade
  unfold ConvertBinaryC.reduceAggregateNameDefinition at h
  split at h
  · rename_i hlocal
    cases h
    have hkeeps : KeepsTypes st rest (st.push rest (.typeSpec false none)) :=
      ⟨rfl, rfl, rfl, rfl, rfl, _, rfl, rfl⟩
    apply hkeeps.sound hroot happend
    simp only [ParserState.completed, hlocal]
  · rename_i tag hlocal
    split at h
    · rename_i hnew
      cases h
      apply hroot.newStruct happend
      · cases list with
        | none => simp only [ParserState.completed, hlocal, hstack]
        | some list => simp only [ParserState.completed, hlocal, hstack, hnew]
      · exact hparts
      · intro n i hi
        rcases Ownership.htStore_some hi with hi | ⟨_, rfl⟩
        · exact .inl hi
        · exact .inr rfl
    · rename_i i hi
      have hlt : i < st.structs.length := hroot.tags tag i hi
      have hold : st.structs[i]? = some st.structs[i] := List.getElem?_eq_getElem hlt
      have hst' := (Option.some.inj h).symm
      have hstructs : st'.structs = st.structs.modify i fun s =>
          if s.declarations.isNone then
            { s with context := ctx, declarations := list, pack := st.pack }
          else s := by
        rw [hst']
        rfl
      have hat : st'.typedefAt = st.typedefAt := by
        rw [hst']
        rfl
      -- nothing changes unless there were no members and there are some now
      by_cases hcompletes : st.structs[i].declarations = none ∧ list ≠ none
      · obtain ⟨hnone, hsome⟩ := hcompletes
        obtain ⟨l, rfl⟩ := Option.ne_none_iff_exists'.mp hsome
        have hgains : Gains st st' (· = .compound i) := by
          apply Gains.complete hstructs hat hold hnone
          rw [hnone]
          exact hparts
        constructor
        · exact hroot.completeStruct happend hlt hst' hgains (by rintro a rfl; exact hlt)
        · apply StepGains.completes i l _ hgains
          · rw [parts_modified hstructs hold, hnone]
            rfl
          · simp only [ParserState.completed, hlocal, hstack, hi, hold, Option.bind_some, hnone,
              Option.isNone_none, if_true]
      · have hsame : st'.heap.parts = st.heap.parts := by
          apply parts_unmodified hstructs hat hold
          cases hd : st.structs[i].declarations with
          | none =>
            have hlist : list = none := by
              by_contra hne
              exact hcompletes ⟨hd, hne⟩
            simp only [Option.isNone_none, if_true, hlist]
          | some d => simp only [hd, Option.isNone_some, Bool.false_eq_true, if_false]
        constructor
        · exact hroot.completeStruct happend hlt hst' (Gains.nothing hsame) fun _ ha => ha.elim
        · apply StepGains.nothing _ hsame
          cases list with
          | none => simp only [ParserState.completed, hlocal, hstack]
          | some l =>
            have hd : st.structs[i].declarations ≠ none :=
              fun hnone => hcompletes ⟨hnone, Option.some_ne_none _⟩
            obtain ⟨d, hd⟩ := Option.ne_none_iff_exists'.mp hd
            simp only [ParserState.completed, hlocal, hstack, hi, hold, Option.bind_some, hd,
              Option.isNone_some, Bool.false_eq_true, if_false]
  · cases h

end Definition

theorem Rooted.reduce (hroot : Rooted st) {p : Production} (h : reduce st p = some st') :
    SoundStep st (.reduce p) st' := by
  unfold ConvertBinaryC.reduce at h
  cases p with
  | enumerator =>
    dsimp only at h
    split at h
    · next node rest hstack =>
      have happend : st.stack = [.name node] ++ rest := hstack
      exact (reduceEnumerator_keepsTypes h).sound hroot happend rfl
    · cases h
  | enumeratorWithValue =>
    dsimp only at h
    split at h
    · next value a node rest hstack =>
      have happend : st.stack = [.constant value, .token a, .name node] ++ rest := hstack
      exact (reduceEnumerator_keepsTypes h).sound hroot happend rfl
    · cases h
  | enumeratorList =>
    dsimp only at h
    split at h
    · next pEnum rest hstack =>
      have happend : st.stack = [.enumerator pEnum] ++ rest := hstack
      exact (reduceEnumeratorList_keepsTypes h).sound hroot happend rfl
    · cases h
  | enumeratorListMore =>
    dsimp only at h
    split at h
    · next pEnum a list rest hstack =>
      have happend : st.stack = [.enumerator pEnum, .token a, .enumeratorList list] ++ rest := hstack
      exact (reduceEnumeratorListMore_keepsTypes h).sound hroot happend rfl
    · cases h
  | enumNameUnnamed =>
    dsimp only at h
    split at h
    · next a list b ctx rest hstack =>
      have happend : st.stack = [.token a, .other, .enumeratorList list, .token b,
        .enumKeyContext ctx] ++ rest := hstack
      exact (reduceEnumNameUnnamed_keepsTypes h).sound hroot happend rfl
    · cases h
  | enumNameDefinition =>
    dsimp only at h
    split at h
    · next a list b node ctx rest hstack =>
      have happend : st.stack = [.token a, .other, .enumeratorList list, .token b, .name node,
        .enumKeyContext ctx] ++ rest := hstack
      exact (reduceEnumNameDefinition_keepsTypes h).sound hroot happend rfl
    · cases h
  | enumNameReference =>
    dsimp only at h
    split at h
    · next node ctx rest hstack =>
      have happend : st.stack = [.name node, .enumKeyContext ctx] ++ rest := hstack
      exact (reduceEnumNameReference_keepsTypes h).sound hroot happend rfl
    · cases h
  | aggregateNameUnnamed =>
    dsimp only at h
    split at h
    · next a list b kind ctx rest hstack =>
      have happend : st.stack = [.token a, .memberDeclarations list, .token b,
        .aggregateKeyContext kind ctx] ++ rest := hstack
      cases h
      apply hroot.reduceAggregateNameUnnamed happend rfl
      apply hroot.values
      rw [hstack]
      exact List.mem_cons_of_mem _ List.mem_cons_self
    · cases h
  | aggregateNameDefinition =>
    dsimp only at h
    split at h
    · next hstack => exact hroot.reduceAggregateNameDefinition hstack h
    · cases h
  | aggregateNameReference =>
    dsimp only at h
    split at h
    · next node kind ctx rest hstack =>
      have happend : st.stack = [.name node, .aggregateKeyContext kind ctx] ++ rest := hstack
      exact hroot.reduceAggregateNameReference happend rfl h
    · cases h
  | declaringList =>
    dsimp only at h
    split at h
    · next pDecl isTypedef spec rest hstack =>
      have happend : st.stack = [.other, .other, .declarator pDecl, .typeSpec isTypedef spec] ++
        rest := hstack
      apply hroot.reduceDeclaringList happend rfl _ h
      apply hroot.values
      rw [hstack]
      simp
    · cases h
  | declaringListMore =>
    dsimp only at h
    split at h
    · next pDecl a pTypedefList rest hstack =>
      have happend : st.stack = [.other, .other, .declarator pDecl, .token a,
        .declaringList pTypedefList] ++ rest := hstack
      exact hroot.reduceDeclaringListMore happend rfl h
    · cases h

theorem Rooted.shift (hroot : Rooted st) {tok : Symbol} (hgrounds : st.grounds (.shift tok) = true)
    (h : parserStep st (.shift tok) = some st') : SoundStep st (.shift tok) st' := by
  simp only [parserStep] at h
  split_ifs at h
  cases h
  refine hroot.unchanged rfl rfl rfl rfl rfl rfl ?_
  apply hroot.pushed (List.nil_append _).symm _ fun _ => id
  intro o ho
  have hknown := List.all_eq_true.mp hgrounds o ho
  cases o with
  | typedef t =>
    have ht : t < st.typedefCount := of_decide_eq_true hknown
    exact ht
  | compound s => exact absurd hknown Bool.false_ne_true
  | unnamed t => exact absurd hknown Bool.false_ne_true

theorem Rooted.other (hroot : Rooted st) {n : ℕ} {value : Symbol}
    (hgrounds : st.grounds (.other n value) = true) (h : parserStep st (.other n value) = some st') :
    SoundStep st (.other n value) st' := by
  simp only [parserStep] at h
  split_ifs at h
  cases h
  refine hroot.unchanged rfl rfl rfl rfl rfl rfl ?_
  apply hroot.pushed (List.take_append_drop n st.stack).symm _ fun _ => id
  intro o ho
  have hknown := List.all_eq_true.mp hgrounds o ho
  obtain ⟨s, hs, hmem⟩ := List.any_eq_true.mp hknown
  exact hroot.values s (List.mem_of_mem_take hs) o (of_decide_eq_true hmem)

/-- Every step of the parser. -/
theorem Rooted.advance (hroot : Rooted st) (h : groundedStep st step = some st') :
    SoundStep st step st' := by
  unfold groundedStep at h
  split_ifs at h with hgrounds
  have hempty (s : Symbol) (hs : s ∈ ([] : List Symbol)) : ∀ o ∈ s.objects, st.Made o :=
    absurd hs List.not_mem_nil
  cases step with
  | shift tok => exact hroot.shift hgrounds h
  | reduce p =>
    simp only [parserStep] at h
    split_ifs at h
    exact hroot.reduce h
  | other n value => exact hroot.other hgrounds h
  | setPack pack =>
    simp only [parserStep] at h
    split_ifs at h
    cases h
    exact hroot.unchanged rfl rfl rfl rfl rfl rfl hroot.values
  | beginLocal =>
    simp only [parserStep] at h
    split_ifs at h
    cases h
    exact hroot.unchanged rfl rfl rfl rfl rfl rfl hroot.values
  | endLocal =>
    simp only [parserStep] at h
    split_ifs at h
    cases h
    exact hroot.unchanged rfl rfl rfl rfl rfl rfl hroot.values
  | accept =>
    simp only [parserStep] at h
    split_ifs at h
    cases h
    exact hroot.unchanged rfl rfl rfl rfl rfl rfl hempty
  | error =>
    simp only [parserStep] at h
    split_ifs at h
    cases h
    exact hroot.unchanged rfl rfl rfl rfl rfl rfl hempty
  | restart =>
    simp only [parserStep] at h
    split_ifs at h
    cases h
    exact hroot.unchanged rfl rfl rfl rfl rfl rfl hroot.values

end Containment

theorem initial_parts (a : TypeObject) : ParserState.initial.heap.parts a = [] := by
  cases a with
  | compound s => rfl
  | typedef t => rfl
  | unnamed t => rfl

theorem initial_rooted : Rooted .initial where
  tags n i hi := by cases hi
  values s hs := absurd hs List.not_mem_nil
  lists l hl := absurd hl List.not_mem_nil
  parts a b hb := by
    rw [Heap.Contains, initial_parts] at hb
    exact absurd hb List.not_mem_nil

theorem initial_wellFounded : WellFounded ParserState.initial.heap.Contains := by
  apply WellFounded.intro
  intro a
  apply Acc.intro
  intro b hb
  rw [Heap.Contains, initial_parts] at hb
  exact absurd hb List.not_mem_nil

/-- No type contains itself by value, and for types with these members every recursion over them
ends at some depth. -/
structure ParserState.Descends (st : ParserState) : Prop where
  wellFounded : WellFounded st.heap.Contains
  unpacks : ∀ perl cbc, cbc.heap.parts = st.heap.parts → ∀ pTS pDecl dimension, ∃ depth, ∀ n ≥ depth,
    ∀ pBI s s', unpackType perl cbc n pTS pDecl dimension pBI s ≠ .error .outOfFuel s'
  initializes : ∀ perl heap, heap.parts = st.heap.parts → ∀ pTS pDecl dimension, ∃ depth,
    ∀ n ≥ depth, ∀ init level string,
      initType perl heap n pTS pDecl dimension init level string ≠ .error .outOfFuel
  enumerates : ∀ heap, heap.parts = st.heap.parts → ∀ pTS pDecl dimension, ∃ depth, ∀ n ≥ depth,
    ∀ name info, amsType heap n pTS pDecl dimension name info ≠ .error .outOfFuel

theorem ParserState.descends_iff {st : ParserState} :
    st.Descends ↔ WellFounded st.heap.Contains := by
  have hsame {heap : Heap} (hparts : heap.parts = st.heap.parts)
      (hwf : WellFounded st.heap.Contains) : WellFounded heap.Contains := by
    have hcontains : heap.Contains = st.heap.Contains := by
      funext part whole
      rw [Heap.Contains, Heap.Contains, hparts]
    rwa [hcontains]
  constructor
  · exact fun h => h.wellFounded
  · intro hwf
    refine ⟨hwf, ?_, ?_, ?_⟩
    · intro perl cbc hparts pTS pDecl dimension
      have hends := (unpackRecursion perl cbc).ends (hsame hparts hwf) pTS pDecl dimension
      obtain ⟨depth, hdepth⟩ := eventually_atTop.mp hends
      refine ⟨depth, ?_⟩
      intro n hn pBI s s' hrun
      exact (hdepth n hn pBI s).fails hrun rfl
    · intro perl heap hparts pTS pDecl dimension
      exact eventually_atTop.mp ((initRecursion perl heap).ends (hsame hparts hwf) pTS pDecl dimension)
    · intro heap hparts pTS pDecl dimension
      exact eventually_atTop.mp ((memberStringsRecursion heap).ends (hsame hparts hwf) pTS pDecl dimension)

/-- After every run of the parser its types descend, exactly if the run completes no compound that
is below one of its members. -/
theorem descends_iff_closesNoLoop (steps : List ParserStep) (st : ParserState)
    (hrun : RunRules.run groundedStep .initial steps = some st) :
    st.Descends ↔ RunRules.Along groundedStep ClosesNoLoop .initial steps := by
  rw [ParserState.descends_iff]
  have hkeep (s : ParserState) (i : ParserStep) (s' : ParserState)
      (hs : Rooted s ∧ WellFounded s.heap.Contains) (hgood : ClosesNoLoop s i)
      (h : groundedStep s i = some s') : Rooted s' ∧ WellFounded s'.heap.Contains :=
    ⟨(hs.1.advance h).rooted, (hs.1.advance h).gains.wellFounded hs.1 hgood hs.2⟩
  constructor
  · intro hwf
    by_contra hbad
    have hdefect : Rooted st ∧ ∃ o, TransGen st.heap.Contains o o := by
      refine RunRules.run_defect (D := fun s => Rooted s ∧ ∃ o, TransGen s.heap.Contains o o)
        hkeep ?_ ?_ ⟨initial_rooted, initial_wellFounded⟩ hbad hrun
      · intro s i s' hs hbad h
        exact ⟨(hs.1.advance h).rooted, (hs.1.advance h).gains.loop hbad⟩
      · rintro s i s' ⟨hs, o, hloop⟩ h
        have hsound := hs.advance h
        exact ⟨hsound.rooted, o, TransGen.mono (fun _ _ hb => hsound.gains.keeps hb) _ _ hloop⟩
    obtain ⟨_, o, hloop⟩ := hdefect
    exact not_wellFounded_of_loop hloop hwf
  · intro hgood
    exact (RunRules.run_invariant_along hkeep ⟨initial_rooted, initial_wellFounded⟩ hgood hrun).2

/-- The steps for `struct TAG { TYPE x; };`, where `specifier` are those for the type. -/
def structDefinitionSteps (tag : String) (specifier : List ParserStep) (type : TypeSpec) :
    List ParserStep :=
  let members : Symbol := .memberDeclarations (some [⟨type, some [declNew "x"], 0, 0⟩])
  [.shift (.token "struct"), .other 1 (.aggregateKeyContext .struct ⟨"", 1⟩),
    .shift (.identifier (some tag)), .other 1 (.name (some tag)), .shift (.token "\x7b")] ++
  specifier ++
  [.shift (.identifier (some "x")), .other 1 (.declarator (some (declNew "x"))), .other 2 members,
    .shift (.token ";"), .other 2 members, .shift (.token "\x7d"),
    .reduce .aggregateNameDefinition, .shift (.token ";"), .other 2 .other, .accept]

/-- The steps for `struct a { int x; };`. -/
def intMemberSteps : List ParserStep :=
  structDefinitionSteps "a"
    [.shift (.token "int"), .other 1 (.typeSpec false (some (.basic T_INT)))] (.basic T_INT)

/-- The steps for `struct a { struct a x; };`. -/
def selfMemberSteps : List ParserStep :=
  structDefinitionSteps "a"
    [.shift (.token "struct"), .other 1 (.aggregateKeyContext .struct ⟨"", 1⟩),
      .shift (.identifier (some "a")), .other 1 (.name (some "a")), .reduce .aggregateNameReference]
    (.compound .struct 0)

theorem descends_iff_intMember :
    ∃ st, RunRules.run groundedStep .initial intMemberSteps = some st ∧
      (st.Descends ↔ RunRules.Along groundedStep ClosesNoLoop .initial intMemberSteps) :=
  ⟨_, rfl, descends_iff_closesNoLoop _ _ rfl⟩

/-- The type that `struct a { struct a x; };` leaves. -/
def selfMember : Struct :=
  structNew "a" .struct 0 ⟨"", 1⟩ (some [⟨.compound .struct 0, some [declNew "x"], 0, 0⟩])

section SelfMember

/-- Every run is out of depth. -/
def Starves {α : Type} (m : Pk α) : Prop := ∀ s, ∃ s', m s = .error .outOfFuel s'

theorem Starves.bind {α β : Type} {m : Pk α} {f : α → Pk β} (h : Starves m) :
    Starves (m >>= f) := by
  intro s
  obtain ⟨s', hs'⟩ := h s
  exact ⟨s', StateRules.bind_of_error hs'⟩

theorem Starves.modify_bind {α : Type} {g : PackInfo → PackInfo} {f : Unit → Pk α}
    (h : Starves (f ())) : Starves ((modify g : Pk Unit) >>= f) := fun s => h (g s)

theorem Starves.inScope {α : Type} {scope : Scope} {tags : CtTagList} {m : Pk α} (h : Starves m) :
    Starves (inScope scope tags m) := by
  intro s
  obtain ⟨s', hs'⟩ := h ((s.tagged tags).enter scope)
  exact ⟨s', inScope_error hs'⟩

variable {heap : Heap} (hself : heap.structAt 0 = selfMember)
include hself

omit heap hself in
theorem unpack_starves (perl : Perl) {cbc : CBC} (hself : cbc.heap.structAt 0 = selfMember) (n : ℕ) :
    Starves (unpackStruct perl cbc n 0 none) ∧
      Starves (unpackType perl cbc n (.compound .struct 0) (some (declNew "x")) 0 none) := by
  induction n with
  | zero => exact ⟨fun s => ⟨s, rfl⟩, fun s => ⟨s, rfl⟩⟩
  | succ n ih =>
    constructor
    · rw [unpackStruct]
      unfold unpackStructStep
      rw [hself]
      apply Starves.bind
      apply Starves.inScope
      intro s
      have hmember : Starves (unpackMember (unpackType perl cbc n) (i64 s.pos) (.compound .struct 0) []
          (declNew "x")) := by
        apply Starves.modify_bind
        apply Starves.modify_bind
        exact ih.2.bind
      exact hmember.bind.bind s
    · rw [unpackType]
      apply Starves.bind
      apply Starves.inScope
      have hplain : Plainly (some (declNew "x")) 0 := by
        rintro d ⟨⟩
        exact ⟨le_rfl, rfl⟩
      have hdefined : (cbc.heap.structAt 0).declarations ≠ none := by
        rw [hself]
        exact Option.some_ne_none _
      rw [unpackUntagged_compound hplain hdefined]
      exact ih.1

theorem selfMember_contains : heap.Contains (.compound 0) (.compound 0) := by
  show TypeObject.compound 0 ∈ declaredParts (heap.structAt 0).declarations
  rw [hself]
  exact List.mem_cons_self

theorem init_starves (perl : Perl) (n : ℕ) :
    (∀ init level string, initStruct perl heap n 0 init level string = .error .outOfFuel) ∧
      ∀ init level string, initType perl heap n (.compound .struct 0) (some (declNew "x")) 0 init level
        string = .error .outOfFuel := by
  induction n with
  | zero => exact ⟨fun _ _ _ => rfl, fun _ _ _ => rfl⟩
  | succ n ih =>
    constructor
    · intro init level string
      rw [initStruct]
      unfold initStructStep
      rw [hself]
      show (((initType perl heap n (.compound .struct 0) (some (declNew "x")) 0 _ (level + 1) _ >>= _)
        >>= _) >>= _) >>= _ = _
      rw [ih.2]
      rfl
    · intro init level string
      exact ih.1 init level string

theorem ams_starves (n : ℕ) :
    (∀ name info, amsStruct heap n 0 name info = .error .outOfFuel) ∧
      ∀ name info, amsType heap n (.compound .struct 0) (some (declNew "x")) 0 name info =
        .error .outOfFuel := by
  induction n with
  | zero => exact ⟨fun _ _ => rfl, fun _ _ => rfl⟩
  | succ n ih =>
    constructor
    · intro name info
      rw [amsStruct]
      unfold amsStructStep
      rw [hself]
      show (amsType heap n (.compound .struct 0) (some (declNew "x")) 0 (memberName name (declNew "x"))
        info >>= _) >>= _ = _
      rw [ih.2]
      rfl
    · exact ih.1

end SelfMember

/-- The parser accepts `struct a { struct a x; };`, and no depth is enough for its type. -/
theorem selfMember_accepted :
    ∃ st, RunRules.run groundedStep .initial selfMemberSteps = some st ∧ st.returned = true ∧
      st.heap.Contains (.compound 0) (.compound 0) ∧ ¬ st.Descends ∧
      (∀ perl cbc, cbc.heap = st.heap → ∀ n s, ∃ s',
        unpackStruct perl cbc n 0 none s = .error .outOfFuel s') ∧
      (∀ perl n init level string,
        initStruct perl st.heap n 0 init level string = .error .outOfFuel) ∧
      ∀ n name info, amsStruct st.heap n 0 name info = .error .outOfFuel := by
  refine ⟨_, rfl, rfl, selfMember_contains rfl, ?_, ?_, ?_, ?_⟩
  · intro h
    exact not_wellFounded_of_loop (TransGen.single (selfMember_contains rfl)) h.wellFounded
  · intro perl cbc hheap n
    have hself : cbc.heap.structAt 0 = selfMember := by
      rw [hheap]
      rfl
    exact (unpack_starves perl hself n).1
  · exact fun perl n => (init_starves rfl perl n).1
  · exact fun n => (ams_starves rfl n).1

end ConvertBinaryC
