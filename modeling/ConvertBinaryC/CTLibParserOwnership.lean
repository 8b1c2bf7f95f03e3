import ConvertBinaryC.CTLibParser

/-! Who owns the enumerators while the parser runs. Abstractly an enumerator is
held by the parser's stack, owned by an enum specifier, or gone; the table of
enumerators must refer to none that is gone. -/
namespace ConvertBinaryC

structure Ownership where
  table : String → Option ℕ
  owned : Multiset ℕ
  held : Multiset ℕ
  freed : ℕ → Prop
  count : ℕ

namespace Ownership

/-- A step, with the enumerators that it discards. -/
inductive Step : Ownership → Multiset ℕ → Ownership → Prop where
  | keep (o : Ownership) : Step o 0 o
  | create (o : Ownership) (name : String) :
    Step o 0 { o with
      table := htStore o.table name o.count
      held := o.count ::ₘ o.held
      count := o.count + 1 }
  | adopt (o : Ownership) (es rest : Multiset ℕ) (h : o.held = es + rest) :
    Step o 0 { o with owned := o.owned + es, held := rest }
  | discard (o : Ownership) (es rest : Multiset ℕ) (freed : ℕ → Prop) (h : o.held = es + rest)
      (hold : ∀ e, o.freed e → freed e) (hnew : ∀ e, freed e → o.freed e ∨ e ∈ es) :
    Step o es { o with held := rest, freed := freed }

structure Inv (o : Ownership) : Prop where
  nodup : (o.owned + o.held).Nodup
  live : ∀ e ∈ o.owned + o.held, e < o.count ∧ ¬o.freed e
  freed_lt : ∀ e, o.freed e → e < o.count
  entries : ∀ n e, o.table n = some e → e ∈ o.owned + o.held

/-- No enumerator has two owners, and each was made. -/
structure Apart (o : Ownership) : Prop where
  nodup : (o.owned + o.held).Nodup
  made : ∀ e ∈ o.owned + o.held, e < o.count

/-- An entry whose enumerator is neither owned nor held any more. -/
def Dangling (o : Ownership) : Prop :=
  ∃ n e, o.table n = some e ∧ e < o.count ∧ e ∉ o.owned + o.held

theorem htStore_some {ht : String → Option ℕ} {key n : String} {v e : ℕ}
    (h : htStore ht key v n = some e) : ht n = some e ∨ (n = key ∧ e = v) := by
  unfold htStore at h
  split_ifs at h with hk
  · by_cases hn : n = key
    · subst hn
      rw [Function.update_self, Option.some.injEq] at h
      exact Or.inr ⟨rfl, h.symm⟩
    · rw [Function.update_of_ne hn] at h
      exact Or.inl h
  · exact Or.inl h

theorem htStore_of_some {ht : String → Option ℕ} {n : String} {e : ℕ} (h : ht n = some e)
    (key : String) (v : ℕ) : htStore ht key v n = some e := by
  unfold htStore
  split_ifs with hk
  · rw [Function.update_of_ne, h]
    rintro rfl
    rw [hk] at h
    exact absurd h (by simp)
  · exact h

theorem Inv.apart {o : Ownership} (hi : o.Inv) : o.Apart :=
  ⟨hi.nodup, fun e he => (hi.live e he).1⟩

theorem Apart.step {o o' : Ownership} {es : Multiset ℕ} (ha : o.Apart) (h : Step o es o') :
    o'.Apart := by
  cases h with
  | keep => exact ha
  | create name =>
    have hfresh : o.count ∉ o.owned + o.held := fun hmem => (ha.made _ hmem).false
    have hsum : o.owned + o.count ::ₘ o.held = o.count ::ₘ (o.owned + o.held) :=
      Multiset.add_cons ..
    constructor
    · change (o.owned + o.count ::ₘ o.held).Nodup
      rw [hsum]
      exact Multiset.nodup_cons.mpr ⟨hfresh, ha.nodup⟩
    · intro e he
      change e ∈ o.owned + o.count ::ₘ o.held at he
      rw [hsum, Multiset.mem_cons] at he
      rcases he with rfl | he
      · exact Nat.lt_succ_self _
      · exact (ha.made e he).trans (Nat.lt_succ_self _)
  | adopt es rest hheld =>
    have hsum : o.owned + es + rest = o.owned + o.held := by rw [hheld, add_assoc]
    constructor
    · change (o.owned + es + rest).Nodup
      rw [hsum]
      exact ha.nodup
    · intro e he
      change e ∈ o.owned + es + rest at he
      rw [hsum] at he
      exact ha.made e he
  | discard _ rest freed hheld hold hnew =>
    have hsum : o.owned + o.held = es + (o.owned + rest) := by
      rw [hheld, add_left_comm]
    have hnodup := ha.nodup
    rw [hsum, Multiset.nodup_add] at hnodup
    constructor
    · exact hnodup.2.1
    · intro e he
      apply ha.made e
      rw [hsum]
      exact Multiset.mem_add.mpr (Or.inr he)

/-- A step that discards no enumerator of the table keeps the invariant. -/
theorem Inv.step {o o' : Ownership} {es : Multiset ℕ} (hi : o.Inv) (h : Step o es o')
    (hes : ∀ e ∈ es, ∀ n, o.table n ≠ some e) : o'.Inv := by
  have hapart := hi.apart.step h
  cases h with
  | keep => exact hi
  | create name =>
    have hsum : o.owned + o.count ::ₘ o.held = o.count ::ₘ (o.owned + o.held) :=
      Multiset.add_cons ..
    refine ⟨hapart.nodup, fun e he => ⟨hapart.made e he, ?_⟩, ?_, ?_⟩
    · change e ∈ o.owned + o.count ::ₘ o.held at he
      rw [hsum, Multiset.mem_cons] at he
      rcases he with rfl | he
      · exact fun hf => (hi.freed_lt _ hf).false
      · exact (hi.live e he).2
    · intro e he
      exact (hi.freed_lt e he).trans (Nat.lt_succ_self _)
    · intro n e he
      change e ∈ o.owned + o.count ::ₘ o.held
      rw [hsum, Multiset.mem_cons]
      rcases htStore_some he with hold | ⟨_, rfl⟩
      · exact Or.inr (hi.entries n e hold)
      · exact Or.inl rfl
  | adopt es rest hheld =>
    have hsum : o.owned + es + rest = o.owned + o.held := by rw [hheld, add_assoc]
    refine ⟨hapart.nodup, fun e he => ⟨hapart.made e he, ?_⟩, hi.freed_lt, ?_⟩
    · change e ∈ o.owned + es + rest at he
      rw [hsum] at he
      exact (hi.live e he).2
    · intro n e he
      change e ∈ o.owned + es + rest
      rw [hsum]
      exact hi.entries n e he
  | discard _ rest freed hheld hold hnew =>
    have hsum : o.owned + o.held = es + (o.owned + rest) := by
      rw [hheld, add_left_comm]
    have hnodup := hi.nodup
    rw [hsum, Multiset.nodup_add] at hnodup
    refine ⟨hapart.nodup, fun e he => ⟨hapart.made e he, fun hf => ?_⟩, ?_, ?_⟩
    · have hmem : e ∈ o.owned + o.held := by
        rw [hsum]
        exact Multiset.mem_add.mpr (Or.inr he)
      rcases hnew e hf with hf | hf
      · exact (hi.live e hmem).2 hf
      · exact Multiset.disjoint_left.mp hnodup.2.2 hf he
    · intro e he
      rcases hnew e he with hf | hf
      · exact hi.freed_lt e hf
      · refine (hi.live e ?_).1
        rw [hsum]
        exact Multiset.mem_add.mpr (Or.inl hf)
    · intro n e he
      have hall := hi.entries n e he
      rw [hsum, Multiset.mem_add] at hall
      exact hall.resolve_left fun hin => hes e hin n he

/-- Discarding an enumerator of the table leaves its entry dangling. -/
theorem Inv.dangling {o o' : Ownership} {es : Multiset ℕ} (hi : o.Inv) (h : Step o es o')
    {e : ℕ} {n : String} (he : e ∈ es) (hn : o.table n = some e) : o'.Dangling := by
  cases h with
  | keep => exact absurd he (Multiset.notMem_zero e)
  | create => exact absurd he (Multiset.notMem_zero e)
  | adopt => exact absurd he (Multiset.notMem_zero e)
  | discard _ rest freed hheld hold hnew =>
    have hsum : o.owned + o.held = es + (o.owned + rest) := by
      rw [hheld, add_left_comm]
    have hnodup := hi.nodup
    rw [hsum, Multiset.nodup_add] at hnodup
    exact ⟨n, e, hn, (hi.live e (hi.entries n e hn)).1, Multiset.disjoint_left.mp hnodup.2.2 he⟩

/-- Nothing repairs a dangling entry. -/
theorem Dangling.step {o o' : Ownership} {es : Multiset ℕ} (hd : o.Dangling)
    (h : Step o es o') : o'.Dangling := by
  obtain ⟨n, e, hn, hlt, hgone⟩ := hd
  have hgone' := hgone
  rw [Multiset.mem_add, not_or] at hgone'
  cases h with
  | keep => exact ⟨n, e, hn, hlt, hgone⟩
  | create name =>
    refine ⟨n, e, htStore_of_some hn name o.count, hlt.trans (Nat.lt_succ_self _), ?_⟩
    change e ∉ o.owned + o.count ::ₘ o.held
    rw [Multiset.mem_add, Multiset.mem_cons, not_or, not_or]
    exact ⟨hgone'.1, hlt.ne, hgone'.2⟩
  | adopt es rest hheld =>
    refine ⟨n, e, hn, hlt, ?_⟩
    change e ∉ o.owned + es + rest
    rwa [add_assoc, ← hheld]
  | discard _ rest freed hheld hold hnew =>
    refine ⟨n, e, hn, hlt, fun hmem => hgone ?_⟩
    rw [hheld, add_left_comm, Multiset.mem_add]
    exact Or.inr hmem

end Ownership

@[simp] theorem stackEnumerators_nil : stackEnumerators [] = [] := rfl

@[simp] theorem stackEnumerators_cons (s : Symbol) (stack : List Symbol) :
    stackEnumerators (s :: stack) = s.enumerators ++ stackEnumerators stack := rfl

@[simp] theorem stackEnumerators_append (a b : List Symbol) :
    stackEnumerators (a ++ b) = stackEnumerators a ++ stackEnumerators b := List.flatMap_append ..

theorem Symbol.enumerators_of_isPlain {s : Symbol} (h : s.isPlain = true) : s.enumerators = [] := by
  cases s <;> simp [Symbol.isPlain, Symbol.enumerators] at h ⊢

theorem Symbol.enumerators_of_isToken {s : Symbol} (h : s.isToken = true) : s.enumerators = [] := by
  cases s <;> simp [Symbol.isToken, Symbol.enumerators] at h ⊢

/-- The enumerators that the specifiers in the list own. -/
def ownedEnumerators (enums : List EnumObject) : List ℕ := enums.flatMap EnumObject.ids

/-- Giving enumerators to a specifier that had none adds them to the owned ones. -/
theorem ownedEnumerators_modify {enums : List EnumObject} {i : ℕ} {d : EnumObject}
    {f : EnumObject → EnumObject} (hd : enums[i]? = some d) (hnone : d.ids = []) :
    (ownedEnumerators (enums.modify i f) : Multiset ℕ) = ownedEnumerators enums + (f d).ids := by
  induction enums generalizing i with
  | nil => exact absurd hd (by simp)
  | cons x xs ih =>
    cases i with
    | zero =>
      rw [List.getElem?_cons_zero, Option.some.injEq] at hd
      subst hd
      simp only [ownedEnumerators, List.modify_zero_cons, List.flatMap_cons, hnone,
        List.nil_append, ← Multiset.coe_add]
      exact add_comm _ _
    | succ i =>
      rw [List.getElem?_cons_succ] at hd
      simp only [ownedEnumerators, List.modify_succ_cons, List.flatMap_cons, ← Multiset.coe_add]
      have hrest := ih hd
      unfold ownedEnumerators at hrest
      rw [hrest, add_assoc]

def ParserState.view (st : ParserState) : Ownership where
  table := st.htEnumerators
  owned := ownedEnumerators st.enums
  held := stackEnumerators st.stack
  freed := fun e => st.freed (.enumerator e) = true
  count := st.enumeratorCount

/-- Does a definition of the tag come after one with enumerators? -/
def ParserState.defines (st : ParserState) (tag : String) : Bool :=
  ((st.htEnums tag).bind fun i => (st.enums[i]?).bind fun d => d.spec.enumerators).isSome

/-- The enumerators that a step takes from the stack without giving them to an
enum specifier: those of a repeated definition of a tag, and all of them when
the parser gives up. -/
def discards (st : ParserState) : ParserStep → List ℕ
  | .reduce .enumNameDefinition =>
    match st.stack with
    | _ :: _ :: .enumeratorList (some es) :: _ :: .name (some tag) :: _ =>
      if st.defines tag then es else []
    | _ => []
  | .error => stackEnumerators st.stack
  | _ => []

/-- What else holds of a state between two steps: table entries refer to elements
of the lists, and a function body holds no enumerators. -/
structure Linked (st : ParserState) : Prop where
  enums : ∀ n i, st.htEnums n = some i → i < st.enums.length
  structs : ∀ n i, st.htStructs n = some i → i < st.structs.length
  typedefs : ∀ n t, st.htTypedefs n = some t → ∃ l ∈ st.typedef_lists, t ∈ l.typedefs
  freed : ∀ o, st.freed o = true → ∃ e, o = .enumerator e
  bare : ∀ d ∈ st.enums, d.spec.enumerators = none → d.ids = []
  inside : st.isLocal = true → stackEnumerators st.stack = []
  finished : st.returned = true → st.stack = []

theorem enumspecUpdate_enumerators (spec : EnumSpecifier) (es : List Enumerator) :
    (enumspecUpdate spec es).enumerators = some es := by
  unfold enumspecUpdate
  dsimp only
  split_ifs <;> rfl

section

variable {st st' : ParserState}

theorem step_of_view_eq (h : st'.view = st.view) : Ownership.Step st.view 0 st'.view :=
  h ▸ Ownership.Step.keep st.view

theorem reduceEnumerator_step {node : Option String} {value : Value}
    (top : List Symbol) {rest : List Symbol} (hstack : st.stack = top ++ rest)
    (htop : stackEnumerators top = [])
    (h : reduceEnumerator st node value rest = some st') :
    Ownership.Step st.view 0 st'.view := by
  have hheld : stackEnumerators st.stack = stackEnumerators rest := by
    rw [hstack, stackEnumerators_append, htop, List.nil_append]
  unfold reduceEnumerator at h
  split at h
  · obtain rfl := Option.some.inj h
    apply step_of_view_eq
    unfold ParserState.view ParserState.push
    rw [hheld]
    rfl
  · next name _ =>
    obtain rfl := Option.some.inj h
    have hcreate := Ownership.Step.create st.view name
    unfold ParserState.view at hcreate ⊢
    rw [hheld] at hcreate ⊢
    exact hcreate
  · exact absurd h (by simp)

theorem reduceEnumeratorList_step (hl : Linked st) {pEnum : Option ℕ} {rest : List Symbol}
    (hstack : st.stack = .enumerator pEnum :: rest)
    (h : reduceEnumeratorList st pEnum rest = some st') : Ownership.Step st.view 0 st'.view := by
  apply step_of_view_eq
  unfold reduceEnumeratorList at h
  split at h
  · next hlocal =>
    obtain rfl := Option.some.inj h
    have hempty := hl.inside hlocal
    have hrest : stackEnumerators rest = [] := by
      rw [hstack, stackEnumerators_cons] at hempty
      exact (List.append_eq_nil_iff.mp hempty).2
    unfold ParserState.view
    rw [hempty]
    simp [ParserState.push, Symbol.enumerators, hrest]
  · obtain rfl := Option.some.inj h
    unfold ParserState.view
    rw [hstack]
    rfl
  · exact absurd h (by simp)

theorem reduceEnumeratorListMore_step (hl : Linked st) {list : Option (List ℕ)}
    {pEnum : Option ℕ} {text : String} {rest : List Symbol}
    (hstack : st.stack = .enumerator pEnum :: .token text :: .enumeratorList list :: rest)
    (h : reduceEnumeratorListMore st list pEnum rest = some st') :
    Ownership.Step st.view 0 st'.view := by
  apply step_of_view_eq
  unfold reduceEnumeratorListMore at h
  split at h
  · next hlocal =>
    obtain rfl := Option.some.inj h
    have hempty := hl.inside hlocal
    have hrest : stackEnumerators rest = [] := by
      rw [hstack] at hempty
      simp only [stackEnumerators_cons, List.append_eq_nil_iff] at hempty
      exact hempty.2.2.2
    unfold ParserState.view
    rw [hempty]
    simp [ParserState.push, Symbol.enumerators, hrest]
  · next es e _ =>
    obtain rfl := Option.some.inj h
    have hheld : (stackEnumerators (.enumeratorList (some (es ++ [e])) :: rest) : Multiset ℕ) =
        stackEnumerators st.stack := by
      rw [hstack]
      simp only [stackEnumerators_cons, Symbol.enumerators, List.nil_append, ← Multiset.coe_add]
      rw [add_comm (es : Multiset ℕ), add_assoc]
    unfold ParserState.view ParserState.push
    rw [← hheld]
    rfl
  · exact absurd h (by simp)

theorem reduceEnumNameUnnamed_step (hl : Linked st) {ctx : ContextInfo}
    {list : Option (List ℕ)} {a b : String} {rest : List Symbol}
    (hstack : st.stack =
      .token a :: .other :: .enumeratorList list :: .token b :: .enumKeyContext ctx :: rest)
    (h : reduceEnumNameUnnamed st ctx list rest = some st') : Ownership.Step st.view 0 st'.view := by
  unfold reduceEnumNameUnnamed at h
  split_ifs at h with hlocal
  · obtain rfl := Option.some.inj h
    have hempty := hl.inside hlocal
    rw [hstack] at hempty
    simp only [stackEnumerators_cons, List.append_eq_nil_iff] at hempty
    have hlist : list.getD [] = [] := by
      cases list with
      | none => rfl
      | some es => exact hempty.2.2.1
    apply step_of_view_eq
    unfold ParserState.view
    rw [hl.inside hlocal, hlist]
    simp [ParserState.push, ParserState.destroyEnumerators, Symbol.enumerators, hempty]
  · split at h
    · next es =>
      obtain rfl := Option.some.inj h
      have hheld : st.view.held = (es : Multiset ℕ) + stackEnumerators rest := by
        simp only [ParserState.view, hstack, stackEnumerators_cons, Symbol.enumerators,
          List.nil_append, Multiset.coe_add]
      have hadopt := Ownership.Step.adopt st.view es (stackEnumerators rest) hheld
      simp only [ParserState.view, ParserState.push, ownedEnumerators, List.flatMap_append,
        List.flatMap_singleton, ← Multiset.coe_add, stackEnumerators_cons, Symbol.enumerators,
        List.nil_append] at hadopt ⊢
      exact hadopt
    · exact absurd h (by simp)

theorem reduceEnumNameDefinition_step (hl : Linked st) {ctx : ContextInfo}
    {node : Option String} {list : Option (List ℕ)} {a b : String} {rest : List Symbol}
    (hstack : st.stack = .token a :: .other :: .enumeratorList list :: .token b :: .name node ::
      .enumKeyContext ctx :: rest)
    (h : reduceEnumNameDefinition st ctx node list rest = some st') :
    Ownership.Step st.view (discards st (.reduce .enumNameDefinition)) st'.view := by
  have hheld (es : List ℕ) (hes : list = some es) :
      st.view.held = (es : Multiset ℕ) + stackEnumerators rest := by
    simp only [ParserState.view, hstack, hes, stackEnumerators_cons, Symbol.enumerators,
      List.nil_append, Multiset.coe_add]
  have hdiscards (tag : String) (es : List ℕ) (hn : node = some tag) (hes : list = some es) :
      discards st (.reduce .enumNameDefinition) = if st.defines tag then es else [] := by
    unfold discards
    rw [hstack, hn, hes]
  unfold reduceEnumNameDefinition at h
  split at h
  · next hlocal =>
    obtain rfl := Option.some.inj h
    have hempty := hl.inside hlocal
    rw [hstack] at hempty
    simp only [stackEnumerators_cons, List.append_eq_nil_iff] at hempty
    have hnone : discards st (.reduce .enumNameDefinition) = [] := by
      unfold discards
      rw [hstack]
      dsimp only
      split
      · rename_i es _ tag _ heq
        simp only [List.cons.injEq, Symbol.enumeratorList.injEq] at heq
        have hes : es = [] := by simpa [heq, Symbol.enumerators] using hempty.2.2.1
        rw [hes, ite_self]
      · rfl
    rw [hnone]
    apply step_of_view_eq
    unfold ParserState.view
    rw [hl.inside hlocal]
    simp [ParserState.push, Symbol.enumerators, hempty]
  · next tag es _ =>
    rw [hdiscards tag es rfl rfl]
    have hadopt := Ownership.Step.adopt st.view es (stackEnumerators rest) (hheld es rfl)
    split at h
    · next hnew =>
      obtain rfl := Option.some.inj h
      have hdef : st.defines tag = false := by simp [ParserState.defines, hnew]
      rw [hdef, if_neg (by decide)]
      simp only [ParserState.view, ParserState.push, ownedEnumerators, List.flatMap_append,
        List.flatMap_singleton, ← Multiset.coe_add, stackEnumerators_cons, Symbol.enumerators,
        List.nil_append] at hadopt ⊢
      exact hadopt
    · next i hi =>
      have hlt := hl.enums tag i hi
      have hget : st.enums[i]? = some st.enums[i] := List.getElem?_eq_getElem hlt
      split at h
      · next hbare =>
        obtain rfl := Option.some.inj h
        have hdef : st.defines tag = false := by simp only [ParserState.defines, hi,
          Option.bind_some, hbare, Option.isSome_none]
        rw [hdef, if_neg (by decide)]
        rw [hget, Option.bind_some] at hbare
        have hids := hl.bare _ (List.getElem_mem hlt) hbare
        have howned := ownedEnumerators_modify (f := fun d =>
          ⟨{ enumspecUpdate d.spec (st.enumerators es) with context := ctx }, es⟩) hget hids
        simp only [ParserState.view, ParserState.push, howned, stackEnumerators_cons,
          Symbol.enumerators, List.nil_append] at hadopt ⊢
        exact hadopt
      · next hsome =>
        obtain rfl := Option.some.inj h
        have hdef : st.defines tag = true := by simp only [ParserState.defines, hi,
          Option.bind_some, hsome, Option.isSome_some]
        rw [hdef, if_pos rfl]
        have hdrop := Ownership.Step.discard st.view es (stackEnumerators rest)
          (fun e => (st.destroyEnumerators es).freed (.enumerator e) = true) (hheld es rfl)
          (fun e he => by
            change st.freed (.enumerator e) = true at he
            simp [ParserState.destroyEnumerators, he])
          (fun e he => by
            simpa [ParserState.destroyEnumerators, ParserState.view] using he)
        simp only [ParserState.view, ParserState.push, stackEnumerators_cons,
          Symbol.enumerators, List.nil_append] at hdrop ⊢
        exact hdrop
  · exact absurd h (by simp)

theorem reduceEnumNameReference_step {ctx : ContextInfo} {node : Option String}
    {rest : List Symbol} (hstack : st.stack = .name node :: .enumKeyContext ctx :: rest)
    (h : reduceEnumNameReference st ctx node rest = some st') : st'.view = st.view := by
  unfold reduceEnumNameReference at h
  unfold ParserState.view
  rw [hstack]
  split at h
  · obtain rfl := Option.some.inj h
    rfl
  · split at h
    · obtain rfl := Option.some.inj h
      simp [ParserState.push, ownedEnumerators, Symbol.enumerators]
    · obtain rfl := Option.some.inj h
      rfl
  · exact absurd h (by simp)

theorem reduceAggregateNameDefinition_step {kind : CompoundKind} {ctx : ContextInfo}
    {node : Option String} {list : Option (List StructDeclaration)} {a b : String}
    {rest : List Symbol}
    (hstack : st.stack = .token a :: .memberDeclarations list :: .token b :: .name node ::
      .aggregateKeyContext kind ctx :: rest)
    (h : reduceAggregateNameDefinition st kind ctx node list rest = some st') :
    st'.view = st.view := by
  unfold reduceAggregateNameDefinition at h
  unfold ParserState.view
  rw [hstack]
  split at h
  · obtain rfl := Option.some.inj h
    rfl
  · split at h <;> (obtain rfl := Option.some.inj h; rfl)
  · exact absurd h (by simp)

theorem reduceAggregateNameReference_step {kind : CompoundKind} {ctx : ContextInfo}
    {node : Option String} {rest : List Symbol}
    (hstack : st.stack = .name node :: .aggregateKeyContext kind ctx :: rest)
    (h : reduceAggregateNameReference st kind ctx node rest = some st') :
    st'.view = st.view := by
  unfold reduceAggregateNameReference at h
  unfold ParserState.view
  rw [hstack]
  split at h
  · obtain rfl := Option.some.inj h
    rfl
  · split at h <;> (obtain rfl := Option.some.inj h; rfl)
  · exact absurd h (by simp)

theorem reduceDeclaringList_step {isTypedef : Bool} {spec : Option TypeSpec}
    {pDecl : Option Declarator} {rest : List Symbol}
    (hstack : st.stack = .other :: .other :: .declarator pDecl :: .typeSpec isTypedef spec :: rest)
    (h : reduceDeclaringList st isTypedef spec pDecl rest = some st') : st'.view = st.view := by
  unfold reduceDeclaringList at h
  unfold ParserState.view
  rw [hstack]
  split at h
  · obtain rfl := Option.some.inj h
    rfl
  · obtain rfl := Option.some.inj h
    rfl
  · split at h
    · obtain rfl := Option.some.inj h
      rfl
    · exact absurd h (by simp)

theorem reduceDeclaringListMore_step {pTypedefList : Option ℕ} {pDecl : Option Declarator}
    {a : String} {rest : List Symbol}
    (hstack : st.stack = .other :: .other :: .declarator pDecl :: .token a ::
      .declaringList pTypedefList :: rest)
    (h : reduceDeclaringListMore st pTypedefList pDecl rest = some st') :
    st'.view = st.view := by
  unfold reduceDeclaringListMore at h
  unfold ParserState.view
  rw [hstack]
  split at h
  · obtain rfl := Option.some.inj h
    rfl
  · split at h
    · obtain rfl := Option.some.inj h
      rfl
    · exact absurd h (by simp)

/-- A reduction is a step of the abstract ownership, with what it discards. -/
theorem reduce_step (hl : Linked st) {p : Production} (h : reduce st p = some st') :
    Ownership.Step st.view (discards st (.reduce p)) st'.view := by
  unfold reduce at h
  cases p with
  | enumerator =>
    dsimp only at h
    split at h
    · next node rest hstack => exact reduceEnumerator_step [.name node] hstack rfl h
    · exact absurd h (by simp)
  | enumeratorWithValue =>
    dsimp only at h
    split at h
    · next value a node rest hstack =>
      exact reduceEnumerator_step [.constant value, .token a, .name node] hstack rfl h
    · exact absurd h (by simp)
  | enumeratorList =>
    dsimp only at h
    split at h
    · next hstack => exact reduceEnumeratorList_step hl hstack h
    · exact absurd h (by simp)
  | enumeratorListMore =>
    dsimp only at h
    split at h
    · next hstack => exact reduceEnumeratorListMore_step hl hstack h
    · exact absurd h (by simp)
  | enumNameUnnamed =>
    dsimp only at h
    split at h
    · next hstack => exact reduceEnumNameUnnamed_step hl hstack h
    · exact absurd h (by simp)
  | enumNameDefinition =>
    dsimp only at h
    split at h
    · next hstack => exact reduceEnumNameDefinition_step hl hstack h
    · exact absurd h (by simp)
  | enumNameReference =>
    dsimp only at h
    split at h
    · next hstack => exact step_of_view_eq (reduceEnumNameReference_step hstack h)
    · exact absurd h (by simp)
  | aggregateNameUnnamed =>
    dsimp only at h
    split at h
    · next hstack =>
      obtain rfl := Option.some.inj h
      apply step_of_view_eq
      unfold reduceAggregateNameUnnamed ParserState.view
      rw [hstack]
      split_ifs <;> rfl
    · exact absurd h (by simp)
  | aggregateNameDefinition =>
    dsimp only at h
    split at h
    · next hstack => exact step_of_view_eq (reduceAggregateNameDefinition_step hstack h)
    · exact absurd h (by simp)
  | aggregateNameReference =>
    dsimp only at h
    split at h
    · next hstack => exact step_of_view_eq (reduceAggregateNameReference_step hstack h)
    · exact absurd h (by simp)
  | declaringList =>
    dsimp only at h
    split at h
    · next hstack => exact step_of_view_eq (reduceDeclaringList_step hstack h)
    · exact absurd h (by simp)
  | declaringListMore =>
    dsimp only at h
    split at h
    · next hstack => exact step_of_view_eq (reduceDeclaringListMore_step hstack h)
    · exact absurd h (by simp)

/-- The enumerators that the destructor of a semantic value deletes. -/
def Symbol.destroyed : Symbol → List ℕ
  | .enumeratorList (some es) => es
  | _ => []

theorem destroyStack_step (st : ParserState) :
    Ownership.Step st.view (stackEnumerators st.stack) (destroyStack st).view := by
  have hlists (stack : List Symbol) (e : ℕ) (he : e ∈ stack.flatMap Symbol.destroyed) :
      e ∈ stackEnumerators stack := by
    obtain ⟨s, hs, hes⟩ := List.mem_flatMap.mp he
    refine List.mem_flatMap.mpr ⟨s, hs, ?_⟩
    unfold Symbol.destroyed at hes
    split at hes
    · exact hes
    · exact absurd hes List.not_mem_nil
  refine Ownership.Step.discard st.view (stackEnumerators st.stack) 0
    (fun e => (destroyStack st).freed (.enumerator e) = true) (add_zero _).symm ?_ ?_
  · intro e he
    change st.freed (.enumerator e) = true at he
    simp [destroyStack, ParserState.destroyEnumerators, he]
  · intro e he
    change (st.freed (.enumerator e) || _) = true at he
    rw [Bool.or_eq_true] at he
    rcases he with he | he
    · exact Or.inl he
    · exact Or.inr (hlists st.stack e (List.contains_iff_mem.mp he))

theorem parserStep_step (hl : Linked st) {step : ParserStep} (h : parserStep st step = some st') :
    Ownership.Step st.view (discards st step) st'.view := by
  cases step with
  | shift tok =>
    simp only [parserStep] at h
    split_ifs at h with hc
    obtain rfl := Option.some.inj h
    rw [Bool.and_eq_true] at hc
    apply step_of_view_eq
    simp [ParserState.view, Symbol.enumerators_of_isToken hc.2]
  | reduce p =>
    simp only [parserStep] at h
    split_ifs at h
    exact reduce_step hl h
  | other n value =>
    simp only [parserStep] at h
    split_ifs at h with hc
    obtain rfl := Option.some.inj h
    simp only [Bool.and_eq_true, decide_eq_true_eq] at hc
    have hsame : stackEnumerators st.stack = stackEnumerators (st.stack.drop n) := by
      conv_lhs => rw [← List.take_append_drop n st.stack]
      rw [stackEnumerators_append, hc.2, List.nil_append]
    apply step_of_view_eq
    simp [ParserState.view, Symbol.enumerators_of_isPlain hc.1.2, hsame]
  | setPack pack =>
    simp only [parserStep] at h
    split_ifs at h
    obtain rfl := Option.some.inj h
    exact Ownership.Step.keep st.view
  | beginLocal =>
    simp only [parserStep] at h
    split_ifs at h
    obtain rfl := Option.some.inj h
    exact Ownership.Step.keep st.view
  | endLocal =>
    simp only [parserStep] at h
    split_ifs at h
    obtain rfl := Option.some.inj h
    exact Ownership.Step.keep st.view
  | accept =>
    simp only [parserStep] at h
    split_ifs at h with hc
    obtain rfl := Option.some.inj h
    simp only [Bool.and_eq_true, decide_eq_true_eq] at hc
    apply step_of_view_eq
    simp [ParserState.view, hc.2, Symbol.enumerators]
  | error =>
    simp only [parserStep] at h
    split_ifs at h
    obtain rfl := Option.some.inj h
    exact destroyStack_step st
  | restart =>
    simp only [parserStep] at h
    split_ifs at h
    obtain rfl := Option.some.inj h
    exact Ownership.Step.keep st.view

end

end ConvertBinaryC
