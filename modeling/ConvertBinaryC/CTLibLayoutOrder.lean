import ConvertBinaryC.CTLibLayoutWalk

/-! The order in which `update_parse_info` lays out the compounds. -/
namespace ConvertBinaryC
open FoldRules

/-- The compounds that have to be laid out for an object to have a size. -/
inductive Holds (heap : Heap) : TypeNode → ℕ → Prop where
  | struct (s : ℕ) : Holds heap (.struct s) s
  | typedef (t : ℕ) (n : TypeNode) (s : ℕ) :
    (heap.typedefAt t).member.node = some n → Holds heap n s → Holds heap (.typedef t) s

/-- The order lists every compound after the compounds that its members hold. -/
def NestedFirst (heap : Heap) (order : List ℕ) : Prop :=
  ∀ before s after, order = before ++ s :: after → ∀ m ∈ (heap.structAt s).members,
    ∀ n, m.node = some n → ∀ t, Holds heap n t → (heap.structAt t).declarations.isSome →
      t ∈ before

/-- Both walks fail, or both lay out every compound of the order in the same way: the
alignment and the size and all that is recorded in its declarators. -/
structure SameLayouts (order : List ℕ) (walk walk' : Call LayoutState) : Prop where
  related : Related (fun st st' => ∀ s ∈ order, st.heap.structAt s = st'.heap.structAt s)
    walk walk'

/-- Two walks differ if they give a compound different sizes. -/
theorem not_sameLayouts {order : List ℕ} {walk walk' : Call LayoutState} {s : ℕ}
    (hs : s ∈ order)
    (hsize : walk.toOption.map (fun st => (st.heap.structAt s).size) ≠
      walk'.toOption.map fun st => (st.heap.structAt s).size) :
    ¬SameLayouts order walk walk' := by
  intro h
  exact not_related (fun _ _ hst => congrArg Struct.size (hst s hs)) hsize h.related

section NestedFirst
variable (arch : NativeArch) (pLP : LayoutParam) {heap : Heap} (bl : BitfieldLayouter)

/-- Nothing is laid out on demand if all that the member holds has been laid out. -/
theorem visitType_of_held (fuel : ℕ) {seen : List ℕ} {m : Member}
    (h : ∀ n, m.node = some n → ∀ t, Holds heap n t → (heap.structAt t).declarations.isSome →
      t ∈ seen) :
    visitType heap fuel seen m = [] ∧ HarmlessType arch pLP heap bl fuel seen m := by
  induction fuel generalizing m with
  | zero => exact ⟨rfl, trivial⟩
  | succ fuel ih =>
    rw [visitType, HarmlessType]
    cases hnode : m.node with
    | none => exact ⟨rfl, trivial⟩
    | some n =>
      cases n with
      | typedef t => exact ih fun n hn u hu => h _ hnode u (.typedef t n u hn hu)
      | struct s =>
        have hs (hbody : (heap.structAt s).declarations.isSome) : s ∈ seen :=
          h _ hnode s (.struct s) hbody
        exact ⟨if_neg fun hcond => hcond.2 (hs hcond.1), fun hcond =>
          absurd (hs hcond.1) hcond.2⟩

theorem visitMembers_of_held (fuel : ℕ) (outer : Struct) {seen : List ℕ} {ms : List Member}
    (h : ∀ m ∈ ms, ∀ n, m.node = some n → ∀ t, Holds heap n t →
      (heap.structAt t).declarations.isSome → t ∈ seen) (in_bitfield : Bool) :
    visitMembers (visitType heap fuel) seen ms = [] ∧
      HarmlessMembers arch pLP heap bl (visitType heap fuel) (HarmlessType arch pLP heap bl fuel)
        outer in_bitfield seen ms := by
  induction ms generalizing in_bitfield with
  | nil => exact ⟨rfl, trivial⟩
  | cons m ms ih =>
    obtain ⟨hvisit, hharmless⟩ :=
      visitType_of_held arch pLP bl fuel (h m List.mem_cons_self)
    have hrest := ih (fun m' hm' => h m' (List.mem_cons_of_mem _ hm'))
      (m.isBitfield && decide (outer.kind = .struct))
    rw [visitMembers, HarmlessMembers, hvisit, List.nil_append, List.append_nil]
    refine ⟨hrest.1, hharmless, ⟨?_, ?_⟩, hrest.2⟩
    · exact fun _ _ t ht => absurd ht List.not_mem_nil
    · intro _ _ t ht
      cases ht

/-- In an order that lists nested compounds first no layout starts on demand. -/
theorem harmless_of_nestedFirst (fuel : ℕ) (order : List ℕ) {seen before : List ℕ}
    (hseen : ∀ t ∈ before, (heap.structAt t).declarations.isSome → t ∈ seen)
    (h : NestedFirst heap (before ++ order)) :
    HarmlessOrder arch pLP heap bl (fuel + 1) seen order := by
  induction order generalizing seen before with
  | nil => trivial
  | cons s ss ih =>
    have hrest : NestedFirst heap ((before ++ [s]) ++ ss) := by
      rwa [List.append_assoc, List.singleton_append]
    have hheld := visitMembers_of_held arch pLP bl fuel (heap.structAt s)
      (fun m hm n hn t ht hbody =>
        List.mem_append_left [s] (hseen t (h before s ss rfl m hm n hn t ht hbody) hbody)) false
    rw [HarmlessOrder]
    split_ifs with hs
    · refine ⟨hheld.2, ih ?_ hrest⟩
      intro t ht hbody
      rw [visitStruct, hheld.1]
      rcases List.mem_append.mp ht with ht | ht
      · exact List.mem_append_left _ (hseen t ht hbody)
      · exact List.mem_append_right _ ht
    · apply ih _ hrest
      intro t ht hbody
      rcases List.mem_append.mp ht with ht | ht
      · exact hseen t ht hbody
      · rw [List.mem_singleton] at ht
        subst ht
        by_contra hmem
        exact hs ⟨hbody, hmem⟩

end NestedFirst

section Order
variable {arch : NativeArch} {pLP : LayoutParam} {heap : Heap} {tr : TypeRank heap}
  {bl : BitfieldLayouter} (hfresh : ∀ t, (heap.structAt t).align = 0)
include hfresh

/-- The walk of `update_parse_info` settles every compound, and it fails only if some
compound has no layout. -/
theorem updateStructs_related {fuel : ℕ} (order : List ℕ) {seen : List ℕ} (st : LayoutState)
    (hfuel : ∀ s ∈ order, 2 * tr.rank (.struct s) + 2 ≤ fuel)
    (hwalk : ∀ r, WalkRel arch pLP tr bl seen r st.heap)
    (hblank : st.bl.blc.blank = bl.blc.blank)
    (hharmless : HarmlessOrder arch pLP heap bl fuel seen order) :
    Related (fun st' _ => st'.bl.blc.blank = bl.blc.blank ∧ ∃ seen', seen ⊆ seen' ∧
        (∀ s ∈ order, (heap.structAt s).declarations.isSome → s ∈ seen') ∧
        ∀ r, WalkRel arch pLP tr bl seen' r st'.heap)
      (updateStructs arch pLP fuel st order)
      (order.mapM (referenceStruct arch pLP tr bl)) := by
  induction order generalizing seen st with
  | nil => exact ⟨hblank, seen, List.Subset.refl _, fun s hs => absurd hs List.not_mem_nil, hwalk⟩
  | cons s ss ih =>
    have hfuel' : ∀ t ∈ ss, 2 * tr.rank (.struct t) + 2 ≤ fuel := fun t ht =>
      hfuel t (List.mem_cons_of_mem _ ht)
    rw [HarmlessOrder] at hharmless
    rw [updateStructs, List.foldlM_cons, List.mapM_cons]
    -- the rest of the walk, from a point where `s` has been seen or has no body
    have hrest {seen₁ : List ℕ} {st₁ : LayoutState} (hsub : seen ⊆ seen₁)
        (hwalk₁ : ∀ r, WalkRel arch pLP tr bl seen₁ r st₁.heap)
        (hblank₁ : st₁.bl.blc.blank = bl.blc.blank)
        (hharmless₁ : HarmlessOrder arch pLP heap bl fuel seen₁ ss)
        (hs : (heap.structAt s).declarations.isSome → s ∈ seen₁) (p : Struct) :
        Related (fun st' _ => st'.bl.blc.blank = bl.blc.blank ∧ ∃ seen', seen ⊆ seen' ∧
            (∀ t ∈ s :: ss, (heap.structAt t).declarations.isSome → t ∈ seen') ∧
            ∀ r, WalkRel arch pLP tr bl seen' r st'.heap)
          (updateStructs arch pLP fuel st₁ ss)
          (ss.mapM (referenceStruct arch pLP tr bl) >>= fun ps => pure (p :: ps)) := by
      have h := (ih st₁ hfuel' hwalk₁ hblank₁ hharmless₁).bind (f := .ok) (g := fun ps => .ok (p :: ps))
        (S := fun st' _ => st'.bl.blc.blank = bl.blc.blank ∧ ∃ seen', seen ⊆ seen' ∧
            (∀ t ∈ s :: ss, (heap.structAt t).declarations.isSome → t ∈ seen') ∧
            ∀ r, WalkRel arch pLP tr bl seen' r st'.heap) (by
          rintro st' ps ⟨hb, seen', hsub', hall, hw⟩
          refine ⟨hb, seen', List.Subset.trans hsub hsub', ?_, hw⟩
          intro t ht hbody
          rcases List.mem_cons.mp ht with rfl | ht
          · exact hsub' (hs hbody)
          · exact hall t ht hbody)
      rw [← bind_pure (updateStructs arch pLP fuel st₁ ss)]
      exact h
    by_cases hbody : (heap.structAt s).declarations.isSome
    · by_cases hs : s ∈ seen
      · -- laid out on demand or earlier in the walk
        have hsettled := (hwalk (tr.rank (.struct s) + 1)).settled s hs (Nat.lt_succ_self _)
        rw [if_neg fun h => h.2 hs] at hharmless
        rw [if_neg hsettled.align, hsettled.reference]
        exact hrest (List.Subset.refl _) hwalk hblank hharmless (fun _ => hs) _
      · rw [if_pos ⟨hbody, hs⟩] at hharmless
        have hsame := (hwalk 0).fresh s hs
        rw [if_pos (hsame ▸ hfresh s)]
        apply ((layout_related hfresh fuel).2 seen s st (hfuel s List.mem_cons_self) hs hbody
          (hwalk _) hblank hharmless.1).bind
        intro st₁ p hv
        have hmem : s ∈ visitStruct heap fuel seen s := by
          have := hfuel s List.mem_cons_self
          obtain ⟨n, rfl⟩ : ∃ n, fuel = n + 1 := ⟨fuel - 1, by omega⟩
          exact List.mem_cons_self
        exact hrest (List.subset_append_left _ _) (fun r => (hwalk r).visited hv)
          (hv.blank.trans hblank) hharmless.2 (fun _ => List.mem_append_right _ hmem) _
    · rw [if_neg fun h => hbody h.1] at hharmless
      have hnone : (heap.structAt s).declarations = none := by simpa using hbody
      have hs : s ∉ seen := by
        intro hs
        have hsettled := (hwalk (tr.rank (.struct s) + 1)).settled s hs (Nat.lt_succ_self _)
        have href := hsettled.reference
        rw [referenceStruct_of_none hnone, Except.ok.injEq] at href
        exact hsettled.align (href ▸ hfresh s)
      have hsame := (hwalk 0).fresh s hs
      have hlayout : layoutCompound arch pLP fuel st s = .ok st := by
        have := hfuel s List.mem_cons_self
        obtain ⟨n, rfl⟩ : ∃ n, fuel = n + 1 := ⟨fuel - 1, by omega⟩
        simp only [layoutCompound, layoutStruct, hsame, hnone, call_bind_apply]
        rw [← hsame, Heap.setStruct_structAt]
      rw [if_pos (hsame ▸ hfresh s), hlayout, referenceStruct_of_none hnone]
      exact hrest (List.Subset.refl _) hwalk hblank hharmless (fun h => absurd h hbody) _

variable (tr) in
/-- After a harmless walk every compound is laid out like its reference. -/
theorem updateStructs_reference {fuel : ℕ} {order : List ℕ} {st : LayoutState}
    (hfuel : ∀ s ∈ order, 2 * tr.rank (.struct s) + 2 ≤ fuel)
    (hharmless : HarmlessOrder arch pLP heap bl fuel [] order)
    (hst : updateStructs arch pLP fuel ⟨heap, bl⟩ order = .ok st) (s : ℕ) (hs : s ∈ order) :
    referenceStruct arch pLP tr bl s = .ok (st.heap.structAt s) := by
  have hstart : ∀ r, WalkRel arch pLP tr bl [] r heap := fun r =>
    ⟨rfl, rfl, fun t ht => absurd ht List.not_mem_nil, fun _ _ => rfl⟩
  have h := updateStructs_related hfresh order ⟨heap, bl⟩ hfuel hstart rfl hharmless
  rw [hst] at h
  obtain ⟨ps, -, -, seen, -, hseen, hwalk⟩ := h.ok_left
  exact WalkRel.reference hwalk (hseen s hs)

/-- Two harmless walks over the same compounds agree on every compound. -/
theorem updateStructs_agree {fuel : ℕ} {order order' : List ℕ} (hperm : order.Perm order')
    (hfuel : ∀ s ∈ order, 2 * tr.rank (.struct s) + 2 ≤ fuel)
    (hharmless : HarmlessOrder arch pLP heap bl fuel [] order)
    (hharmless' : HarmlessOrder arch pLP heap bl fuel [] order') :
    SameLayouts order (updateStructs arch pLP fuel ⟨heap, bl⟩ order)
      (updateStructs arch pLP fuel ⟨heap, bl⟩ order') := by
  have hstart : ∀ r, WalkRel arch pLP tr bl [] r heap := fun r =>
    ⟨rfl, rfl, fun t ht => absurd ht List.not_mem_nil, fun _ _ => rfl⟩
  have h := updateStructs_related hfresh order ⟨heap, bl⟩ hfuel hstart rfl hharmless
  have hfuel' : ∀ s ∈ order', 2 * tr.rank (.struct s) + 2 ≤ fuel := fun s hs =>
    hfuel s (hperm.mem_iff.mpr hs)
  have h' := updateStructs_related hfresh order' ⟨heap, bl⟩ hfuel' hstart rfl hharmless'
  have hiff : (∃ ps, order.mapM (referenceStruct arch pLP tr bl) = .ok ps) ↔
      ∃ ps, order'.mapM (referenceStruct arch pLP tr bl) = .ok ps := by
    rw [mapM_ok_iff, mapM_ok_iff]
    exact forall_congr' fun s => imp_congr_left hperm.mem_iff
  refine ⟨Related.of_ok_iff ((h.ok_iff.trans hiff).trans h'.ok_iff.symm) ?_⟩
  intro st st' hst hst' s hs
  exact Except.ok.inj ((updateStructs_reference tr hfresh hfuel hharmless hst s hs).symm.trans
    (updateStructs_reference tr hfresh hfuel' hharmless' hst' s (hperm.mem_iff.mp hs)))

variable (tr) in
/-- The order of the layouts does not matter as long as no layout that starts on demand
disturbs the one that it starts in: every compound is then laid out as in an order that
lists nested compounds first. -/
theorem layout_order_independent {fuel : ℕ} {order order' : List ℕ} (hperm : order.Perm order')
    (hfuel : ∀ s ∈ order, 2 * tr.rank (.struct s) + 2 ≤ fuel)
    (hnested : NestedFirst heap order')
    (hharmless : HarmlessOrder arch pLP heap bl fuel [] order) :
    SameLayouts order (updateStructs arch pLP fuel ⟨heap, bl⟩ order)
      (updateStructs arch pLP fuel ⟨heap, bl⟩ order') := by
  apply updateStructs_agree hfresh hperm hfuel hharmless
  cases fuel with
  | zero =>
    have hnil : order' = [] := by
      rw [List.eq_nil_iff_forall_not_mem]
      intro s hs
      have := hfuel s (hperm.mem_iff.mpr hs)
      omega
    subst hnil
    trivial
  | succ fuel =>
    have hseen (t : ℕ) (ht : t ∈ ([] : List ℕ)) :
        (heap.structAt t).declarations.isSome → t ∈ ([] : List ℕ) :=
      absurd ht List.not_mem_nil
    exact harmless_of_nestedFirst arch pLP bl fuel order' hseen hnested

end Order

/-- A machine with 64 bit pointers. -/
def lp64 : NativeArch where
  char_size := 1
  int_size := 4
  short_size := 2
  long_size := 8
  long_long_size := 8
  ptr_size := 8
  float_size := 4
  double_size := 8
  long_double_size := 16
  alignment := 8
  compound_alignment := 1

/-- Native sizes and alignment 4. -/
def alignment4 : LayoutParam :=
  ⟨4, 1, 0, 0, 0, 0, 0, 4, 0, 0, 0, 0, .littleEndian⟩

def bitfieldDecl (identifier : String) (bits : ℤ) : Declarator :=
  { declNew identifier with ext := .bitfield { size := 0, bits := bits, pos := 0 } }

def declaration (type : TypeSpec) (declarators : List Declarator) : StructDeclaration :=
  ⟨type, some declarators, 0, 0⟩

def structOf (identifier : String) (declarations : List StructDeclaration) : Struct :=
  structNew identifier .struct 0 ⟨"order.h", 1⟩ (some declarations)

/-- `struct inner { int p; int q : 5; }` -/
def innerStruct : Struct :=
  structOf "inner" [declaration (.basic T_INT) [declNew "p"],
    declaration (.basic T_INT) [bitfieldDecl "q" 5]]

/-- A heap with `outer` at 0 and `inner` everywhere else. -/
def outerHeap (outer : Struct) : Heap where
  structAt s := if s = 0 then outer else innerStruct
  enumAt _ := ⟨0, false, false, 4, 4, ⟨"order.h", 1⟩, none, .empty, ""⟩
  typedefAt _ := ⟨.basic T_INT, declNew ""⟩

def outerRank (outer : Struct)
    (h : ∀ m ∈ outer.members, ∀ n, m.node = some n → n = .struct 1) :
    TypeRank (outerHeap outer) where
  rank n := if n = .struct 0 then 1 else 0
  struct_lt := by
    intro s m hm n hn
    by_cases hs : s = 0
    · subst hs
      rw [h m hm n hn]
      decide
    · have hinner : (outerHeap outer).structAt s = innerStruct := if_neg hs
      rw [hinner] at hm
      simp only [Struct.members, innerStruct, structOf, structNew, declaration,
        StructDeclaration.members, Option.getD_some, List.flatMap_cons, List.flatMap_nil,
        List.map_cons, List.map_nil, List.append_nil, List.cons_append, List.nil_append,
        List.mem_cons, List.not_mem_nil, or_false] at hm
      rcases hm with rfl | rfl <;> cases hn
  typedef_lt := by
    intro t n hn
    cases hn

theorem outerHeap_nestedFirst (outer : Struct)
    (h : ∀ m ∈ outer.members, ∀ n, m.node = some n → n = .struct 1) :
    NestedFirst (outerHeap outer) [1, 0] := by
  intro before s after heq m hm n hn t ht _
  match before with
  | [] =>
    obtain ⟨rfl, -⟩ := List.cons.inj heq
    have := (outerRank outer h).struct_lt 1 m hm n hn
    exact absurd this (Nat.not_lt_zero _)
  | [_] =>
    obtain ⟨hb, htail⟩ := List.cons.inj heq
    obtain ⟨rfl, -⟩ := List.cons.inj htail
    subst hb
    cases h m hm n hn
    cases ht
    exact List.mem_singleton_self 1
  | _ :: _ :: before => simp at heq

/-- `struct outer { int a : 3; struct inner x; }` -/
def interruptedOuter : Struct :=
  structOf "outer" [declaration (.basic T_INT) [bitfieldDecl "a" 3],
    declaration (.compound .struct 1) [declNew "x"]]

/-- `struct outer { struct inner x; int a : 3; }` -/
def leadingOuter : Struct :=
  structOf "outer" [declaration (.compound .struct 1) [declNew "x"],
    declaration (.basic T_INT) [bitfieldDecl "a" 3]]

theorem interruptedOuter_nodes :
    ∀ m ∈ interruptedOuter.members, ∀ n, m.node = some n → n = .struct 1 := by
  intro m hm n hn
  have hm' : m = ⟨.basic T_INT, some (bitfieldDecl "a" 3)⟩ ∨
      m = ⟨.compound .struct 1, some (declNew "x")⟩ := by
    simpa [interruptedOuter, structOf, structNew, declaration, Struct.members,
      StructDeclaration.members] using hm
  rcases hm' with rfl | rfl
  · cases hn
  · exact (Option.some.inj hn).symm

theorem leadingOuter_nodes :
    ∀ m ∈ leadingOuter.members, ∀ n, m.node = some n → n = .struct 1 := by
  intro m hm n hn
  have hm' : m = ⟨.compound .struct 1, some (declNew "x")⟩ ∨
      m = ⟨.basic T_INT, some (bitfieldDecl "a" 3)⟩ := by
    simpa [leadingOuter, structOf, structNew, declaration, Struct.members,
      StructDeclaration.members] using hm
  rcases hm' with rfl | rfl
  · exact (Option.some.inj hn).symm
  · cases hn

/-- The run of bit-fields before `x` ends where the layout of `inner` left the
layouter, behind `q` instead of behind `a`. -/
theorem layout_depends_on_order :
    NestedFirst (outerHeap interruptedOuter) [1, 0] ∧ [0, 1].Perm [1, 0] ∧
      ¬SameLayouts [0, 1]
        (updateStructs lp64 alignment4 4 ⟨outerHeap interruptedOuter, blCreateGeneric⟩ [0, 1])
        (updateStructs lp64 alignment4 4 ⟨outerHeap interruptedOuter, blCreateGeneric⟩ [1, 0]) := by
  refine ⟨outerHeap_nestedFirst _ interruptedOuter_nodes, List.Perm.swap 1 0 [], ?_⟩
  exact not_sameLayouts (s := 0) List.mem_cons_self (by decide +kernel)

theorem leadingOuter_harmless :
    HarmlessOrder lp64 alignment4 (outerHeap leadingOuter) blCreateGeneric 4 [] [0, 1] := by
  simp [HarmlessOrder, HarmlessStruct, HarmlessMembers, HarmlessType, Undisturbed, visitStruct,
    visitMembers, visitType, outerHeap, leadingOuter, innerStruct, structOf, structNew,
    declaration, Struct.members, StructDeclaration.members, Member.node, Member.isBitfield,
    declNew, bitfieldDecl, structAlignment]

theorem layout_order_independent_leadingOuter :
    SameLayouts [0, 1]
      (updateStructs lp64 alignment4 4 ⟨outerHeap leadingOuter, blCreateGeneric⟩ [0, 1])
      (updateStructs lp64 alignment4 4 ⟨outerHeap leadingOuter, blCreateGeneric⟩ [1, 0]) := by
  have hfresh (t : ℕ) : ((outerHeap leadingOuter).structAt t).align = 0 := by
    by_cases ht : t = 0
    · subst ht
      rfl
    · exact congrArg Struct.align (if_neg ht)
  have hfuel : ∀ s ∈ [0, 1],
      2 * (outerRank leadingOuter leadingOuter_nodes).rank (.struct s) + 2 ≤ 4 := by
    decide
  exact layout_order_independent (outerRank leadingOuter leadingOuter_nodes) hfresh
    (List.Perm.swap 1 0 []) hfuel (outerHeap_nestedFirst leadingOuter leadingOuter_nodes)
    leadingOuter_harmless

end ConvertBinaryC
