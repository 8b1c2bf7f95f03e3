import ConvertBinaryC.CBCClonePack

/-! The layout of a clone. It goes through the compounds and the typedefs of the clone as that of the
source goes through those of the source, and both stay copies. -/
namespace ConvertBinaryC
open CarryRules FoldRules

section Copies
variable {ρ : ParserObject → ℕ} {heap heap' : Heap} {Listed : ParserObject → Prop}

/-- Listed compounds have different copies, and so have listed typedefs. -/
structure CopiesApart (ρ : ParserObject → ℕ) (Listed : ParserObject → Prop) : Prop where
  struct : ∀ s s', Listed (.struct s) → Listed (.struct s') → ρ (.struct s) = ρ (.struct s') → s = s'
  typedef : ∀ t t', Listed (.typedef t) → Listed (.typedef t') →
    ρ (.typedef t) = ρ (.typedef t') → t = t'

theorem Heap.Copies.setStruct (hcopies : heap.Copies ρ heap' Listed) (hapart : CopiesApart ρ Listed) {s : ℕ}
    (hs : Listed (.struct s)) {v : Struct} (hv : ∀ sd ∈ v.declarations.getD [],
      ∀ o, sd.type.object = some o → Listed o) :
    (heap.setStruct s v).Copies ρ (heap'.setStruct (ρ (.struct s)) (v.rename ρ)) Listed where
  enum := hcopies.enum
  struct s' hs' := by
    by_cases heq : s' = s
    · rw [heq, Heap.setStruct_self, Heap.setStruct_self]
    -- Another compound has another copy, so neither update touches it.
    · have hne : ρ (.struct s') ≠ ρ (.struct s) := fun h => heq (hapart.struct s' s hs' hs h)
      have hold : (heap.setStruct s v).structAt s' = heap.structAt s' := Function.update_of_ne heq ..
      have hold' : (heap'.setStruct (ρ (.struct s)) (v.rename ρ)).structAt (ρ (.struct s')) =
          heap'.structAt (ρ (.struct s')) := Function.update_of_ne hne ..
      rw [hold, hold', hcopies.struct s' hs']
  typedef := hcopies.typedef
  member_object s' hs' := by
    by_cases heq : s' = s
    · rw [heq, Heap.setStruct_self]
      exact hv
    · have hold : (heap.setStruct s v).structAt s' = heap.structAt s' := Function.update_of_ne heq ..
      rw [hold]
      exact hcopies.member_object s' hs'
  type_object := hcopies.type_object

theorem Heap.Copies.setTypedef (hcopies : heap.Copies ρ heap' Listed) (hapart : CopiesApart ρ Listed) {t : ℕ}
    (ht : Listed (.typedef t)) {v : Typedef} (hv : ∀ o, v.type.object = some o → Listed o) :
    (heap.setTypedef t v).Copies ρ (heap'.setTypedef (ρ (.typedef t)) (v.rename ρ)) Listed where
  enum := hcopies.enum
  struct := hcopies.struct
  typedef t' ht' := by
    by_cases heq : t' = t
    · have hnew : (heap.setTypedef t v).typedefAt t = v := Function.update_self ..
      rw [heq, hnew]
      exact Function.update_self ..
    · have hne : ρ (.typedef t') ≠ ρ (.typedef t) := fun h => heq (hapart.typedef t' t ht' ht h)
      have hold : (heap.setTypedef t v).typedefAt t' = heap.typedefAt t' := Function.update_of_ne heq ..
      have hold' : (heap'.setTypedef (ρ (.typedef t)) (v.rename ρ)).typedefAt (ρ (.typedef t')) =
          heap'.typedefAt (ρ (.typedef t')) := Function.update_of_ne hne ..
      rw [hold, hold', hcopies.typedef t' ht']
  member_object := hcopies.member_object
  type_object t' ht' := by
    by_cases heq : t' = t
    · have hnew : (heap.setTypedef t v).typedefAt t = v := Function.update_self ..
      rw [heq, hnew]
      exact hv
    · have hold : (heap.setTypedef t v).typedefAt t' = heap.typedefAt t' := Function.update_of_ne heq ..
      rw [hold]
      exact hcopies.type_object t' ht'

end Copies

section Members
variable (ρ : ParserObject → ℕ) (Listed : ParserObject → Prop)

/-- The heaps are copies, and all that is computed beside them is the same. -/
def SameBeside {α : Type} (p q : Heap × α) : Prop :=
  p.1.Copies ρ q.1 Listed ∧ q.2 = p.2

/-- A query about a listed type, and the query about its copy. -/
def QueriesAlike (query query' : TypeQuery Heap) : Prop :=
  ∀ heap heap' f type pDecl, heap.Copies ρ heap' Listed → (∀ o, type.object = some o → Listed o) →
    Alike (SameBeside ρ Listed) (query heap f type pDecl) (query' heap' f (type.rename ρ) pDecl)

/-- The states of two layouts. -/
structure StatesAlike (st st' : LayoutState) : Prop where
  heap : st.heap.Copies ρ st'.heap Listed
  bl : st'.bl = st.bl

variable {ρ Listed} {query query' : TypeQuery Heap} (hquery : QueriesAlike ρ Listed query query')
  (kind : CompoundKind) (alignment : ℤ)
include hquery

theorem queryDeclarator_alike {type : TypeSpec} (hlisted : ∀ o, type.object = some o → Listed o)
    {acc acc' : Heap × Frame × ℤ} (hacc : SameBeside ρ Listed acc acc') (pDecl : Declarator) :
    Alike (fun p q => SameBeside ρ Listed p.1 q.1 ∧ q.2 = id p.2 ∧ True)
      (queryDeclarator query kind alignment type acc pDecl)
      (queryDeclarator query' kind alignment (type.rename ρ) acc' pDecl) := by
  obtain ⟨heap, f, offset⟩ := acc
  obtain ⟨heap', rest⟩ := acc'
  obtain ⟨hcopies, hrest⟩ := hacc
  cases hrest
  apply (hquery heap heap' f type (some pDecl) hcopies hlisted).bind
  rintro ⟨heap, bl, info⟩ ⟨heap', rest⟩ ⟨hcopies, hrest⟩
  cases hrest
  apply alike_bind_self
  rintro ⟨⟨f, offset⟩, pDecl⟩
  exact .ok ⟨⟨hcopies, rfl⟩, rfl, trivial⟩

theorem queryUnnamed_alike {type : TypeSpec} (hlisted : ∀ o, type.object = some o → Listed o)
    {acc acc' : Heap × Frame × ℤ} (hacc : SameBeside ρ Listed acc acc') :
    Alike (SameBeside ρ Listed) (queryUnnamed query kind alignment type acc)
      (queryUnnamed query' kind alignment (type.rename ρ) acc') := by
  obtain ⟨heap, f, offset⟩ := acc
  obtain ⟨heap', rest⟩ := acc'
  obtain ⟨hcopies, hrest⟩ := hacc
  cases hrest
  apply (hquery heap heap' _ type none hcopies hlisted).bind
  rintro ⟨heap, bl, info⟩ ⟨heap', rest⟩ ⟨hcopies, hrest⟩
  cases hrest
  apply alike_bind_self
  rintro ⟨pos, f⟩
  exact .ok ⟨hcopies, rfl⟩

theorem queryMembers_alike {sd : StructDeclaration} (hlisted : ∀ o, sd.type.object = some o → Listed o)
    {acc acc' : Heap × Frame × ℤ} (hacc : SameBeside ρ Listed acc acc') :
    Alike (fun p q => SameBeside ρ Listed p.1 q.1 ∧ q.2 = p.2)
      (queryMembers query kind alignment sd acc)
      (queryMembers query' kind alignment (sd.rename ρ) acc') := by
  unfold queryMembers StructDeclaration.rename
  dsimp only
  cases sd.declarators with
  | none =>
    apply (queryUnnamed_alike hquery kind alignment hlisted hacc).bind
    intro acc acc' hacc
    exact .ok ⟨hacc, rfl⟩
  | some declarators =>
    have hloop := alike_mapAccumM (R := SameBeside ρ Listed) (k := id) (g := id) (Q := fun _ => True)
      (l := declarators)
      (fun acc acc' pDecl _ hacc => queryDeclarator_alike hquery kind alignment hlisted hacc pDecl) hacc
    -- Declarators name no type: the clone has the same ones.
    rw [List.map_id] at hloop
    apply hloop.bind
    rintro ⟨acc, list⟩ ⟨acc', list'⟩ ⟨hacc, hlist, -⟩
    rw [List.map_id] at hlist
    exact .ok ⟨hacc, congrArg some hlist⟩

theorem layoutDeclaration_alike {sd : StructDeclaration}
    (hlisted : ∀ o, sd.type.object = some o → Listed o) {acc acc' : Heap × Frame}
    (hacc : SameBeside ρ Listed acc acc') :
    Alike (fun p q => SameBeside ρ Listed p.1 q.1 ∧ q.2 = p.2.rename ρ ∧
        ∀ o, p.2.type.object = some o → Listed o)
      (layoutDeclaration query kind alignment acc sd)
      (layoutDeclaration query' kind alignment acc' (sd.rename ρ)) := by
  obtain ⟨heap, f⟩ := acc
  obtain ⟨heap', f'⟩ := acc'
  obtain ⟨hcopies, hf⟩ := hacc
  cases hf
  have hstart : ∀ start : ℤ, SameBeside ρ Listed (heap, f, start) (heap', f, start) :=
    fun _ => ⟨hcopies, rfl⟩
  unfold layoutDeclaration
  apply (queryMembers_alike hquery kind alignment hlisted (hstart _)).bind
  rintro ⟨⟨heap, f, offset⟩, list⟩ ⟨⟨heap', rest⟩, list'⟩ ⟨⟨hcopies, hrest⟩, hlist⟩
  cases hrest
  cases hlist
  exact .ok ⟨⟨hcopies, rfl⟩, rfl, hlisted⟩

theorem layoutStruct_alike (arch : NativeArch) (pLP : LayoutParam) {heap heap' : Heap}
    (hcopies : heap.Copies ρ heap' Listed) (bl : BitfieldLayouter) {pStruct : Struct}
    (hlisted : ∀ sd ∈ pStruct.declarations.getD [], ∀ o, sd.type.object = some o → Listed o) :
    Alike (fun p q => p.1.Copies ρ q.1 Listed ∧ q.2.1 = p.2.1 ∧ q.2.2 = p.2.2.rename ρ ∧
        ∀ sd ∈ p.2.2.declarations.getD [], ∀ o, sd.type.object = some o → Listed o)
      (layoutStruct arch pLP query heap bl pStruct)
      (layoutStruct arch pLP query' heap' bl (pStruct.rename ρ)) := by
  unfold layoutStruct
  cases hlist : pStruct.declarations with
  | none =>
    have hlist' : (pStruct.rename ρ).declarations = none := congrArg (Option.map _) hlist
    rw [hlist']
    exact .ok ⟨hcopies, rfl, rfl, hlisted⟩
  | some declarations =>
    have hlist' : (pStruct.rename ρ).declarations =
        some (declarations.map (StructDeclaration.rename ρ)) := congrArg (Option.map _) hlist
    rw [hlist, Option.getD_some] at hlisted
    rw [hlist']
    have hstart : SameBeside ρ Listed (heap, initialFrame arch pLP bl pStruct)
        (heap', initialFrame arch pLP bl pStruct) := ⟨hcopies, rfl⟩
    have hloop := alike_mapAccumM (R := SameBeside ρ Listed)
      (k := StructDeclaration.rename ρ) (g := StructDeclaration.rename ρ)
      (Q := fun sd => ∀ o, sd.type.object = some o → Listed o) (l := declarations)
      (fun acc acc' sd hsd hacc => layoutDeclaration_alike hquery pStruct.kind
        (structAlignment arch pLP pStruct) (hlisted sd hsd) hacc) hstart
    apply hloop.bind
    rintro ⟨⟨heap, f⟩, list⟩ ⟨⟨heap', f'⟩, list'⟩ ⟨⟨hcopies, hf⟩, hlist, hmembers⟩
    cases hf
    cases hlist
    unfold finishStruct
    dsimp only
    split_ifs
    · exact .error _
    · exact .ok ⟨hcopies, rfl, rfl, hmembers⟩

end Members

section Recursion
variable {ρ : ParserObject → ℕ} {Listed : ParserObject → Prop} (hapart : CopiesApart ρ Listed)
  (arch : NativeArch) (pLP : LayoutParam)

theorem structInfo_rename (s : Struct) : structInfo arch pLP (s.rename ρ) = structInfo arch pLP s := by
  unfold structInfo Struct.rename
  cases s.declarations with
  | none => rfl
  | some list => rfl

def TypeInfoAlike (ρ : ParserObject → ℕ) (Listed : ParserObject → Prop) (arch : NativeArch)
    (pLP : LayoutParam) (fuel : ℕ) : Prop :=
  ∀ st st' type pDecl, StatesAlike ρ Listed st st' → (∀ o, type.object = some o → Listed o) →
    Alike (fun p q => StatesAlike ρ Listed p.1 q.1 ∧ q.2 = p.2) (getTypeInfo arch pLP fuel st type pDecl)
      (getTypeInfo arch pLP fuel st' (type.rename ρ) pDecl)

def CompoundAlike (ρ : ParserObject → ℕ) (Listed : ParserObject → Prop) (arch : NativeArch)
    (pLP : LayoutParam) (fuel : ℕ) : Prop :=
  ∀ st st' s, StatesAlike ρ Listed st st' → Listed (.struct s) →
    Alike (StatesAlike ρ Listed) (layoutCompound arch pLP fuel st s)
      (layoutCompound arch pLP fuel st' (ρ (.struct s)))

include hapart in
theorem heapQuery_alike {fuel : ℕ} (h : TypeInfoAlike ρ Listed arch pLP fuel) {s : ℕ}
    (hs : Listed (.struct s)) :
    QueriesAlike ρ Listed (heapQuery (getTypeInfo arch pLP fuel) s)
      (heapQuery (getTypeInfo arch pLP fuel) (ρ (.struct s))) := by
  intro heap heap' f type pDecl hcopies hlisted
  unfold heapQuery
  have hstore : f.store (heap'.structAt (ρ (.struct s))) = (f.store (heap.structAt s)).rename ρ := by
    rw [hcopies.struct s hs]
    rfl
  rw [hstore]
  have hset := hcopies.setStruct hapart hs (v := f.store (heap.structAt s))
    (hcopies.member_object s hs)
  have hst : StatesAlike ρ Listed ⟨heap.setStruct s (f.store (heap.structAt s)), f.bl⟩
      ⟨heap'.setStruct (ρ (.struct s)) ((f.store (heap.structAt s)).rename ρ), f.bl⟩ := ⟨hset, rfl⟩
  apply (h _ _ type pDecl hst hlisted).bind
  rintro ⟨st, info⟩ ⟨st', info'⟩ ⟨hst, hinfo⟩
  cases hinfo
  refine .ok ⟨hst.heap, ?_⟩
  rw [hst.bl]

include hapart in
theorem TypeInfoAlike.compound {fuel : ℕ} (h : TypeInfoAlike ρ Listed arch pLP fuel) :
    CompoundAlike ρ Listed arch pLP (fuel + 1) := by
  intro st st' s hst hs
  unfold layoutCompound
  rw [hst.heap.struct s hs, hst.bl]
  -- The members are asked for one level down, in the heap where the frame is stored.
  apply (layoutStruct_alike (heapQuery_alike hapart arch pLP h hs) arch pLP hst.heap st.bl
    (hst.heap.member_object s hs)).bind
  rintro ⟨heap, bl, v⟩ ⟨heap', bl', v'⟩ ⟨hcopies, hbl, hv, hmembers⟩
  cases hbl
  cases hv
  exact .ok ⟨hcopies.setStruct hapart hs hmembers, rfl⟩

theorem CompoundAlike.typeInfo {fuel : ℕ} (hcompound : CompoundAlike ρ Listed arch pLP fuel)
    (h : TypeInfoAlike ρ Listed arch pLP fuel) : TypeInfoAlike ρ Listed arch pLP (fuel + 1) := by
  intro st st' type pDecl hst hlisted
  unfold getTypeInfo
  -- The element, and then the dimensions, which are those of the same declarator.
  refine Alike.bind (R := fun p q => StatesAlike ρ Listed p.1 q.1 ∧ q.2 = p.2) ?_ ?_
  · apply alike_ite
    · exact .ok ⟨hst, rfl⟩
    · cases type with
      | basic tflags => exact .ok ⟨hst, rfl⟩
      | enum pES =>
        dsimp only [TypeSpec.rename]
        rw [hst.heap.enum pES (hlisted _ rfl)]
        exact .ok ⟨hst, rfl⟩
      | typedef t =>
        dsimp only [TypeSpec.rename]
        rw [hst.heap.typedef t (hlisted _ rfl)]
        exact h st st' _ _ hst (hst.heap.type_object t (hlisted _ rfl))
      | compound kind s =>
        have hs := hlisted _ rfl
        -- A compound that has members and no alignment yet is laid out first.
        have hlaid : Alike (StatesAlike ρ Listed)
            (if (st.heap.structAt s).declarations.isSome ∧ (st.heap.structAt s).align = 0 then
              layoutCompound arch pLP fuel st s else .ok st)
            (if (st'.heap.structAt (ρ (.struct s))).declarations.isSome ∧
                (st'.heap.structAt (ρ (.struct s))).align = 0 then
              layoutCompound arch pLP fuel st' (ρ (.struct s)) else .ok st') := by
          have hsome : ((st.heap.structAt s).rename ρ).declarations.isSome =
              (st.heap.structAt s).declarations.isSome := Option.isSome_map
          rw [hst.heap.struct s hs, hsome]
          apply alike_ite
          · exact hcompound st st' s hst hs
          · exact .ok hst
        apply hlaid.bind
        intro st st' hst
        rw [hst.heap.struct s hs]
        refine .ok ⟨hst, ?_⟩
        rw [structInfo_rename]
  · rintro ⟨st, info⟩ ⟨st', info'⟩ ⟨hst, hinfo⟩
    cases hinfo
    apply alike_bind_self
    exact fun info => .ok ⟨hst, rfl⟩

include hapart in
/-- By induction on the depth of the calls. -/
theorem layouts_alike (fuel : ℕ) :
    TypeInfoAlike ρ Listed arch pLP fuel ∧ CompoundAlike ρ Listed arch pLP fuel := by
  induction fuel with
  | zero => exact ⟨fun _ _ _ _ _ _ => .error _, fun _ _ _ _ _ => .error _⟩
  | succ fuel ih => exact ⟨ih.2.typeInfo arch pLP ih.1, ih.1.compound hapart arch pLP⟩

include hapart in
theorem updateTypedef_alike (fuel : ℕ) {st st' : LayoutState} (hst : StatesAlike ρ Listed st st')
    {t : ℕ} (ht : Listed (.typedef t)) :
    Alike (StatesAlike ρ Listed) (updateTypedef arch pLP fuel st t)
      (updateTypedef arch pLP fuel st' (ρ (.typedef t))) := by
  have htype := hst.heap.type_object t ht
  unfold updateTypedef
  rw [hst.heap.typedef t ht]
  apply alike_ite
  -- A typedef is given its size once, when it is still negative.
  · apply ((layouts_alike hapart arch pLP fuel).1 st st' _ _ hst htype).bind
    rintro ⟨st, info⟩ ⟨st', info'⟩ ⟨hst, hinfo⟩
    cases hinfo
    apply alike_ite
    · exact .ok hst
    · exact .ok ⟨hst.heap.setTypedef hapart ht htype, hst.bl⟩
  · exact .ok hst

include hapart in
theorem updateParseInfo_alike (fuel : ℕ) {heap heap' : Heap} (hcopies : heap.Copies ρ heap' Listed)
    (bl : BitfieldLayouter) {enums enums' structs : List ℕ} {lists : List TypedefList}
    (hstructs : ∀ s ∈ structs, Listed (.struct s))
    (htypedefs : ∀ t ∈ lists.flatMap TypedefList.typedefs, Listed (.typedef t)) :
    Alike (fun r r' => r.1.heap.Copies ρ r'.1.heap Listed ∧ r'.2 = r.2)
      (updateParseInfo arch pLP fuel ⟨heap, enums, structs, lists⟩ bl)
      (updateParseInfo arch pLP fuel ⟨heap', enums', structs.map fun s => ρ (.struct s),
        lists.map (TypedefList.rename ρ)⟩ bl) := by
  have hflat : (lists.map (TypedefList.rename ρ)).flatMap TypedefList.typedefs =
      (lists.flatMap TypedefList.typedefs).map fun t => ρ (.typedef t) := by
    rw [List.flatMap_map, List.map_flatMap]
    rfl
  -- First the compounds, in the order of their list, then the typedefs list by list.
  have hfirst : Alike (StatesAlike ρ Listed) (updateStructs arch pLP fuel ⟨heap, bl⟩ structs)
      (updateStructs arch pLP fuel ⟨heap', bl⟩ (structs.map fun s => ρ (.struct s))) := by
    apply alike_foldlM
    · intro st st' s hs hst
      have halign : (st'.heap.structAt (ρ (.struct s))).align = (st.heap.structAt s).align := by
        rw [hst.heap.struct s (hstructs s hs)]
        rfl
      rw [halign]
      apply alike_ite
      · exact (layouts_alike hapart arch pLP fuel).2 st st' s hst (hstructs s hs)
      · exact .ok hst
    · exact ⟨hcopies, rfl⟩
  unfold updateParseInfo
  dsimp only
  rw [hflat]
  apply hfirst.bind
  intro st st' hst
  have hsecond : Alike (StatesAlike ρ Listed)
      ((lists.flatMap TypedefList.typedefs).foldlM (updateTypedef arch pLP fuel) st)
      (((lists.flatMap TypedefList.typedefs).map fun t => ρ (.typedef t)).foldlM
        (updateTypedef arch pLP fuel) st') := by
    apply alike_foldlM _ hst
    intro st st' t ht hst
    exact updateTypedef_alike hapart arch pLP fuel hst (htypedefs t ht)
  apply hsecond.bind
  intro st st' hst
  exact .ok ⟨hst.heap, hst.bl⟩

end Recursion

section Clone
variable {mem mem' : TypeMemory} {src dest : ParseTables}

/-- The part of a `CParseInfo` that is laid out. -/
def ParseTables.info (mem : TypeMemory) (cpi : ParseTables) : CParseInfo :=
  ⟨mem.heap, cpi.enums, cpi.structs, cpi.typedef_lists⟩

theorem cloneAddress_apart : CopiesApart (src.cloneAddress mem) (src.Lists mem) where
  struct s s' hs _ heq := by
    have hidx : src.structs.idxOf s = src.structs.idxOf s' := Nat.add_left_cancel heq
    exact (List.idxOf_inj hs).mp hidx
  typedef t t' ht _ heq := by
    have hidx : src.typedefs.idxOf t = src.typedefs.idxOf t' := Nat.add_left_cancel heq
    exact (List.idxOf_inj ht).mp hidx

theorem ParseTables.Sound.laid_out (hsound : src.Sound mem) (arch : NativeArch) (pLP : LayoutParam)
    (fuel : ℕ) (bl : BitfieldLayouter) :
    Alike (fun r r' => r.1.heap.Copies (src.cloneAddress mem) r'.1.heap (src.Lists mem) ∧ r'.2 = r.2)
      (updateParseInfo arch pLP fuel (src.info mem) bl)
      (updateParseInfo arch pLP fuel ((clonedTables mem src).info (clonedMemory mem src)) bl) :=
  updateParseInfo_alike cloneAddress_apart arch pLP fuel (hsound.isClone.copies hsound) bl
    (fun _ hs => hs) fun _ ht => ht

/-- A clone is laid out like its source: both fail with the same, or the types of the one are copies
of those of the other again, with the same sizes and offsets. -/
theorem clone_laid_out_alike (hsound : src.Sound mem)
    (hclone : cloneParseInfo mem src = .ok (mem', dest)) (arch : NativeArch) (pLP : LayoutParam)
    (fuel : ℕ) (bl : BitfieldLayouter) :
    Alike (fun r r' => r.1.heap.Copies (src.cloneAddress mem) r'.1.heap (src.Lists mem) ∧ r'.2 = r.2)
      (updateParseInfo arch pLP fuel (src.info mem) bl)
      (updateParseInfo arch pLP fuel (dest.info mem') bl) := by
  rw [hsound.cloneParseInfo_eq] at hclone
  cases hclone
  exact hsound.laid_out arch pLP fuel bl

theorem clone_laid_out_alike_linked :
    ∃ mem' dest, cloneParseInfo linkedMemory linkedTables = .ok (mem', dest) ∧
      Alike (fun r r' => r.1.heap.Copies (linkedTables.cloneAddress linkedMemory) r'.1.heap
          (linkedTables.Lists linkedMemory) ∧ r'.2 = r.2)
        (updateParseInfo lp64 alignment4 10 (linkedTables.info linkedMemory) blCreateGeneric)
        (updateParseInfo lp64 alignment4 10 (dest.info mem') blCreateGeneric) := by
  have hclone := linked_sound.cloneParseInfo_eq
  exact ⟨_, _, hclone, clone_laid_out_alike linked_sound hclone lp64 alignment4 10 blCreateGeneric⟩

/-- A method that needs the sizes lays the types out before it packs or unpacks. On a clone both
steps together do what they do on the source. -/
theorem clone_lays_out_and_packs_alike (hsound : src.Sound mem)
    (hclone : cloneParseInfo mem src = .ok (mem', dest)) (fuel : ℕ) (bl : BitfieldLayouter)
    (perl : Perl) (cbc : CBC) (mi : MemberInfo)
    (hlisted : ∀ o, mi.type.object = some o → src.Lists mem o) :
    (∀ scalar string,
      (updateParseInfo cbc.arch cbc.pLP fuel (dest.info mem') bl >>= fun r =>
        unpack perl { cbc with heap := r.1.heap } fuel (mi.rename (src.cloneAddress mem)) scalar string) =
      updateParseInfo cbc.arch cbc.pLP fuel (src.info mem) bl >>= fun r =>
        unpack perl { cbc with heap := r.1.heap } fuel mi scalar string) ∧
    ∀ data string,
      (updateParseInfo cbc.arch cbc.pLP fuel (dest.info mem') bl >>= fun r =>
        pack perl { cbc with heap := r.1.heap } fuel (mi.rename (src.cloneAddress mem)) data string) =
      (updateParseInfo cbc.arch cbc.pLP fuel (src.info mem) bl >>= fun r =>
        pack perl { cbc with heap := r.1.heap } fuel mi data string).map fun r =>
          (r.1, r.2.map (Event.rename (src.cloneAddress mem))) := by
  rw [hsound.cloneParseInfo_eq] at hclone
  cases hclone
  have hlaid := hsound.laid_out cbc.arch cbc.pLP fuel bl
  constructor
  · intro scalar string
    apply hlaid.bind_eq
    intro r r' hr
    exact unpack_copy perl { cbc with heap := r.1.heap } hr.1 fuel mi hlisted scalar string
  · intro data string
    apply hlaid.bind_map
    intro r r' hr
    exact pack_copy perl { cbc with heap := r.1.heap } hr.1 fuel mi hlisted data string

theorem clone_lays_out_and_packs_alike_linked :
    ∃ mem' dest, cloneParseInfo linkedMemory linkedTables = .ok (mem', dest) ∧
      (updateParseInfo linkedCbc.arch linkedCbc.pLP 10 (dest.info mem') blCreateGeneric >>= fun r =>
        unpack echoPerl { linkedCbc with heap := r.1.heap } 10
          (linkedInfo.rename (linkedTables.cloneAddress linkedMemory)) true linkedBytes) =
      (updateParseInfo linkedCbc.arch linkedCbc.pLP 10 (linkedTables.info linkedMemory)
          blCreateGeneric >>= fun r =>
        unpack echoPerl { linkedCbc with heap := r.1.heap } 10 linkedInfo true linkedBytes) ∧
      (updateParseInfo linkedCbc.arch linkedCbc.pLP 10 (dest.info mem') blCreateGeneric >>= fun r =>
        pack echoPerl { linkedCbc with heap := r.1.heap } 10
          (linkedInfo.rename (linkedTables.cloneAddress linkedMemory)) linkedValue []) =
      (updateParseInfo linkedCbc.arch linkedCbc.pLP 10 (linkedTables.info linkedMemory)
          blCreateGeneric >>= fun r =>
        pack echoPerl { linkedCbc with heap := r.1.heap } 10 linkedInfo linkedValue []).map
          fun r => (r.1, r.2.map (Event.rename (linkedTables.cloneAddress linkedMemory))) := by
  have hclone := linked_sound.cloneParseInfo_eq
  obtain ⟨hunpack, hpack⟩ := clone_lays_out_and_packs_alike linked_sound hclone 10 blCreateGeneric
    echoPerl linkedCbc linkedInfo linked_listed
  exact ⟨_, _, hclone, hunpack true linkedBytes, hpack linkedValue []⟩

end Clone
end ConvertBinaryC
