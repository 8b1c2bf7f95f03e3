import ConvertBinaryC.CTLibLayoutReference

/-! Compounds that are laid out on demand, from inside the layout of the compound
that contains them, share the layouter with it. This module follows the order in
which layouts start, says when sharing the layouter does no harm, and shows that
every layout then ends like the reference. -/
namespace ConvertBinaryC
open FoldRules

section Walk
variable (arch : NativeArch) (pLP : LayoutParam) (heap : Heap) (bl : BitfieldLayouter)

def visitMembers (visit : List ℕ → Member → List ℕ) : List ℕ → List Member → List ℕ
  | _, [] => []
  | seen, m :: ms => visit seen m ++ visitMembers visit (seen ++ visit seen m) ms

mutual

/-- The compounds whose layout starts, in this order, when the type information of a
member is asked for after that of `seen` has started. -/
def visitType : ℕ → List ℕ → Member → List ℕ
  | 0, _, _ => []
  | fuel + 1, seen, m =>
    match m.node with
    | none => []
    | some (.typedef t) => visitType fuel seen (heap.typedefAt t).member
    | some (.struct s) =>
      if (heap.structAt s).declarations.isSome ∧ s ∉ seen then visitStruct fuel seen s else []

def visitStruct : ℕ → List ℕ → ℕ → List ℕ
  | 0, _, _ => []
  | fuel + 1, seen, s =>
    s :: visitMembers (visitType fuel) (seen ++ [s]) (heap.structAt s).members

end

/-- The layouts that start inside `outer` at the member `m` leave alone what the
members from `m` on read of the layouter: the state of an open run of bit-fields,
unless the run is closed before they start, and the maximal alignment. -/
def Undisturbed (outer : Struct) (in_bitfield : Bool) (m : Member) (ms : List Member)
    (laid : List ℕ) : Prop :=
  (in_bitfield = true → m.pDecl.isSome = true →
    ∀ t ∈ laid, (heap.structAt t).hasBitfieldMember = false) ∧
  (bl.blc.usesMaxAlign = true → (m :: ms).any Member.isBitfield = true →
    ∀ t, laid.getLast? = some t →
      structAlignment arch pLP (heap.structAt t) = structAlignment arch pLP outer)

def HarmlessMembers (visit : List ℕ → Member → List ℕ) (harmless : List ℕ → Member → Prop)
    (outer : Struct) : Bool → List ℕ → List Member → Prop
  | _, _, [] => True
  | in_bitfield, seen, m :: ms =>
    harmless seen m ∧ Undisturbed arch pLP heap bl outer in_bitfield m ms (visit seen m) ∧
      HarmlessMembers visit harmless outer (m.isBitfield && decide (outer.kind = .struct))
        (seen ++ visit seen m) ms

mutual

def HarmlessType : ℕ → List ℕ → Member → Prop
  | 0, _, _ => True
  | fuel + 1, seen, m =>
    match m.node with
    | none => True
    | some (.typedef t) => HarmlessType fuel seen (heap.typedefAt t).member
    | some (.struct s) =>
      (heap.structAt s).declarations.isSome ∧ s ∉ seen → HarmlessStruct fuel seen s

/-- No layout that starts on demand inside the layout of `s`, at any depth, disturbs
the one that it starts in. -/
def HarmlessStruct : ℕ → List ℕ → ℕ → Prop
  | 0, _, _ => True
  | fuel + 1, seen, s =>
    HarmlessMembers arch pLP heap bl (visitType heap fuel) (HarmlessType fuel)
      (heap.structAt s) false (seen ++ [s]) (heap.structAt s).members

end

/-- The walk of `update_parse_info` over the compounds, in its order, is harmless. -/
def HarmlessOrder (fuel : ℕ) : List ℕ → List ℕ → Prop
  | _, [] => True
  | seen, s :: ss =>
    if (heap.structAt s).declarations.isSome ∧ s ∉ seen then
      HarmlessStruct arch pLP heap bl fuel seen s ∧
        HarmlessOrder fuel (seen ++ visitStruct heap fuel seen s) ss
    else HarmlessOrder fuel seen ss

end Walk

section Simulation
variable (arch : NativeArch) (pLP : LayoutParam) {heap : Heap} (tr : TypeRank heap)
  (bl : BitfieldLayouter)

/-- The compound is laid out as if its nested compounds had been laid out first. -/
structure Settled (heap' : Heap) (t : ℕ) : Prop where
  reference : referenceStruct arch pLP tr bl t = .ok (heap'.structAt t)
  align : (heap'.structAt t).align ≠ 0

/-- The heap after the layouts of `seen` have started, below the rank of those that
are still open. -/
structure WalkRel (seen : List ℕ) (r : ℕ) (heap' : Heap) : Prop where
  typedefs : heap'.typedefAt = heap.typedefAt
  enums : heap'.enumAt = heap.enumAt
  settled : ∀ t ∈ seen, tr.rank (.struct t) < r → Settled arch pLP tr bl heap' t
  fresh : ∀ t, t ∉ seen → heap'.structAt t = heap.structAt t

/-- What a call that starts and ends the layouts of `new` has done. -/
structure Visited (seen new : List ℕ) (st st' : LayoutState) : Prop where
  typedefs : st'.heap.typedefAt = st.heap.typedefAt
  enums : st'.heap.enumAt = st.heap.enumAt
  settled : ∀ t ∈ new, t ∉ seen ∧ Settled arch pLP tr bl st'.heap t
  frame : ∀ t, t ∉ new → st'.heap.structAt t = st.heap.structAt t
  blank : st'.bl.blc.blank = st.bl.blc.blank
  byte_order : st.bl.byte_order = pLP.byte_order → st'.bl.byte_order = pLP.byte_order
  unused : new = [] → st'.bl = st.bl
  max_align : ∀ t, new.getLast? = some t →
    st'.bl.max_align = structAlignment arch pLP (heap.structAt t)
  quiet : (∀ t ∈ new, (heap.structAt t).hasBitfieldMember = false) → st.bl.SameRun st'.bl

variable {arch pLP tr bl}

theorem Visited.refl (seen : List ℕ) (st : LayoutState) :
    Visited arch pLP tr bl seen [] st st where
  typedefs := rfl
  enums := rfl
  settled := fun t ht => absurd ht List.not_mem_nil
  frame := fun _ _ => rfl
  blank := rfl
  byte_order := id
  unused := fun _ => rfl
  max_align := fun t ht => by simp at ht
  quiet := fun _ => ⟨rfl, rfl, rfl⟩

theorem WalkRel.mono {seen : List ℕ} {r r' : ℕ} {heap' : Heap} (hr : r' ≤ r)
    (h : WalkRel arch pLP tr bl seen r heap') : WalkRel arch pLP tr bl seen r' heap' :=
  { h with settled := fun t ht hlt => h.settled t ht (hlt.trans_le hr) }

theorem Settled.of_structAt {heap' heap'' : Heap} {t : ℕ} (h : Settled arch pLP tr bl heap' t)
    (heq : heap''.structAt t = heap'.structAt t) : Settled arch pLP tr bl heap'' t :=
  ⟨heq ▸ h.reference, heq ▸ h.align⟩

/-- A call that starts more layouts leads from one point of the walk to another. -/
theorem WalkRel.visited {seen new : List ℕ} {r : ℕ} {st st' : LayoutState}
    (h : WalkRel arch pLP tr bl seen r st.heap) (hv : Visited arch pLP tr bl seen new st st') :
    WalkRel arch pLP tr bl (seen ++ new) r st'.heap where
  typedefs := hv.typedefs.trans h.typedefs
  enums := hv.enums.trans h.enums
  settled := by
    intro t ht hlt
    by_cases hnew : t ∈ new
    · exact (hv.settled t hnew).2
    · have hseen : t ∈ seen := (List.mem_append.mp ht).resolve_right hnew
      exact (h.settled t hseen hlt).of_structAt (hv.frame t hnew)
  fresh := by
    intro t ht
    rw [List.mem_append, not_or] at ht
    exact (hv.frame t ht.2).trans (h.fresh t ht.1)

/-- Storing a compound whose layout is open keeps the walk. -/
theorem WalkRel.store {seen : List ℕ} {s : ℕ} {heap' : Heap}
    (h : WalkRel arch pLP tr bl seen (tr.rank (.struct s)) heap') (hs : s ∈ seen)
    (pStruct : Struct) :
    WalkRel arch pLP tr bl seen (tr.rank (.struct s)) (heap'.setStruct s pStruct) where
  typedefs := h.typedefs
  enums := h.enums
  settled := by
    intro t ht hlt
    have hne : t ≠ s := fun heq => (heq ▸ hlt).false
    exact (h.settled t ht hlt).of_structAt (Heap.setStruct_of_ne _ _ hne)
  fresh := by
    intro t ht
    have hne : t ≠ s := fun heq => ht (heq ▸ hs)
    exact (Heap.setStruct_of_ne _ _ hne).trans (h.fresh t ht)

section Loop
variable (arch pLP tr bl) (fuel : ℕ) (seen : List ℕ) (s : ℕ) (st : LayoutState)

/-- Inside the layout of `s`, which started in the state `st`: the layouts of `new`
have been started by its members so far. `g` is the frame of the reference. -/
structure OpenRel (new : List ℕ) (heap' : Heap) (f g : Frame) : Prop where
  walk : WalkRel arch pLP tr bl (seen ++ [s] ++ new) (tr.rank (.struct s)) heap'
  settled : ∀ t ∈ new, t ∉ seen ++ [s] ∧ Settled arch pLP tr bl heap' t
  frame : ∀ t, t ≠ s → t ∉ new → heap'.structAt t = st.heap.structAt t
  union : (heap.structAt s).kind = .union → f.in_bitfield = false
  byte_order : f.bl.byte_order = pLP.byte_order
  reference_order : g.bl.byte_order = pLP.byte_order
  blank : f.bl.blc.blank = bl.blc.blank
  max_align : ∀ t, (s :: new).getLast? = some t →
    f.bl.max_align = structAlignment arch pLP (heap.structAt t)
  reference_max : g.bl.max_align = structAlignment arch pLP (heap.structAt s)
  quiet : (heap.structAt s).hasBitfieldMember = false →
    (∀ t ∈ new, (heap.structAt t).hasBitfieldMember = false) →
    st.bl.SameRun f.bl ∧ f.in_bitfield = false

/-- The loop invariant, before the members `rest`. -/
structure LoopRel (rest : List Member) (new : List ℕ) (heap' : Heap) (f g : Frame) : Prop
    extends OpenRel arch pLP tr bl seen s st new heap' f g where
  members : ∀ m ∈ rest, m ∈ (heap.structAt s).members
  total : new ++ visitMembers (visitType heap fuel) (seen ++ [s] ++ new) rest =
    visitMembers (visitType heap fuel) (seen ++ [s]) (heap.structAt s).members
  harmless : ∃ in_bitfield, (f.in_bitfield = true → in_bitfield = true) ∧
    HarmlessMembers arch pLP heap bl (visitType heap fuel) (HarmlessType arch pLP heap bl fuel)
      (heap.structAt s) in_bitfield (seen ++ [s] ++ new) rest
  frames : FrameRel (rest.any Member.isBitfield = true) f g

/-- The loop invariant after the question for `m` and before `m` is placed. -/
structure AskedRel (m : Member) (rest : List Member) (new : List ℕ) (heap' : Heap)
    (f g : Frame) : Prop extends OpenRel arch pLP tr bl seen s st new heap' f g where
  member : m ∈ (heap.structAt s).members
  members : ∀ m' ∈ rest, m' ∈ (heap.structAt s).members
  total : new ++ visitMembers (visitType heap fuel) (seen ++ [s] ++ new) rest =
    visitMembers (visitType heap fuel) (seen ++ [s]) (heap.structAt s).members
  harmless : HarmlessMembers arch pLP heap bl (visitType heap fuel)
    (HarmlessType arch pLP heap bl fuel) (heap.structAt s)
    (m.isBitfield && decide ((heap.structAt s).kind = .struct)) (seen ++ [s] ++ new) rest
  frames : FrameRel ((m :: rest).any Member.isBitfield = true) f g

/-- Questions about the members of `s` are answered as in the reference. -/
def Answers
    (typeInfo : LayoutState → TypeSpec → Option Declarator → Call (LayoutState × TypeInfo))
    (info : Member → Call TypeInfo) : Prop :=
  ∀ seen m st, m ∈ (heap.structAt s).members →
    WalkRel arch pLP tr bl seen (tr.rank (.struct s)) st.heap → st.bl.blc.blank = bl.blc.blank →
    HarmlessType arch pLP heap bl fuel seen m →
    Related (fun p i => p.2 = i ∧ Visited arch pLP tr bl seen (visitType heap fuel seen m) st p.1)
      (typeInfo st m.type m.pDecl) (info m)

variable {arch pLP tr bl fuel seen s st}
variable {new : List ℕ} {heap' : Heap} {f g : Frame} {m : Member} {rest : List Member}

theorem OpenRel.finishOpen (h : OpenRel arch pLP tr bl seen s st new heap' f g) :
    OpenRel arch pLP tr bl seen s st new heap' (finishOpenBitfield f) (finishOpenBitfield g) := by
  have hf := finishOpenBitfield_like f
  have hg := finishOpenBitfield_like g
  exact
    { h with
      union := fun _ => finishOpenBitfield_in_bitfield f
      byte_order := hf.byte_order.trans h.byte_order
      reference_order := hg.byte_order.trans h.reference_order
      blank := hf.blank.trans h.blank
      max_align := fun t ht => hf.max_align.trans (h.max_align t ht)
      reference_max := hg.max_align.trans h.reference_max
      quiet := by
        intro hs hnew
        obtain ⟨hrun, hclosed⟩ := h.quiet hs hnew
        refine ⟨?_, finishOpenBitfield_in_bitfield f⟩
        rwa [finishOpenBitfield, if_neg (by simp [hclosed])] }

/-- The frames after a member that left the heap alone. -/
theorem OpenRel.frames (h : OpenRel arch pLP tr bl seen s st new heap' f g) {f' g' : Frame}
    (hf : f.bl.Like f'.bl) (hg : g.bl.Like g'.bl)
    (hunion : (heap.structAt s).kind = .union → f'.in_bitfield = false)
    (hquiet : (heap.structAt s).hasBitfieldMember = false → f.in_bitfield = false →
      f'.bl = f.bl ∧ f'.in_bitfield = false) :
    OpenRel arch pLP tr bl seen s st new heap' f' g' :=
  { h with
    union := hunion
    byte_order := hf.byte_order.trans h.byte_order
    reference_order := hg.byte_order.trans h.reference_order
    blank := hf.blank.trans h.blank
    max_align := fun t ht => hf.max_align.trans (h.max_align t ht)
    reference_max := hg.max_align.trans h.reference_max
    quiet := by
      intro hs hnew
      obtain ⟨hrun, hclosed⟩ := h.quiet hs hnew
      obtain ⟨hbl, hclosed'⟩ := hquiet hs hclosed
      exact ⟨hbl ▸ hrun, hclosed'⟩ }

/-- Asking for the type information of a member: the layouts that this starts are
added to `new`. -/
theorem OpenRel.visited (h : OpenRel arch pLP tr bl seen s st new heap' f g) {laid : List ℕ}
    {st' : LayoutState} (pStruct : Struct)
    (hv : Visited arch pLP tr bl (seen ++ [s] ++ new) laid
      ⟨heap'.setStruct s pStruct, f.bl⟩ st') :
    OpenRel arch pLP tr bl seen s st (new ++ laid) st'.heap { f with bl := st'.bl } g := by
  have hmem : s ∈ seen ++ [s] ++ new := by simp
  have hlaid (t : ℕ) (ht : t ∈ laid) : t ∉ seen ++ [s] ∧ t ∉ new := by
    simpa only [List.mem_append, not_or] using (hv.settled t ht).1
  have hnot (t : ℕ) (ht : t ∈ new) : t ∉ laid := fun hl => (hlaid t hl).2 ht
  have hne (t : ℕ) (ht : t ∉ seen ++ [s]) : t ≠ s := fun heq => ht (by simp [heq])
  refine
    { h with
      walk := ?_, settled := ?_, frame := ?_, byte_order := hv.byte_order h.byte_order
      blank := hv.blank.trans h.blank, max_align := ?_, quiet := ?_ }
  · rw [← List.append_assoc]
    exact (h.walk.store hmem pStruct).visited hv
  · intro t ht
    rcases List.mem_append.mp ht with ht | ht
    · obtain ⟨hout, hset⟩ := h.settled t ht
      refine ⟨hout, hset.of_structAt ?_⟩
      exact (hv.frame t (hnot t ht)).trans (Heap.setStruct_of_ne _ _ (hne t hout))
    · exact ⟨(hlaid t ht).1, (hv.settled t ht).2⟩
  · intro t hs ht
    rw [List.mem_append, not_or] at ht
    calc st'.heap.structAt t = (heap'.setStruct s pStruct).structAt t := hv.frame t ht.2
      _ = heap'.structAt t := Heap.setStruct_of_ne _ _ hs
      _ = st.heap.structAt t := h.frame t hs ht.1
  · intro t ht
    cases hlast : laid.getLast? with
    | none =>
      rw [List.getLast?_eq_none_iff] at hlast
      subst hlast
      rw [List.append_nil] at ht
      exact (congrArg _ (hv.unused rfl)).trans (h.max_align t ht)
    | some u =>
      rw [← List.cons_append, List.getLast?_append, hlast] at ht
      cases ht
      exact hv.max_align _ hlast
  · intro hs hquiet
    obtain ⟨hrun, hclosed⟩ := h.quiet hs fun t ht => hquiet t (List.mem_append_left _ ht)
    have hrun' := hv.quiet fun t ht => hquiet t (List.mem_append_right _ ht)
    exact ⟨⟨hrun'.blc.trans hrun.blc, hrun'.align.trans hrun.align,
      hrun'.offset.trans hrun.offset⟩, hclosed⟩

/-- After a harmless question the frames are still in step for the member itself. -/
theorem LoopRel.visited
    (h : LoopRel arch pLP tr bl fuel seen s st (m :: rest) new heap' f g)
    (hm : m.pDecl = none → f.in_bitfield = false) {st' : LayoutState} (pStruct : Struct)
    (hv : Visited arch pLP tr bl (seen ++ [s] ++ new)
      (visitType heap fuel (seen ++ [s] ++ new) m) ⟨heap'.setStruct s pStruct, f.bl⟩ st') :
    FrameRel ((m :: rest).any Member.isBitfield = true) { f with bl := st'.bl } g := by
  obtain ⟨in_bitfield, hopen, -, ⟨hrun, hmax⟩, -⟩ := h.harmless
  refine
    { h.frames with
      blank := h.frames.blank.trans hv.blank.symm
      byte_order := h.reference_order.trans (hv.byte_order h.byte_order).symm
      run := ?_, max_align := ?_ }
  · intro hin
    have hsome : m.pDecl.isSome = true := by
      rw [Option.isSome_iff_ne_none]
      exact fun hnone => absurd (hin.symm.trans (hm hnone)) Bool.noConfusion
    have hsame := hv.quiet (hrun (hopen hin) hsome)
    have hframes := h.frames.run hin
    exact ⟨hframes.blc.trans hsame.blc.symm, hframes.align.trans hsame.align.symm,
      hframes.offset.trans hsame.offset.symm⟩
  · intro hbits huses
    have hclass : f.bl.blc.usesMaxAlign = true := BLClass.usesMaxAlign_of_blank hv.blank ▸ huses
    cases hlast : (visitType heap fuel (seen ++ [s] ++ new) m).getLast? with
    | none =>
      rw [List.getLast?_eq_none_iff] at hlast
      exact (h.frames.max_align hbits hclass).trans (congrArg _ (hv.unused hlast).symm)
    | some t =>
      have hblank : bl.blc.usesMaxAlign = true :=
        BLClass.usesMaxAlign_of_blank h.blank ▸ hclass
      calc g.bl.max_align = structAlignment arch pLP (heap.structAt s) := h.reference_max
        _ = structAlignment arch pLP (heap.structAt t) := (hmax hblank hbits t hlast).symm
        _ = st'.bl.max_align := (hv.max_align t hlast).symm

/-- The loop invariant after `m` is placed. -/
theorem AskedRel.next (h : AskedRel arch pLP tr bl fuel seen s st m rest new heap' f g) {f' g' : Frame}
    (hrel : FrameRel (rest.any Member.isBitfield = true) f' g')
    (hf : f.bl.Like f'.bl) (hg : g.bl.Like g'.bl)
    (hin : f'.in_bitfield = (m.isBitfield && decide ((heap.structAt s).kind = .struct)))
    (hquiet : m.isBitfield = false → f.in_bitfield = false → f'.bl = f.bl) :
    LoopRel arch pLP tr bl fuel seen s st rest new heap' f' g' := by
  have hopen : OpenRel arch pLP tr bl seen s st new heap' f' g' := by
    apply h.toOpenRel.frames hf hg
    · intro hunion
      rw [hin, hunion]
      exact Bool.and_false _
    · intro hs hclosed
      have hm : m.isBitfield = false := by
        rw [Struct.hasBitfieldMember, List.any_eq_false] at hs
        exact Bool.eq_false_iff.mpr (hs m h.member)
      exact ⟨hquiet hm hclosed, by rw [hin, hm, Bool.false_and]⟩
  exact { hopen with
    members := h.members
    total := h.total
    harmless := ⟨_, fun hb => hin ▸ hb, h.harmless⟩
    frames := hrel }

section Members
variable
  {typeInfo : LayoutState → TypeSpec → Option Declarator → Call (LayoutState × TypeInfo)}
  {info : Member → Call TypeInfo}
  (hask : Answers arch pLP tr bl fuel s typeInfo info)
include hask

theorem LoopRel.ask
    (h : LoopRel arch pLP tr bl fuel seen s st (m :: rest) new heap' f g)
    (hm : m.pDecl = none → f.in_bitfield = false) :
    Related (fun p q => p.2.2 = q.2.2 ∧ q.2.1 = g.bl ∧ ∃ new',
        AskedRel arch pLP tr bl fuel seen s st m rest new' p.1 { f with bl := p.2.1 } g)
      (heapQuery typeInfo s heap' f m.type m.pDecl)
      (knownQuery info () g m.type m.pDecl) := by
  obtain ⟨in_bitfield, hopen, hharmless, hundisturbed, hrest⟩ := h.harmless
  have hmem : s ∈ seen ++ [s] ++ new := by simp
  have hmember := h.members m List.mem_cons_self
  apply (hask (seen ++ [s] ++ new) m _ hmember (h.walk.store hmem _) h.blank hharmless).bind
  rintro ⟨st', i⟩ j ⟨hi, hv⟩
  dsimp only at hi hv ⊢
  subst hi
  have hframes := h.visited hm _ hv
  refine ⟨rfl, rfl, new ++ visitType heap fuel (seen ++ [s] ++ new) m, ?_⟩
  exact
    { h.toOpenRel.visited _ hv with
      member := hmember
      members := fun m' hm' => h.members m' (List.mem_cons_of_mem _ hm')
      total := by
        rw [← h.total, visitMembers, List.append_assoc, List.append_assoc (seen ++ [s])]
      harmless := by
        rw [← List.append_assoc]
        exact hrest
      frames := hframes }

theorem LoopRel.declarator {type : TypeSpec} {pDecl : Declarator} {alignment offset : ℤ}
    (h : LoopRel arch pLP tr bl fuel seen s st (⟨type, some pDecl⟩ :: rest) new heap' f g) :
    Related (fun p q => p.2 = q.2 ∧ p.1.2.2 = q.1.2.2 ∧ ∃ new',
        LoopRel arch pLP tr bl fuel seen s st rest new' p.1.1 p.1.2.1 q.1.2.1)
      (queryDeclarator (heapQuery typeInfo s) (heap.structAt s).kind alignment type
        (heap', f, offset) pDecl)
      (queryDeclarator (knownQuery info) (heap.structAt s).kind alignment type
        ((), g, offset) pDecl) := by
  apply (h.ask hask nofun).bind
  rintro ⟨heap'', bl', i⟩ ⟨_, bl'', i'⟩ ⟨hi, hbl, new', hasked⟩
  dsimp only at hi hbl hasked
  subst hi hbl
  have hframes : FrameRel (pDecl.isBitfield = true ∨ rest.any Member.isBitfield = true)
      { f with bl := bl' } g := by
    apply hasked.frames.weaken
    rw [List.any_cons, Bool.or_eq_true]
    exact id
  apply (hframes.declarator (heap.structAt s).kind alignment i offset pDecl hasked.union).bind
  rintro ⟨⟨f', o⟩, d⟩ ⟨⟨g', o'⟩, d'⟩ ⟨hd, ho, hrel, hlike, hlike', hin, hquiet⟩
  exact ⟨hd, ho, new', hasked.next hrel hlike hlike' hin hquiet⟩

theorem LoopRel.unnamed {type : TypeSpec} {alignment offset : ℤ}
    (h : LoopRel arch pLP tr bl fuel seen s st (⟨type, none⟩ :: rest) new heap' f g) :
    Related (fun p q => p.2.2 = q.2.2 ∧ ∃ new',
        LoopRel arch pLP tr bl fuel seen s st rest new' p.1 p.2.1 q.2.1)
      (queryUnnamed (heapQuery typeInfo s) (heap.structAt s).kind alignment type
        (heap', f, offset))
      (queryUnnamed (knownQuery info) (heap.structAt s).kind alignment type ((), g, offset)) := by
  obtain ⟨in_bitfield, -, hharmless⟩ := h.harmless
  have hclosed := finishOpenBitfield_in_bitfield f
  have hfinish : LoopRel arch pLP tr bl fuel seen s st (⟨type, none⟩ :: rest) new heap'
      (finishOpenBitfield f) (finishOpenBitfield g) :=
    { h.toOpenRel.finishOpen with
      members := h.members
      total := h.total
      harmless := ⟨in_bitfield, fun hopen => absurd (hopen.symm.trans hclosed) Bool.noConfusion,
        hharmless⟩
      frames := h.frames.finishOpen }
  apply (hfinish.ask hask fun _ => hclosed).bind
  rintro ⟨heap'', bl', i⟩ ⟨_, bl'', i'⟩ ⟨hi, hbl, new', hasked⟩
  dsimp only at hi hbl hasked
  subst hi hbl
  have hframes : FrameRel (rest.any Member.isBitfield = true)
      { finishOpenBitfield f with bl := bl' } (finishOpenBitfield g) := by
    apply hasked.frames.weaken
    intro hrest
    rw [List.any_cons, hrest, Bool.or_true]
  apply ((hframes.note i false).place (heap.structAt s).kind alignment i).bind
  rintro ⟨pos, f'⟩ ⟨pos', g'⟩ ⟨hpos, hrel, hbl', hbl'', hin⟩
  dsimp only at hpos
  subst hpos
  refine ⟨rfl, new', hasked.next hrel ?_ ?_ ?_ ?_⟩
  · exact hbl' ▸ .refl _
  · exact hbl'' ▸ .refl _
  · exact hin.trans hclosed
  · exact fun _ _ => hbl'

theorem LoopRel.declarators {type : TypeSpec} {alignment offset : ℤ}
    {declarators : List Declarator}
    (h : LoopRel arch pLP tr bl fuel seen s st
      (declarators.map (fun pDecl => ⟨type, some pDecl⟩) ++ rest) new heap' f g) :
    Related (fun p q => p.2 = q.2 ∧ p.1.2.2 = q.1.2.2 ∧ ∃ new',
        LoopRel arch pLP tr bl fuel seen s st rest new' p.1.1 p.1.2.1 q.1.2.1)
      (mapAccumM (queryDeclarator (heapQuery typeInfo s) (heap.structAt s).kind alignment type)
        (heap', f, offset) declarators)
      (mapAccumM (queryDeclarator (knownQuery info) (heap.structAt s).kind alignment type)
        ((), g, offset) declarators) := by
  apply Related.mapAccumM (fun (ds : List Declarator) (b : Heap × Frame × ℤ)
    (c : Unit × Frame × ℤ) => b.2.2 = c.2.2 ∧ ∃ new', LoopRel arch pLP tr bl fuel seen s st
      (ds.map (fun pDecl => Member.mk type (some pDecl)) ++ rest) new' b.1 b.2.1 c.2.1)
  · rintro pDecl ds ⟨heap'', f', o⟩ ⟨_, g', o'⟩ ⟨ho, new', hloop⟩
    dsimp only at ho hloop
    subst ho
    exact hloop.declarator hask
  · exact ⟨rfl, new, h⟩

/-- One declaration of two layouts in step. -/
theorem LoopRel.declaration {pStructDecl : StructDeclaration} {alignment : ℤ}
    (h : LoopRel arch pLP tr bl fuel seen s st (pStructDecl.members ++ rest) new heap' f g) :
    Related (fun p q => p.2 = q.2 ∧ ∃ new',
        LoopRel arch pLP tr bl fuel seen s st rest new' p.1.1 p.1.2 q.1.2)
      (layoutDeclaration (heapQuery typeInfo s) (heap.structAt s).kind alignment (heap', f)
        pStructDecl)
      (layoutDeclaration (knownQuery info) (heap.structAt s).kind alignment ((), g)
        pStructDecl) := by
  have hmembers (offset : ℤ) : Related (fun p q => p.2 = q.2 ∧ p.1.2.2 = q.1.2.2 ∧ ∃ new',
        LoopRel arch pLP tr bl fuel seen s st rest new' p.1.1 p.1.2.1 q.1.2.1)
      (queryMembers (heapQuery typeInfo s) (heap.structAt s).kind alignment pStructDecl
        (heap', f, offset))
      (queryMembers (knownQuery info) (heap.structAt s).kind alignment pStructDecl
        ((), g, offset)) := by
    unfold queryMembers
    unfold StructDeclaration.members at h
    cases hd : pStructDecl.declarators with
    | none =>
      rw [hd] at h
      apply (LoopRel.unnamed hask h).bind
      rintro ⟨heap'', f', o⟩ ⟨_, g', o'⟩ ⟨ho, hloop⟩
      exact ⟨rfl, ho, hloop⟩
    | some declarators =>
      rw [hd] at h
      apply (LoopRel.declarators hask h).bind
      rintro ⟨⟨heap'', f', o⟩, ds⟩ ⟨⟨_, g', o'⟩, ds'⟩ ⟨hds, ho, hloop⟩
      exact ⟨congrArg some hds, ho, hloop⟩
  apply (hmembers _).bind
  rintro ⟨⟨heap'', f', o⟩, ds⟩ ⟨⟨_, g', o'⟩, ds'⟩ ⟨hds, ho, new', hloop⟩
  dsimp only at hds ho hloop
  subst hds ho
  refine ⟨?_, new', hloop⟩
  simp only [hloop.frames.size]

/-- The layout of `s` and its reference agree on the compound, and all layouts that
start in between have ended. -/
theorem layoutStruct_related (hwalk : WalkRel arch pLP tr bl seen (tr.rank (.struct s)) st.heap)
    (hblank : st.bl.blc.blank = bl.blc.blank)
    (hharmless : HarmlessStruct arch pLP heap bl (fuel + 1) seen s)
    (hbody : (heap.structAt s).declarations.isSome) :
    Related (fun p q => p.2.2 = q.2.2 ∧ p.2.2.align ≠ 0 ∧ ∃ f g, f.bl = p.2.1 ∧
        OpenRel arch pLP tr bl seen s st
          (visitMembers (visitType heap fuel) (seen ++ [s]) (heap.structAt s).members) p.1 f g)
      (layoutStruct arch pLP (heapQuery typeInfo s) st.heap st.bl (heap.structAt s))
      (layoutStruct arch pLP (knownQuery info) () bl (heap.structAt s)) := by
  obtain ⟨declarations, hdecl⟩ := Option.isSome_iff_exists.mp hbody
  have hmembers : (heap.structAt s).members = declarations.flatMap StructDeclaration.members := by
    rw [Struct.members, hdecl]
    rfl
  have hstart : LoopRel arch pLP tr bl fuel seen s st
      (declarations.flatMap StructDeclaration.members) [] st.heap
      (initialFrame arch pLP st.bl (heap.structAt s))
      (initialFrame arch pLP bl (heap.structAt s)) := by
    refine
      { walk := ?_, settled := nofun, frame := fun _ _ _ => rfl, union := fun _ => rfl
        byte_order := rfl, reference_order := rfl, blank := hblank, max_align := ?_
        reference_max := rfl, quiet := fun _ _ => ⟨⟨rfl, rfl, rfl⟩, rfl⟩
        members := fun m hm => hmembers ▸ hm, total := ?_, harmless := ?_, frames := ?_ }
    · refine { hwalk with settled := ?_, fresh := ?_ }
      · intro t ht hlt
        have hne : t ≠ s := fun heq => (heq ▸ hlt).false
        have hseen : t ∈ seen := by simpa [hne] using ht
        exact hwalk.settled t hseen hlt
      · intro t ht
        have hseen : t ∉ seen := fun hmem => ht (by simp [hmem])
        exact hwalk.fresh t hseen
    · intro t ht
      cases ht
      rfl
    · rw [List.nil_append, List.append_nil, hmembers]
    · refine ⟨false, id, ?_⟩
      rw [List.append_nil, ← hmembers]
      exact hharmless
    · exact ⟨rfl, rfl, rfl, rfl, rfl, hblank.symm, rfl, nofun, fun _ _ => rfl⟩
  simp only [layoutStruct, hdecl]
  apply Related.bind (R := fun p q => p.2 = q.2 ∧ ∃ new',
    LoopRel arch pLP tr bl fuel seen s st [] new' p.1.1 p.1.2 q.1.2)
  · apply Related.mapAccumM (fun (ds : List StructDeclaration) (b : Heap × Frame)
      (c : Unit × Frame) => ∃ new', LoopRel arch pLP tr bl fuel seen s st
        (ds.flatMap StructDeclaration.members) new' b.1 b.2 c.2)
    · rintro pStructDecl ds ⟨heap'', f'⟩ ⟨_, g'⟩ ⟨new', hloop⟩
      exact LoopRel.declaration hask hloop
    · exact ⟨[], hstart⟩
  rintro ⟨⟨heap'', f'⟩, ds⟩ ⟨⟨_, g'⟩, ds'⟩ ⟨hds, new', hloop⟩
  dsimp only at hds hloop
  subst hds
  have htotal := hloop.total
  rw [visitMembers, List.append_nil] at htotal
  subst htotal
  have hfinal := hloop.frames.finishOpen
  simp only [finishStruct]
  rw [hfinal.align]
  by_cases hzero : (finishOpenBitfield f').align = 0
  · rw [if_pos hzero, if_pos hzero]
    trivial
  · rw [if_neg hzero, if_neg hzero]
    refine ⟨?_, hzero, _, _, rfl, hloop.toOpenRel.finishOpen⟩
    simp only [Frame.store, hfinal.size, hfinal.hasBitfield, hfinal.riskyVal]

end Members

end Loop

/-- A compound whose layout ends is settled, and so are those that it started. -/
theorem OpenRel.close {seen : List ℕ} {s : ℕ} {st : LayoutState} {new : List ℕ} {heap' : Heap}
    {f g : Frame} (h : OpenRel arch pLP tr bl seen s st new heap' f g)
    (hwalk : WalkRel arch pLP tr bl seen (tr.rank (.struct s)) st.heap) (hs : s ∉ seen)
    (hblank : st.bl.blc.blank = bl.blc.blank) {pStruct : Struct} (halign : pStruct.align ≠ 0)
    (hreference : referenceStruct arch pLP tr bl s = .ok pStruct) :
    Visited arch pLP tr bl seen (s :: new) st ⟨heap'.setStruct s pStruct, f.bl⟩ where
  typedefs := h.walk.typedefs.trans hwalk.typedefs.symm
  enums := h.walk.enums.trans hwalk.enums.symm
  settled := by
    intro t ht
    rcases List.mem_cons.mp ht with rfl | ht
    · refine ⟨hs, ?_, ?_⟩
      · exact hreference.trans (congrArg _ (Heap.setStruct_self ..).symm)
      · exact (Heap.setStruct_self heap' t pStruct).symm ▸ halign
    · obtain ⟨hout, hset⟩ := h.settled t ht
      simp only [List.mem_append, List.mem_singleton, not_or] at hout
      exact ⟨hout.1, hset.of_structAt (Heap.setStruct_of_ne _ _ hout.2)⟩
  frame := by
    intro t ht
    rw [List.mem_cons, not_or] at ht
    exact (Heap.setStruct_of_ne _ _ ht.1).trans (h.frame t ht.1 ht.2)
  blank := h.blank.trans hblank.symm
  byte_order := fun _ => h.byte_order
  unused := nofun
  max_align := h.max_align
  quiet := by
    intro hquiet
    exact (h.quiet (hquiet s List.mem_cons_self)
      fun t ht => hquiet t (List.mem_cons_of_mem _ ht)).1

/-- Two compounds of the same reference, whether or not they have a body. -/
theorem WalkRel.reference {seen : List ℕ} {heap' : Heap}
    (h : ∀ r, WalkRel arch pLP tr bl seen r heap') {s : ℕ}
    (hs : (heap.structAt s).declarations.isSome → s ∈ seen) :
    referenceStruct arch pLP tr bl s = .ok (heap'.structAt s) := by
  by_cases hmem : s ∈ seen
  · exact ((h (tr.rank (.struct s) + 1)).settled s hmem (Nat.lt_succ_self _)).reference
  · have hnone : (heap.structAt s).declarations = none := by
      simpa using fun hbody => hmem (hs hbody)
    rw [(h 0).fresh s hmem]
    exact referenceStruct_of_none hnone

/-- The dimensions of a declarator are applied to related answers. -/
theorem visited_declare {seen laid : List ℕ} {st : LayoutState} (dims : List Value)
    {x : Call (LayoutState × TypeInfo)} {y : Call TypeInfo}
    (h : Related (fun p info => p.2 = info ∧ Visited arch pLP tr bl seen laid st p.1) x y) :
    Related (fun p info => p.2 = info ∧ Visited arch pLP tr bl seen laid st p.1)
      (x >>= fun p => p.2.declare dims >>= fun info => .ok (p.1, info))
      (y >>= fun info => info.declare dims) := by
  apply h.bind
  rintro ⟨st', info⟩ _ ⟨rfl, hv⟩
  have hsame := Related.refl (R := Eq) (fun _ => rfl) (info.declare dims)
  have hdone := hsame.bind (S := fun (p : LayoutState × TypeInfo) info =>
    p.2 = info ∧ Visited arch pLP tr bl seen laid st p.1) (f := fun info => .ok (st', info))
    (g := pure) (fun declared _ heq => ⟨heq, hv⟩)
  rwa [bind_pure] at hdone

variable (hfresh : ∀ t, (heap.structAt t).align = 0)
include hfresh

/-- The type information of a compound, settled or not. -/
theorem getTypeInfo_struct {fuel : ℕ} {seen : List ℕ} {s : ℕ} {st : LayoutState}
    (hwalk : WalkRel arch pLP tr bl seen (tr.rank (.struct s) + 1) st.heap)
    (hlayout : s ∉ seen → (heap.structAt s).declarations.isSome →
      Related (fun st' _ => Visited arch pLP tr bl seen (visitStruct heap fuel seen s) st st')
        (layoutCompound arch pLP fuel st s) (referenceStruct arch pLP tr bl s)) :
    Related (fun st' info => structInfo arch pLP (st'.heap.structAt s) = info ∧
        Visited arch pLP tr bl seen
          (if (heap.structAt s).declarations.isSome ∧ s ∉ seen then visitStruct heap fuel seen s
            else []) st st')
      (if (st.heap.structAt s).declarations.isSome ∧ (st.heap.structAt s).align = 0 then
        layoutCompound arch pLP fuel st s else .ok st)
      (nodeInfo arch pLP tr bl (.struct s)) := by
  rw [nodeInfo_struct]
  by_cases hs : s ∈ seen
  · -- laid out before
    have hsettled := hwalk.settled s hs (Nat.lt_succ_self _)
    rw [if_neg fun h => h.2 hs, if_neg fun h => hsettled.align h.2, hsettled.reference]
    exact ⟨rfl, .refl _ _⟩
  · have hsame := hwalk.fresh s hs
    rw [hsame]
    by_cases hbody : (heap.structAt s).declarations.isSome
    · rw [if_pos ⟨hbody, hs⟩, if_pos ⟨hbody, hfresh s⟩]
      have h := (hlayout hs hbody).with_ok
      cases hx : layoutCompound arch pLP fuel st s <;>
        cases hy : referenceStruct arch pLP tr bl s
      · trivial
      · rw [hx, hy] at h
        exact h.elim
      · rw [hx, hy] at h
        exact h.elim
      · rename_i st' pStruct
        rw [hx, hy] at h
        refine ⟨?_, h.1⟩
        have hmem : s ∈ visitStruct heap fuel seen s := by
          cases fuel with
          | zero => cases hx
          | succ fuel => exact List.mem_cons_self
        have hsettled := (h.1.settled s hmem).2.reference
        rw [hy, Except.ok.injEq] at hsettled
        exact congrArg _ hsettled.symm
    · -- only the tag is known
      rw [if_neg fun h => hbody h.1, if_neg fun h => hbody h.1]
      have hnone : (heap.structAt s).declarations = none := by simpa using hbody
      rw [referenceStruct_of_none hnone]
      exact ⟨congrArg _ hsame, .refl _ _⟩

/-- Both halves of the recursion follow the reference, by induction on the depth of
calls. A rank costs two calls: one for the type information and one for the layout. -/
theorem layout_related (fuel : ℕ) :
    (∀ r seen m st, (∀ n, m.node = some n → tr.rank n < r ∧ 2 * tr.rank n + 3 ≤ fuel) →
      1 ≤ fuel → WalkRel arch pLP tr bl seen r st.heap → st.bl.blc.blank = bl.blc.blank →
      HarmlessType arch pLP heap bl fuel seen m →
      Related (fun p info => p.2 = info ∧
          Visited arch pLP tr bl seen (visitType heap fuel seen m) st p.1)
        (getTypeInfo arch pLP fuel st m.type m.pDecl)
        (memberInfo arch pLP heap (infoBelow arch pLP tr bl r) m)) ∧
    (∀ seen s st, 2 * tr.rank (.struct s) + 2 ≤ fuel → s ∉ seen →
      (heap.structAt s).declarations.isSome →
      WalkRel arch pLP tr bl seen (tr.rank (.struct s)) st.heap →
      st.bl.blc.blank = bl.blc.blank → HarmlessStruct arch pLP heap bl fuel seen s →
      Related (fun st' _ => Visited arch pLP tr bl seen (visitStruct heap fuel seen s) st st')
        (layoutCompound arch pLP fuel st s) (referenceStruct arch pLP tr bl s)) := by
  induction fuel with
  | zero => exact ⟨fun _ _ _ _ _ h => absurd h (by omega), fun _ _ _ h => absurd h (by omega)⟩
  | succ fuel ih =>
    obtain ⟨ihType, ihStruct⟩ := ih
    constructor
    · rintro r seen ⟨type, pDecl⟩ st hnode - hwalk hblank hharmless
      simp only [getTypeInfo, memberInfo]
      rw [visitType]
      rw [HarmlessType] at hharmless
      by_cases hptr : (pDecl.any Declarator.pointer_flag) = true
      · have hnone : (Member.mk type pDecl).node = none := if_pos hptr
        rw [if_pos hptr, if_pos hptr, hnone]
        exact visited_declare _ ⟨rfl, .refl _ _⟩
      · rw [if_neg hptr, if_neg hptr]
        cases type with
        | basic tflags =>
          have hnone : (Member.mk (.basic tflags) pDecl).node = none := if_neg hptr
          rw [hnone]
          exact visited_declare _ ⟨rfl, .refl _ _⟩
        | enum pES =>
          have hnone : (Member.mk (.enum pES) pDecl).node = none := if_neg hptr
          rw [hnone]
          dsimp only
          rw [hwalk.enums]
          exact visited_declare _ ⟨rfl, .refl _ _⟩
        | typedef t =>
          have hsome : (Member.mk (.typedef t) pDecl).node = some (.typedef t) := if_neg hptr
          rw [hsome] at hharmless ⊢
          obtain ⟨hlt, hfuel⟩ := hnode _ hsome
          dsimp only
          rw [infoBelow_of_lt arch pLP tr bl hlt, nodeInfo_typedef, hwalk.typedefs]
          have hbelow (n : TypeNode) (hn : (heap.typedefAt t).member.node = some n) :
              tr.rank n < tr.rank (.typedef t) ∧ 2 * tr.rank n + 3 ≤ fuel := by
            have := tr.typedef_lt t n hn
            omega
          exact visited_declare _ (ihType _ seen (heap.typedefAt t).member st hbelow (by omega)
            (hwalk.mono hlt.le) hblank hharmless)
        | compound kind s =>
          have hsome : (Member.mk (.compound kind s) pDecl).node = some (.struct s) := if_neg hptr
          rw [hsome] at hharmless ⊢
          obtain ⟨hlt, hfuel⟩ := hnode _ hsome
          dsimp only
          rw [infoBelow_of_lt arch pLP tr bl hlt]
          have hlayout := getTypeInfo_struct hfresh (hwalk.mono hlt)
            fun hs hbody => ihStruct seen s st (by omega) hs hbody (hwalk.mono hlt.le) hblank
              (hharmless ⟨hbody, hs⟩)
          have hdone := hlayout.bind (S := fun (p : LayoutState × TypeInfo) info =>
              p.2 = info ∧ Visited arch pLP tr bl seen
              (if (heap.structAt s).declarations.isSome ∧ s ∉ seen then visitStruct heap fuel seen s
                else []) st p.1)
            (f := fun st' => .ok (st', structInfo arch pLP (st'.heap.structAt s))) (g := pure)
            fun _ _ hinfo => hinfo
          rw [bind_pure] at hdone
          exact visited_declare _ hdone
    · intro seen s st hfuel hs hbody hwalk hblank hharmless
      have hask : Answers arch pLP tr bl fuel s (getTypeInfo arch pLP fuel)
          (memberInfo arch pLP heap (infoBelow arch pLP tr bl (tr.rank (.struct s)))) := by
        intro seen' m st' hm hwalk' hblank' hharmless'
        have hbelow (n : TypeNode) (hn : m.node = some n) :
            tr.rank n < tr.rank (.struct s) ∧ 2 * tr.rank n + 3 ≤ fuel := by
          have := tr.struct_lt s m hm n hn
          omega
        exact ihType _ seen' m st' hbelow (by omega) hwalk' hblank' hharmless'
      have hrelated := layoutStruct_related hask hwalk hblank hharmless hbody
      have hreference : referenceStruct arch pLP tr bl s = layoutStruct arch pLP
          (knownQuery (memberInfo arch pLP heap (infoBelow arch pLP tr bl (tr.rank (.struct s)))))
          () bl (heap.structAt s) >>= fun q => .ok q.2.2 := rfl
      simp only [layoutCompound]
      rw [hwalk.fresh s hs, hreference]
      apply hrelated.with_ok.bind
      rintro ⟨heap', bl', pStruct⟩ ⟨_, bl'', pStruct'⟩ ⟨⟨hstruct, halign, f, g, hbl, hopen⟩, -, hok⟩
      dsimp only at hstruct halign hbl hopen ⊢
      subst hstruct hbl
      exact hopen.close hwalk hs hblank halign (hreference.trans (by rw [hok]; rfl))

end Simulation

end ConvertBinaryC
