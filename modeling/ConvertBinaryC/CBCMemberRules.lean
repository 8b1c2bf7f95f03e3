import ConvertBinaryC.CBCMember
import ConvertBinaryC.CBCPackTrace

/-! The declarators that `get_member` comes to, and where it divides by zero. -/
namespace ConvertBinaryC

/-- The declarator of a member or of a typedef. -/
def Heap.HasDeclarator (heap : Heap) (d : Declarator) : Prop :=
  (∃ s, ∃ pStructDecl ∈ (heap.structAt s).declarations.getD [],
    d ∈ pStructDecl.declarators.getD []) ∨ ∃ t, (heap.typedefAt t).decl = d

theorem Heap.declarators_of {heap : Heap} {P : Declarator → Prop}
    (h : ∀ d, heap.HasDeclarator d → P d) : heap.Declarators P where
  member s pStructDecl hmem d hd := h d (.inl ⟨s, pStructDecl, hmem, hd⟩)
  typedef t := h _ (.inr ⟨t, rfl⟩)

/-- A computation that does not divide by zero, and what it gives when it returns. -/
structure Yields {α : Type} (Q : α → Prop) (c : Call α) : Prop where
  undivided : Undivided c
  gives : ∀ a, c = .ok a → Q a

theorem Yields.ok {α : Type} {Q : α → Prop} {a : α} (h : Q a) : Yields Q (.ok a) where
  undivided := (plain_ok a).toUndivided
  gives b hb := by
    cases hb
    exact h

theorem Yields.error {α : Type} {Q : α → Prop} {e : Fault} (h : e ≠ .divideByZero) :
    Yields Q (.error e : Call α) where
  undivided := undivided_error h
  gives _ hb := nomatch hb

theorem Yields.bind {α β : Type} {Q : α → Prop} {R : β → Prop} {c : Call α} {f : α → Call β}
    (hc : Yields Q c) (hf : ∀ a, Q a → Yields R (f a)) : Yields R (c >>= f) := by
  cases c with
  | ok a => exact hf a (hc.gives a rfl)
  | error e => exact Yields.error fun h => hc.undivided.ne (congrArg _ h)

theorem Undivided.yields {α : Type} {c : Call α} (h : Undivided c) : Yields (fun _ => True) c :=
  ⟨h, fun _ _ => trivial⟩

theorem plain_int (x : ℤ) : Plain (int x) := by
  unfold int
  split_ifs
  · exact plain_ok _
  · exact plain_ub

theorem yields_croak {α : Type} {Q : α → Prop} (err : String) : Yields Q (gmError err : Call α) :=
  Yields.error fun h => nomatch h

section Search
variable {heap : Heap} {P : Declarator → Prop} (hheap : heap.Declarators P)
include hheap

omit hheap in
theorem yields_searchDeclarations {fuel : ℕ} {search : ℕ → Call (Option FoundMember)}
    (hsearch : ∀ s, Yields (fun found => ∀ f ∈ found, P f.pDecl) (search s)) (elem : String)
    (declarations : List StructDeclaration)
    (hmem : ∀ pStructDecl ∈ declarations, ∀ d ∈ pStructDecl.declarators.getD [], P d) :
    Yields (fun found => ∀ f ∈ found, P f.pDecl)
      (searchDeclarations heap fuel search elem declarations) := by
  induction declarations with
  | nil => exact Yields.ok fun f hf => nomatch hf
  | cons pStructDecl declarations ih =>
    have hrest := ih fun sd hsd => hmem sd (List.mem_cons_of_mem _ hsd)
    unfold searchDeclarations
    cases hdecls : pStructDecl.declarators with
    | some declarators =>
      dsimp only
      split
      · rename_i pDecl hfind
        apply Yields.ok
        rintro f ⟨⟩
        apply hmem pStructDecl List.mem_cons_self
        rw [hdecls]
        exact List.mem_of_find?_eq_some hfind
      · exact hrest
    | none =>
      apply (undivided_followTsptr heap fuel pStructDecl.type).yields.bind
      intro s _
      apply (hsearch s).bind
      intro found hfound
      cases found with
      | none => exact hrest
      | some f =>
        apply (plain_int _).toUndivided.yields.bind
        intro offset _
        apply Yields.ok
        rintro f' ⟨⟩
        exact hfound f rfl

theorem yields_searchStructMember (elem : String) (fuel s : ℕ) :
    Yields (fun found => ∀ f ∈ found, P f.pDecl) (searchStructMember heap elem fuel s) := by
  induction fuel generalizing s with
  | zero => exact Yields.error fun h => nomatch h
  | succ fuel ih =>
    apply (yields_searchDeclarations ih elem _ (hheap.member s)).bind
    intro found hfound
    apply Yields.ok
    intro f hf
    obtain ⟨f', hf', rfl⟩ := Option.mem_map.mp hf
    exact hfound f' hf'

theorem yields_gmTypedefs (fuel t : ℕ) : Yields (fun r => P r.2) (gmTypedefs heap fuel t) := by
  induction fuel generalizing t with
  | zero => exact Yields.error fun h => nomatch h
  | succ fuel ih =>
    unfold gmTypedefs
    dsimp only
    split
    · split_ifs
      · exact ih _
      · exact Yields.ok (hheap.typedef t)
    · exact Yields.ok (hheap.typedef t)

end Search

/-- No dimension is 0, and none that is compared with an index is 0 as an int. -/
def Indexable (d : Declarator) : Prop :=
  ∀ v ∈ d.dims, v.iv ≠ 0 ∧ (v.undef = false → ¬ (4294967296 : ℤ) ∣ v.iv)

def GmState.Sound (st : GmState) : Prop := ∀ d ∈ st.pDecl, Indexable d

theorem undivided_divideInt {size dim : ℤ} (h : dim ≠ 0) : Undivided (divideInt size dim) := by
  unfold divideInt
  rw [if_neg h]
  exact (plain_ok _).toUndivided

theorem undivided_levelSize {d : Declarator} (hd : Indexable d) (level : ℕ) :
    Undivided (levelSize d level) := by
  have hdims (dims : List Value) (hdims : ∀ v ∈ dims, v.iv ≠ 0) (size : ℤ) :
      Undivided (dims.foldlM (fun size pValue => divideInt size pValue.iv) size) := by
    induction dims generalizing size with
    | nil => exact (plain_ok size).toUndivided
    | cons v dims ih =>
      rw [List.foldlM_cons]
      apply (undivided_divideInt (hdims v List.mem_cons_self)).bind
      exact fun size' _ => ih (fun w hw => hdims w (List.mem_cons_of_mem _ hw)) size'
  unfold levelSize
  split_ifs
  · exact (plain_ok _).toUndivided
  · exact undivided_error fun h => nomatch h
  · exact plain_ub.toUndivided
  · exact hdims _ (fun v hv => (hd v (List.mem_of_mem_take hv)).1) _

theorem yields_truncName (name : String) : Yields (fun _ => True) (truncName name) := by
  unfold truncName
  split_ifs
  · exact Yields.ok trivial
  · exact plain_ub.toUndivided.yields
  · exact Yields.ok trivial

theorem yields_cannotAccess {α : Type} {Q : α → Prop} (type name : String) :
    Yields Q (cannotAccess type name : Call α) :=
  (yields_truncName name).bind fun _ _ => yields_croak _

theorem yields_cannotIndex {α : Type} {Q : α → Prop} (name : Option String) (what : String) :
    Yields Q (cannotIndex name what : Call α) := by
  cases name with
  | none => exact yields_croak _
  | some name => exact (yields_truncName name).bind fun _ _ => yields_croak _

section Walk
variable {heap : Heap} (hheap : heap.Declarators Indexable) (fuel : ℕ) (flags : GmFlags)

theorem yields_elementSize {d : Declarator} (hd : Indexable d) {v : Value} (hv : v ∈ d.dims)
    (level : ℕ) (size index : ℤ) :
    Yields (fun _ => True) (gmElementSize flags d v level size index) := by
  unfold gmElementSize
  dsimp only
  split_ifs with hundef
  · exact Yields.error fun h => nomatch h
  · exact (plain_timesDims _ _).toUndivided.yields
  · exact Yields.ok trivial
  · exact yields_croak _
  · exact yields_croak _
  · exact Yields.error fun h => nomatch h
  · apply Undivided.yields
    apply undivided_divideInt
    intro hzero
    exact (hd v hv).2 (Bool.eq_false_of_not_eq_true hundef) (i32_eq_zero.mp hzero)
  · exact Yields.ok trivial

theorem yields_gmOffset (offset size index : ℤ) :
    Yields (fun _ => True) (gmOffset flags offset size index) := by
  unfold gmOffset
  split_ifs
  · exact Yields.error fun h => nomatch h
  · exact (plain_int _).toUndivided.yields.bind fun _ _ => (plain_int _).toUndivided.yields
  · exact Yields.ok trivial

theorem yields_calc {c : Call ℤ} (hc : Undivided c) (x : ℤ) :
    Yields (fun _ => True) (if flags.do_calc then c else .ok x : Call ℤ) := by
  split
  · exact hc.yields
  · exact Yields.ok trivial

theorem yields_gmIndex {st : GmState} (hst : st.Sound) (index : ℤ) :
    Yields GmState.Sound (gmIndex flags st index) := by
  unfold gmIndex
  cases hdecl : st.pDecl with
  | none => exact yields_cannotIndex _ _
  | some d =>
    dsimp only
    split_ifs
    · exact yields_cannotIndex _ _
    · split
      · exact yields_cannotIndex _ _
      · rename_i v hv
        have hd : Indexable d := hst d hdecl
        apply (yields_elementSize flags hd (List.mem_of_getElem? hv) _ _ _).bind
        intro size _
        apply (yields_gmOffset flags _ _ _).bind
        intro offset _
        apply Yields.ok
        rintro d' ⟨⟩
        exact hd

include hheap

theorem yields_gmStart {pMI : MemberInfo} (hpMI : ∀ d ∈ pMI.pDecl, Indexable d) :
    Yields GmState.Sound (gmStart heap flags pMI) := by
  have hbase : ∀ d ∈ (gmBase heap pMI).2, Indexable d := by
    unfold gmBase
    split
    · rintro d ⟨⟩
      exact hheap.typedef _
    · exact hpMI
  have hsize : Yields (fun _ => True) (gmStartSize flags (gmBase heap pMI).2 pMI.level) := by
    apply yields_calc
    cases hdecl : (gmBase heap pMI).2 with
    | some d => exact undivided_levelSize (hbase d hdecl) _
    | none => exact (plain_ok _).toUndivided
  apply hsize.bind
  exact fun size _ => Yields.ok hbase

theorem yields_gmResolve {st : GmState} (hst : st.Sound) :
    Yields GmState.Sound (gmResolve heap fuel flags st) := by
  unfold gmResolve
  split
  · split
    · apply (yields_gmTypedefs hheap fuel _).bind
      rintro ⟨pType, pDecl⟩ hdecl
      apply Yields.ok
      rintro d ⟨⟩
      exact hdecl
    · exact Yields.ok hst
  · exact Yields.ok hst

theorem yields_gmMember (dotless : Bool) (st : GmState) (name : String) (has_dot : Bool) :
    Yields GmState.Sound (gmMember heap fuel flags dotless st name has_dot) := by
  unfold gmMember
  split
  · exact yields_croak _
  · have hcompound : Yields (fun _ => True) (gmCompound st name) := by
      unfold gmCompound
      split_ifs
      · exact yields_cannotAccess _ _
      · exact yields_cannotAccess _ _
      · split
        · exact Yields.ok trivial
        · exact yields_cannotAccess _ _
    apply hcompound.bind
    intro s _
    apply (yields_searchStructMember hheap name fuel s).bind
    intro found hfound
    cases found with
    | none => exact (yields_truncName name).bind fun _ _ => yields_croak _
    | some f =>
      apply (yields_calc flags (plain_int _).toUndivided _).bind
      intro offset _
      apply Yields.ok
      rintro d ⟨⟩
      exact hfound f rfl

theorem yields_gmStep (dotless : Bool) {st : GmState} (hst : st.Sound) (mei : MeWalkInfo) :
    Yields GmState.Sound (gmStep heap fuel flags dotless st mei) := by
  apply (yields_gmResolve hheap fuel flags hst).bind
  intro st hst
  split
  · exact yields_gmMember hheap fuel flags dotless st _ _
  · exact yields_gmIndex flags hst _
  · split
    · exact yields_croak _
    · apply (yields_calc flags (plain_int _).toUndivided _).bind
      intro offset _
      exact Yields.ok hst
  · exact Yields.error fun h => nomatch h

theorem yields_gmWalk (dotless : Bool) {st : GmState} (hst : st.Sound) (infos : List MeWalkInfo) :
    Yields GmState.Sound (gmWalk heap fuel flags dotless st infos) := by
  induction infos generalizing dotless st with
  | nil => exact Yields.ok hst
  | cons mei infos ih =>
    unfold gmWalk
    split
    · exact Yields.ok hst
    · split
      · rename_i e he
        apply Yields.error
        rintro rfl
        cases mei <;> exact nomatch he
      · apply (yields_gmStep hheap fuel flags dotless hst mei).bind
        intro st' hst'
        exact ih false hst'

theorem undivided_getMember {pMI : MemberInfo} (hpMI : ∀ d ∈ pMI.pDecl, Indexable d)
    (member : String) : Undivided (getMember heap fuel flags pMI member) := by
  have hfound := (yields_gmStart hheap flags hpMI).bind fun st hst =>
    yields_gmWalk hheap fuel flags flags.accept_dotless_member hst (memberExpr member.toList)
  unfold getMember
  dsimp only
  split
  · exact (plain_ok _).toUndivided
  · split_ifs
    · exact (plain_ok _).toUndivided
    · exact undivided_error fun h => nomatch h
  · rename_i e _ he
    apply undivided_error
    rintro rfl
    exact hfound.undivided.ne he

end Walk

end ConvertBinaryC
