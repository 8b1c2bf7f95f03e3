import Mathlib.Data.List.DropRight
import ConvertBinaryC.CBCMember

/-! What a compound member expression addresses, without the conversions and the limits of
`get_member` (`cbc/member.c`): numbers are as they are written, offsets and sizes are sums
and products of what the layout has recorded. -/
namespace ConvertBinaryC

/-- The number that a text starts with. -/
def writtenNumber (s : List Char) : ℤ :=
  match skipSpace s with
  | '-' :: rest => -digitsValue (rest.takeWhile isDigit)
  | '+' :: rest => digitsValue (rest.takeWhile isDigit)
  | rest => digitsValue (rest.takeWhile isDigit)

/-- What `atoi` makes of a number. -/
def storedNumber (n : ℤ) : ℤ := i32 (max (-9223372036854775808) (min n 9223372036854775807))

theorem atoi_eq_storedNumber (s : List Char) : atoi s = storedNumber (writtenNumber s) := rfl

theorem skipSpace_idem (s : List Char) : skipSpace (skipSpace s) = skipSpace s := by
  unfold skipSpace
  exact List.dropWhile_idempotent ..

theorem writtenNumber_skipSpace (s : List Char) :
    writtenNumber (skipSpace s) = writtenNumber s := by
  unfold writtenNumber
  rw [skipSpace_idem]

/-- The report of a walker at `p`, with the number that is written there. -/
def MeWalkInfo.written (p : List Char) : MeWalkInfo → MeWalkInfo
  | .arrayIndex _ => .arrayIndex (writtenNumber (skipSpace p).tail)
  | .offset _ => .offset (writtenNumber (skipSpace p).tail)
  | info => info

def MeWalkInfo.stored : MeWalkInfo → MeWalkInfo
  | .arrayIndex index => .arrayIndex (storedNumber index)
  | .offset n => .offset (storedNumber n)
  | info => info

/-- The reports on an expression, with the numbers that are written in it. -/
def writtenItems : ℕ → MemberExprWalker → List MeWalkInfo
  | 0, _ => []
  | calls + 1, me =>
    let (info, next) := memberExprWalk me
    info.written me.p :: if next.terminated then [] else writtenItems calls next

def writtenExpr (expr : List Char) : List MeWalkInfo :=
  writtenItems (expr.length + 1) (memberExprWalkerNew expr)

section Written
variable (me : MemberExprWalker) (has_dot : Bool) (p s : List Char)

/-- Reports without a number are as they are written. -/
theorem walkMember_stored :
    ((walkMember me has_dot s).1.written p).stored = (walkMember me has_dot s).1 := by
  unfold walkMember
  split
  · rfl
  · split_ifs
    · rfl
    · rfl

theorem walkDotless_stored : ((walkDotless me s).1.written p).stored = (walkDotless me s).1 := by
  unfold walkDotless
  split
  · rfl
  · split_ifs
    · exact walkMember_stored me false p _
    · rfl

theorem walkIndex_stored (hp : (skipSpace p).tail = s) :
    ((walkIndex me s).1.written p).stored = (walkIndex me s).1 := by
  have hfinish (ixstr rest : List Char) (hixstr : skipSpace s = ixstr) :
      ((walkFinishIndex me ixstr rest).1.written p).stored =
        (walkFinishIndex me ixstr rest).1 := by
    have hnumber : storedNumber (writtenNumber s) = atoi ixstr := by
      rw [atoi_eq_storedNumber, ← hixstr, writtenNumber_skipSpace]
    unfold walkFinishIndex
    split
    · rfl
    · show MeWalkInfo.arrayIndex (storedNumber (writtenNumber (skipSpace p).tail)) = _
      rw [hp, hnumber]
      rfl
    · rfl
  unfold walkIndex
  split
  · rfl
  · split
    · split_ifs
      · exact hfinish _ _ rfl
      · rfl
    · rfl

theorem memberExprWalk_stored :
    ((memberExprWalk me).1.written me.p).stored = (memberExprWalk me).1 := by
  unfold memberExprWalk
  split_ifs
  · rfl
  · split
    · rename_i c rest heq
      split_ifs
      · show MeWalkInfo.offset (storedNumber (writtenNumber (skipSpace me.p).tail)) = _
        rw [heq]
        rfl
      · exact walkDotless_stored me _ _
    · exact walkMember_stored me true _ _
    · rename_i rest heq
      apply walkIndex_stored
      rw [heq]
      rfl
    · exact walkDotless_stored me _ _

/-- Only a walker that has stopped reports that it has. -/
theorem memberExprWalk_seen (h : me.terminated = false) :
    (memberExprWalk me).1 ≠ .errTerminated := by
  have hmember (has_dot : Bool) (s : List Char) : (walkMember me has_dot s).1 ≠ .errTerminated := by
    unfold walkMember
    split
    · simp [MemberExprWalker.stop]
    · split_ifs
      · simp [MemberExprWalker.found]
      · simp [MemberExprWalker.stop]
  have hindex (s : List Char) : (walkIndex me s).1 ≠ .errTerminated := by
    unfold walkIndex walkFinishIndex
    split
    · simp [MemberExprWalker.stop]
    · split
      · split_ifs
        · split <;> simp [MemberExprWalker.stop, MemberExprWalker.found]
        · simp [MemberExprWalker.stop]
      · simp [MemberExprWalker.stop]
  have hdotless (s : List Char) : (walkDotless me s).1 ≠ .errTerminated := by
    unfold walkDotless
    split
    · simp [MemberExprWalker.stop]
    · split_ifs
      · exact hmember false _
      · simp [MemberExprWalker.stop]
  unfold memberExprWalk
  rw [h, if_neg Bool.false_ne_true]
  split
  · split_ifs
    · simp [MemberExprWalker.found]
    · exact hdotless _
  · exact hmember true _
  · exact hindex _
  · exact hdotless _

theorem writtenItems_seen (calls : ℕ) (h : me.terminated = false) :
    .errTerminated ∉ writtenItems calls me := by
  induction calls generalizing me with
  | zero => exact List.not_mem_nil
  | succ calls ih =>
    have hinfo : ((memberExprWalk me).1.written me.p) ≠ .errTerminated := by
      have hwalk := memberExprWalk_seen me h
      cases hreport : (memberExprWalk me).1 with
      | errTerminated => exact absurd hreport hwalk
      | _ => exact fun h => nomatch h
    rw [writtenItems, List.mem_cons, not_or]
    refine ⟨hinfo.symm, ?_⟩
    cases hnext : (memberExprWalk me).2.terminated with
    | true => exact List.not_mem_nil
    | false => exact ih _ hnext

theorem memberExprItems_stored (calls : ℕ) :
    memberExprItems calls me = (writtenItems calls me).map MeWalkInfo.stored := by
  induction calls generalizing me with
  | zero => rfl
  | succ calls ih =>
    show (memberExprWalk me).1 ::
      (if (memberExprWalk me).2.terminated then [] else memberExprItems calls (memberExprWalk me).2) = _
    have hinfo := memberExprWalk_stored me
    rw [writtenItems, List.map_cons, hinfo]
    cases (memberExprWalk me).2.terminated with
    | true => rfl
    | false =>
      -- the walkers after this report are the same
      congr 1
      exact ih _

/-- `get_member` sees the written expression through `atoi`. -/
theorem memberExpr_stored (expr : List Char) :
    memberExpr expr = (writtenExpr expr).map MeWalkInfo.stored :=
  memberExprItems_stored _ _

end Written

/-- A member that can be named in a compound, with the offsets that lead to it. -/
structure VisibleMember where
  offsets : List ℤ
  type : TypeSpec
  pDecl : Declarator

def VisibleMember.behind (offset : ℤ) (m : VisibleMember) : VisibleMember :=
  { m with offsets := offset :: m.offsets }

/-- The members of a compound in the order of their declarations, with those of unnamed
compounds. An unnamed member that is no compound leaves a gap. -/
def visibleMembers (heap : Heap) : ℕ → ℕ → List (Option VisibleMember)
  | 0, _ => [none]
  | fuel + 1, s => ((heap.structAt s).declarations.getD []).flatMap fun pStructDecl =>
    match pStructDecl.declarators with
    | some declarators => declarators.map fun pDecl => some ⟨[pDecl.offset], pStructDecl.type, pDecl⟩
    | none =>
      match followTsptr heap fuel pStructDecl.type with
      | .ok s => (visibleMembers heap fuel s).map (Option.map (VisibleMember.behind pStructDecl.offset))
      | .error _ => [none]

/-- Where a search for a name stops: at a member of that name or at a gap. -/
def stopsSearch (elem : String) (entry : Option VisibleMember) : Bool :=
  entry.all fun m => m.pDecl.identifier = elem

/-- The size of a declarator below `level` of its dimensions: the item size times the
dimensions that are left. -/
def Declarator.partSize (d : Declarator) (level : ℕ) : ℤ :=
  if d.isArray then d.item_size * ((d.dims.drop level).map Value.iv).prod else d.size

def CBC.typeSize (cbc : CBC) : TypeSpec → ℤ
  | .basic tflags => basicSize cbc.arch cbc.pLP tflags
  | .enum pES => enumTypeSize cbc.pLP (cbc.heap.enumAt pES)
  | .compound _ s => (cbc.heap.structAt s).size
  | .typedef t => (cbc.heap.typedefAt t).decl.size

/-- What an expression has come to: a declarator below `level` of its dimensions, or a
type without one; `name` is the last member that was named. -/
structure Place where
  type : TypeSpec
  pDecl : Option Declarator
  name : Option String
  level : ℕ
  offset : ℤ
  deriving DecidableEq

namespace Place

/-- The size of the object. -/
def size (cbc : CBC) (p : Place) : ℤ :=
  match p.pDecl with
  | some d => d.partSize p.level
  | none => cbc.typeSize p.type

def start (heap : Heap) (pMI : MemberInfo) : Place :=
  ⟨(gmBase heap pMI).1, (gmBase heap pMI).2, none, pMI.level, 0⟩

section Access
variable (heap : Heap)

/-- An object of a typedef's type is what the typedef declares. -/
def expand (p : Place) : Option Place :=
  match p.pDecl, p.type with
  | some d, .typedef t =>
    if d.pointer_flag = false ∧ p.level = d.dims.length then
      some { p with
        type := (heap.typedefAt t).type, pDecl := some (heap.typedefAt t).decl, level := 0 }
    else none
  | _, _ => none

def settle : ℕ → Place → Place
  | 0, p => p
  | fuel + 1, p =>
    match p.expand heap with
    | some q => settle fuel q
    | none => p

/-- The compound that the object is. -/
def compound (p : Place) : Option ℕ :=
  if p.pDecl.all fun d => d.pointer_flag = false ∧ p.level = d.dims.length then
    match p.type with
    | .compound _ s => some s
    | _ => none
  else none

/-- The first member of a name. -/
def member (fuel : ℕ) (p : Place) (elem : String) : Option Place := do
  let s ← p.compound
  let m ← (visibleMembers heap fuel s).reduceOption.find? fun m => m.pDecl.identifier = elem
  some ⟨m.type, some m.pDecl, some elem, 0, p.offset + m.offsets.sum⟩

/-- Is an index outside of its dimension? A dimension that is not defined has no bound. -/
def Outside (pValue : Value) (index : ℤ) : Prop :=
  pValue.undef = false ∧ ¬ (0 ≤ index ∧ index < pValue.iv)

instance (pValue : Value) : DecidablePred (Outside pValue) := fun _ =>
  inferInstanceAs (Decidable (_ ∧ _))

/-- An element of an array; with `reject` only inside of its bounds. -/
def element (reject : Bool) (p : Place) (index : ℤ) : Option Place := do
  let d ← p.pDecl
  let pValue ← d.dims[p.level]?
  if reject ∧ Outside pValue index then none
  else some { p with
    level := p.level + 1, offset := p.offset + index * d.partSize (p.level + 1) }

/-- One access. Only the first member may come without a dot. -/
def step (fuel : ℕ) (flags : GmFlags) (dotless : Bool) (p : Place) : MeWalkInfo → Option Place
  | .compoundMember name has_dot =>
    if !dotless && !has_dot then none else (p.settle heap fuel).member heap fuel name
  | .arrayIndex index => (p.settle heap fuel).element flags.reject_out_of_bounds_index index
  | .offset n =>
    if flags.reject_offset then none
    else some { p.settle heap fuel with offset := (p.settle heap fuel).offset + n }
  | _ => none

def walk (fuel : ℕ) (flags : GmFlags) (dotless : Bool) (p : Place) : List MeWalkInfo → Option Place
  | [] => some p
  | info :: rest => do
    let q ← p.step heap fuel flags dotless info
    walk fuel flags false q rest

end Access

end Place

/-- The accesses of an expression, with an error as the last one if there is one. -/
def accesses (member : String) : List MeWalkInfo :=
  (writtenExpr member.toList).takeWhile (· ≠ .finished)

/-- A report that the loop of `get_member` sees: not the end, and never a second end. -/
def MeWalkInfo.Seen (info : MeWalkInfo) : Prop := info ≠ .finished ∧ info ≠ .errTerminated

theorem accesses_seen (member : String) : ∀ info ∈ accesses member, info.Seen := by
  intro info hinfo
  have hmem : info ∈ writtenExpr member.toList := List.takeWhile_subset _ hinfo
  constructor
  · have hkept := List.mem_takeWhile_imp hinfo
    exact of_decide_eq_true hkept
  · rintro rfl
    exact writtenItems_seen _ _ rfl hmem

theorem MeWalkInfo.stored_finished_iff (info : MeWalkInfo) :
    info.stored = .finished ↔ info = .finished := by
  cases info with
  | finished => exact Iff.rfl
  | _ => exact iff_of_false (fun h => nomatch h) (fun h => nomatch h)

/-- The loop ends at the end of the expression. -/
theorem memberExpr_accesses (member : String) :
    (memberExpr member.toList).takeWhile (· ≠ .finished) =
      (accesses member).map MeWalkInfo.stored := by
  have hsame : ((fun info : MeWalkInfo => decide (info ≠ .finished)) ∘ MeWalkInfo.stored) =
      fun info => decide (info ≠ .finished) := by
    funext info
    exact decide_eq_decide.mpr (not_congr info.stored_finished_iff)
  rw [memberExpr_stored, List.takeWhile_map, hsame]
  rfl

end ConvertBinaryC
