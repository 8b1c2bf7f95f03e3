import ConvertBinaryC.CTLibIntegerText

/-! The walker over compound member expressions such as `.a[2].b+3`
(`member_expr_walker_*` of `cbc/member.c`). -/
namespace ConvertBinaryC

def isAlpha (c : Char) : Bool := ('a' ≤ c ∧ c ≤ 'z') ∨ isUpper c

def isMemberStart (c : Char) : Bool := isAlpha c ∨ c = '_'

def isMemberChar (c : Char) : Bool := isAlpha c ∨ isDigit c ∨ c = '_'

/-- What one call of the walker reports; `finished` is `MERV_END`. -/
inductive MeWalkInfo where
  | compoundMember (name : String) (has_dot : Bool)
  | arrayIndex (index : ℤ)
  | offset (offset : ℤ)
  | errInvalidMemberStart
  | errInvalidIndex
  | errInvalidChar (c : Char)
  | errIndexNotTerminated
  | errIncomplete
  | errTerminated
  | finished
  deriving DecidableEq, Repr

/-- Between two calls the walker is in `ST_SEARCH` or in `ST_TERM`. -/
structure MemberExprWalker where
  p : List Char
  startup : Bool
  terminated : Bool
  deriving DecidableEq, Repr

def memberExprWalkerNew (expr : List Char) : MemberExprWalker := ⟨expr, true, false⟩

/-- The result of an error and of the end: the walker is in `ST_TERM`. -/
def MemberExprWalker.stop (me : MemberExprWalker) (info : MeWalkInfo) :
    MeWalkInfo × MemberExprWalker := (info, { me with terminated := true })

def MemberExprWalker.found (info : MeWalkInfo) (p : List Char) : MeWalkInfo × MemberExprWalker :=
  (info, ⟨p, false, false⟩)

def digitsValue (s : List Char) : ℤ := s.foldl (fun n c => 10 * n + digitValue c) 0

/-- `atoi`, as a saturating conversion to long that is stored as an int. -/
def atoi (s : List Char) : ℤ :=
  let value := match skipSpace s with
    | '-' :: rest => -digitsValue (rest.takeWhile isDigit)
    | '+' :: rest => digitsValue (rest.takeWhile isDigit)
    | rest => digitsValue (rest.takeWhile isDigit)
  i32 (max (-9223372036854775808) (min value 9223372036854775807))

/-- `ST_MEMBER` -/
def walkMember (me : MemberExprWalker) (has_dot : Bool) (s : List Char) :
    MeWalkInfo × MemberExprWalker :=
  match skipSpace s with
  | [] => me.stop .errIncomplete
  | c :: rest =>
    if isMemberStart c then
      MemberExprWalker.found (.compoundMember (String.ofList (c :: rest.takeWhile isMemberChar)) has_dot)
        (rest.dropWhile isMemberChar)
    else me.stop .errInvalidMemberStart

/-- `ST_FINISH_INDEX` -/
def walkFinishIndex (me : MemberExprWalker) (ixstr s : List Char) :
    MeWalkInfo × MemberExprWalker :=
  match skipSpace s with
  | [] => me.stop .errIncomplete
  | ']' :: rest => MemberExprWalker.found (.arrayIndex (atoi ixstr)) rest
  | _ => me.stop .errIndexNotTerminated

def skipSign (s : List Char) : List Char :=
  match s with
  | '-' :: rest => rest
  | '+' :: rest => rest
  | _ => s

/-- `ST_INDEX` -/
def walkIndex (me : MemberExprWalker) (s : List Char) : MeWalkInfo × MemberExprWalker :=
  match skipSpace s with
  | [] => me.stop .errIncomplete
  | ixstr =>
    match skipSign ixstr with
    | c :: rest =>
      if isDigit c then walkFinishIndex me ixstr (rest.dropWhile isDigit)
      else me.stop .errInvalidIndex
    | [] => me.stop .errInvalidIndex

/-- A member that starts without a dot, which is accepted at the very beginning. -/
def walkDotless (me : MemberExprWalker) (s : List Char) : MeWalkInfo × MemberExprWalker :=
  match s with
  | [] => me.stop .finished
  | c :: _ =>
    if me.startup && isMemberStart c then walkMember me false s
    else me.stop (.errInvalidChar c)

/-- `member_expr_walker_walk` -/
def memberExprWalk (me : MemberExprWalker) : MeWalkInfo × MemberExprWalker :=
  if me.terminated then (.errTerminated, me)
  else match skipSpace me.p with
    | '+' :: c :: rest =>
      -- an offset is only allowed at the end of the string
      if skipSpace ((c :: rest).dropWhile isDigit) = [] then
        MemberExprWalker.found (.offset (atoi (c :: rest))) []
      else walkDotless me ('+' :: c :: rest)
    | '.' :: rest => walkMember me true rest
    | '[' :: rest => walkIndex me rest
    | s => walkDotless me s

/-- What the calls on one walker report, up to the first error or the end. -/
def memberExprItems : ℕ → MemberExprWalker → List MeWalkInfo
  | 0, _ => []
  | calls + 1, me =>
    let (info, me) := memberExprWalk me
    info :: if me.terminated then [] else memberExprItems calls me

/-- Every report before the last one has read a character, so one call more than there
are characters reaches the last one. -/
def memberExpr (expr : List Char) : List MeWalkInfo :=
  memberExprItems (expr.length + 1) (memberExprWalkerNew expr)

theorem skipSpace_length (s : List Char) : (skipSpace s).length ≤ s.length :=
  (List.dropWhile_suffix _).length_le

theorem dropWhile_length_lt {p : Char → Bool} {c : Char} {s : List Char} :
    (s.dropWhile p).length < (c :: s).length :=
  Nat.lt_succ_of_le (List.dropWhile_suffix p).length_le

/-- A call stops the walker or moves it forward. -/
def Advances (s : List Char) (r : MeWalkInfo × MemberExprWalker) : Prop :=
  r.2.terminated = false → r.2.p.length < s.length

theorem stop_advances (me : MemberExprWalker) (s : List Char) (info : MeWalkInfo) :
    Advances s (me.stop info) := fun h => absurd h Bool.noConfusion

theorem Advances.mono {s s' : List Char} {r : MeWalkInfo × MemberExprWalker}
    (h : Advances s r) (hle : s.length ≤ s'.length) : Advances s' r :=
  fun hr => (h hr).trans_le hle

theorem walkMember_advances (me : MemberExprWalker) (has_dot : Bool) (s : List Char) :
    Advances s (walkMember me has_dot s) := by
  have hle := skipSpace_length s
  unfold walkMember
  split
  · apply stop_advances
  · rename_i c rest heq
    rw [heq] at hle
    split_ifs
    · exact fun _ => dropWhile_length_lt.trans_le hle
    · apply stop_advances

theorem walkFinishIndex_advances (me : MemberExprWalker) (ixstr s : List Char) :
    Advances s (walkFinishIndex me ixstr s) := by
  have hle := skipSpace_length s
  unfold walkFinishIndex
  split
  · apply stop_advances
  · rename_i rest heq
    rw [heq] at hle
    exact fun _ => hle
  · apply stop_advances

theorem skipSign_length (s : List Char) : (skipSign s).length ≤ s.length := by
  unfold skipSign
  split
  · exact Nat.le_succ _
  · exact Nat.le_succ _
  · exact le_rfl

theorem walkIndex_advances (me : MemberExprWalker) (s : List Char) :
    Advances s (walkIndex me s) := by
  have hle := (skipSign_length (skipSpace s)).trans (skipSpace_length s)
  unfold walkIndex
  split
  · apply stop_advances
  · split
    · rename_i c rest heq
      rw [heq] at hle
      split_ifs
      · apply Advances.mono (walkFinishIndex_advances me _ _)
        exact dropWhile_length_lt.le.trans hle
      · apply stop_advances
    · apply stop_advances

theorem walkDotless_advances (me : MemberExprWalker) (s : List Char) :
    Advances s (walkDotless me s) := by
  unfold walkDotless
  split
  · apply stop_advances
  · split_ifs
    · apply walkMember_advances
    · apply stop_advances

theorem memberExprWalk_advances (me : MemberExprWalker) (h : me.terminated = false) :
    Advances me.p (memberExprWalk me) := by
  have hle := skipSpace_length me.p
  unfold memberExprWalk
  rw [h, if_neg Bool.false_ne_true]
  split
  · rename_i c rest heq
    rw [heq] at hle
    split_ifs
    · exact fun _ => (Nat.succ_pos _).trans_le hle
    · exact (walkDotless_advances me _).mono hle
  · rename_i rest heq
    rw [heq] at hle
    exact (walkMember_advances me _ rest).mono ((Nat.le_succ _).trans hle)
  · rename_i rest heq
    rw [heq] at hle
    exact (walkIndex_advances me rest).mono ((Nat.le_succ _).trans hle)
  · exact (walkDotless_advances me _).mono hle

end ConvertBinaryC
