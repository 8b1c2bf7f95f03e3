import ConvertBinaryC.CBCMemberPlace

/-! The walker over member expressions as the state machine that it is
(`member_expr_walker_walk` of `cbc/member.c`), and that its calls report what the walk without
states does. -/
namespace ConvertBinaryC
open FoldRules

/-- `enum me_state` -/
inductive MeState where
  | member
  | index
  | finishIndex
  | search
  | term
  deriving DecidableEq, Repr

/-- `struct member_expr`; `room` is the size of `buf`. -/
structure MemberExprState where
  state : MeState
  p : List Char
  startup : Bool
  has_dot : Bool
  buf : List Char
  room : ℕ
  deriving DecidableEq, Repr

/-- `member_expr_walker_new` without a length, so that `buf` gets that of the expression and
one more. -/
def memberExprStateNew (expr : List Char) : MemberExprState :=
  ⟨.search, expr, true, false, [], expr.length + 1⟩

/-- How a turn of the loop ends. -/
inductive MeTurn where
  | again (me : MemberExprState) (c ixstr : List Char)
  | stop (info : MeWalkInfo) (me : MemberExprState)

/-- `goto error` -/
def MemberExprState.error (me : MemberExprState) (info : MeWalkInfo) : MeTurn :=
  .stop info { me with state := .term }

/-- `goto found` -/
def MemberExprState.found (me : MemberExprState) (info : MeWalkInfo) (c : List Char) : MeTurn :=
  .stop info { me with p := c, state := .search }

/-- The next turn, which is not the first one of the walker. -/
def MemberExprState.next (me : MemberExprState) (state : MeState) (c ixstr : List Char) : MeTurn :=
  .again { me with state := state, startup := false } c ixstr

/-- The name and its terminator are written to `buf`. -/
def MemberExprState.storeName (me : MemberExprState) (name : List Char) : Call MemberExprState :=
  if me.room < name.length + 1 then .error .undefinedBehaviour else .ok { me with buf := name }

def memberTurn (me : MemberExprState) (c : Char) (rest : List Char) : Call MeTurn :=
  if isMemberStart c then do
    let me ← me.storeName (c :: rest.takeWhile isMemberChar)
    .ok (me.found (.compoundMember (String.ofList me.buf) me.has_dot) (rest.dropWhile isMemberChar))
  else .ok (me.error .errInvalidMemberStart)

def indexTurn (me : MemberExprState) (ixstr : List Char) : MeTurn :=
  match skipSign ixstr with
  | c :: rest =>
    if isDigit c then me.next .finishIndex (rest.dropWhile isDigit) ixstr
    else me.error .errInvalidIndex
  | [] => me.error .errInvalidIndex

def finishIndexTurn (me : MemberExprState) (c : Char) (rest ixstr : List Char) : MeTurn :=
  if c = ']' then me.found (.arrayIndex (atoi ixstr)) rest else me.error .errIndexNotTerminated

/-- The default of the search, which `'+'` falls through to. -/
def searchDefault (me : MemberExprState) (c : Char) (rest ixstr : List Char) : MeTurn :=
  if !me.startup || !isMemberStart c then me.error (.errInvalidChar c)
  else { me with has_dot := false }.next .member (c :: rest) ixstr

def searchTurn (me : MemberExprState) (c : Char) (rest ixstr : List Char) : MeTurn :=
  if c = '+' then
    if rest ≠ [] ∧ skipSpace (rest.dropWhile isDigit) = [] then
      me.found (.offset (atoi rest)) []
    else searchDefault me c rest ixstr
  else if c = '.' then { me with has_dot := true }.next .member rest ixstr
  else if c = '[' then me.next .index rest ixstr
  else searchDefault me c rest ixstr

/-- One turn of the loop, at `c`. -/
def walkTurn (me : MemberExprState) (c ixstr : List Char) : Call MeTurn :=
  match skipSpace c with
  | [] => .ok (if me.state = .search then me.error .finished else me.error .errIncomplete)
  | c :: rest =>
    match me.state with
    | .member => memberTurn me c rest
    | .index => .ok (indexTurn me (c :: rest))
    | .finishIndex => .ok (finishIndexTurn me c rest ixstr)
    | .search => .ok (searchTurn me c rest ixstr)
    | .term => .error (.fatal "invalid state in member_expr_walker_walk()")

def walkLoop : ℕ → MemberExprState → List Char → List Char → Call (MeWalkInfo × MemberExprState)
  | 0, _, _, _ => .error .outOfFuel
  | turns + 1, me, c, ixstr => do
    match ← walkTurn me c ixstr with
    | .again me c ixstr => walkLoop turns me c ixstr
    | .stop info me => .ok (info, me)

/-- `member_expr_walker_walk`, with a bound for the turns of its loop. -/
def memberExprStateWalk (turns : ℕ) (me : MemberExprState) : Call (MeWalkInfo × MemberExprState) :=
  if me.state = .term then .ok (.errTerminated, me) else walkLoop turns me me.p []

/-- What a number of calls on one walker report. -/
def walkCalls (turns : ℕ) : ℕ → MemberExprState → Call (List MeWalkInfo)
  | 0, _ => .ok []
  | calls + 1, me => do
    let (info, me) ← memberExprStateWalk turns me
    let infos ← walkCalls turns calls me
    .ok (info :: infos)

/-- The reports of the same number of calls without states. -/
def memberExprCalls : ℕ → MemberExprWalker → List MeWalkInfo
  | 0, _ => []
  | calls + 1, me => (memberExprWalk me).1 :: memberExprCalls calls (memberExprWalk me).2

/-- The walker between two calls. Where the text ends it does not matter whether the walker
has started. -/
structure MemberExprState.Matches (me : MemberExprState) (w : MemberExprWalker) : Prop where
  p : w.terminated = false → me.p = w.p
  search : w.terminated = false → me.state = .search
  term : w.terminated = true → me.state = .term
  startup : w.terminated = false → me.startup = w.startup ∨ skipSpace w.p = []
  room : w.terminated = false → w.p.length < me.room

theorem memberExprStateNew_matches (expr : List Char) :
    (memberExprStateNew expr).Matches (memberExprWalkerNew expr) :=
  ⟨fun _ => rfl, fun _ => rfl, (fun h => nomatch h), fun _ => .inl rfl, fun _ => Nat.lt_succ_self _⟩

/-- The call has ended as the one without states. -/
structure Ended (r : MeWalkInfo × MemberExprWalker) (run : Call (MeWalkInfo × MemberExprState)) :
    Prop where
  ok : ∃ me, run = .ok (r.1, me) ∧ me.Matches r.2

section Turns
variable {me : MemberExprState} {w : MemberExprWalker} {turns : ℕ} {c ixstr : List Char}

theorem ended_error (info : MeWalkInfo) : Ended (w.stop info)
    (.ok (info, { me with state := .term })) :=
  ⟨_, rfl, (fun h => nomatch h), (fun h => nomatch h), fun _ => rfl, (fun h => nomatch h),
    fun h => nomatch h⟩

theorem walkLoop_of_stop {info : MeWalkInfo} {me' : MemberExprState}
    (h : walkTurn me c ixstr = .ok (.stop info me')) :
    walkLoop (turns + 1) me c ixstr = .ok (info, me') := by
  rw [walkLoop, h]
  rfl

theorem walkLoop_of_again {me' : MemberExprState} {c' ixstr' : List Char}
    (h : walkTurn me c ixstr = .ok (.again me' c' ixstr')) :
    walkLoop (turns + 1) me c ixstr = walkLoop turns me' c' ixstr' := by
  rw [walkLoop, h]
  rfl

theorem ended_found {info : MeWalkInfo} {p : List Char} (hstartup : me.startup = false)
    (hroom : p.length < me.room) : Ended (MemberExprWalker.found info p)
      (.ok (info, { me with p := p, state := .search })) :=
  ⟨_, rfl, fun _ => rfl, fun _ => rfl, (fun h => nomatch h), fun _ => .inl hstartup, fun _ => hroom⟩

theorem walkTurn_blank (hstate : me.state ≠ .search) (hblank : skipSpace c = []) :
    walkTurn me c ixstr = .ok (.stop .errIncomplete { me with state := .term }) := by
  unfold walkTurn
  rw [hblank]
  dsimp only
  rw [if_neg hstate]
  rfl

/-- In the state for a member one turn ends the call. -/
theorem member_ended (hstate : me.state = .member) (hstartup : me.startup = false)
    (hroom : c.length < me.room) :
    Ended (walkMember w me.has_dot c) (walkLoop (turns + 1) me c ixstr) := by
  have hle := skipSpace_length c
  unfold walkMember
  cases hskip : skipSpace c with
  | nil =>
    have hsearch : me.state ≠ .search := by
      rw [hstate]
      decide
    rw [walkLoop_of_stop (walkTurn_blank hsearch hskip)]
    exact ended_error _
  | cons a rest =>
    rw [hskip, List.length_cons] at hle
    have hturn : walkTurn me c ixstr = memberTurn me a rest := by
      unfold walkTurn
      rw [hskip]
      dsimp only
      rw [hstate]
    unfold memberTurn at hturn
    dsimp only
    by_cases hstart : isMemberStart a = true
    · -- the name is no longer than what is left of the expression
      have hname := (List.takeWhile_prefix (l := rest) isMemberChar).length_le
      have hrest := (List.dropWhile_suffix (l := rest) isMemberChar).length_le
      have hstore : me.storeName (a :: rest.takeWhile isMemberChar) =
          .ok { me with buf := a :: rest.takeWhile isMemberChar } := by
        unfold MemberExprState.storeName
        rw [List.length_cons, if_neg (by omega)]
      rw [if_pos hstart, hstore, call_bind_apply] at hturn
      rw [if_pos hstart, walkLoop_of_stop hturn]
      have hlt : (rest.dropWhile isMemberChar).length < me.room := by omega
      exact @ended_found { me with buf := a :: rest.takeWhile isMemberChar } _ _ hstartup hlt
    · rw [if_neg hstart] at hturn
      rw [if_neg hstart, walkLoop_of_stop hturn]
      exact ended_error _

theorem finishIndex_ended (hstate : me.state = .finishIndex) (hstartup : me.startup = false)
    (hroom : c.length < me.room) :
    Ended (walkFinishIndex w ixstr c) (walkLoop (turns + 1) me c ixstr) := by
  have hle := skipSpace_length c
  unfold walkFinishIndex
  cases hskip : skipSpace c with
  | nil =>
    have hsearch : me.state ≠ .search := by
      rw [hstate]
      decide
    rw [walkLoop_of_stop (walkTurn_blank hsearch hskip)]
    exact ended_error _
  | cons a rest =>
    rw [hskip, List.length_cons] at hle
    have hturn : walkTurn me c ixstr = .ok (finishIndexTurn me a rest ixstr) := by
      unfold walkTurn
      rw [hskip]
      dsimp only
      rw [hstate]
    unfold finishIndexTurn at hturn
    by_cases hclose : a = ']'
    · rw [if_pos hclose] at hturn
      rw [hclose, walkLoop_of_stop hturn]
      exact ended_found hstartup (by omega)
    · rw [if_neg hclose] at hturn
      rw [walkLoop_of_stop hturn]
      split
      · rename_i heq
        exact nomatch heq
      · rename_i heq
        exact absurd (List.cons.inj heq).1 hclose
      · exact ended_error _

/-- An index takes one turn for the number and one for the bracket. -/
theorem index_ended (hstate : me.state = .index)
    (hroom : c.length < me.room) :
    Ended (walkIndex w c) (walkLoop (turns + 2) me c ixstr) := by
  have hle := (skipSign_length (skipSpace c)).trans (skipSpace_length c)
  unfold walkIndex
  cases hskip : skipSpace c with
  | nil =>
    have hsearch : me.state ≠ .search := by
      rw [hstate]
      decide
    rw [walkLoop_of_stop (walkTurn_blank hsearch hskip)]
    exact ended_error _
  | cons a rest =>
    have hturn : walkTurn me c ixstr = .ok (indexTurn me (a :: rest)) := by
      unfold walkTurn
      rw [hskip]
      dsimp only
      rw [hstate]
    unfold indexTurn at hturn
    rw [hskip] at hle
    dsimp only
    cases hsign : skipSign (a :: rest) with
    | nil =>
      rw [hsign] at hturn
      rw [walkLoop_of_stop hturn]
      exact ended_error _
    | cons d digits =>
      rw [hsign] at hturn hle
      dsimp only at hturn ⊢
      by_cases hdigit : isDigit d = true
      · have hrest := (List.dropWhile_suffix (l := digits) isDigit).length_le
        rw [List.length_cons] at hle
        rw [if_pos hdigit] at hturn
        rw [if_pos hdigit, walkLoop_of_again hturn]
        have hlt : (digits.dropWhile isDigit).length < me.room := by omega
        exact @finishIndex_ended { me with state := .finishIndex, startup := false } w turns _ _ rfl
          rfl hlt
      · rw [if_neg hdigit] at hturn
        rw [if_neg hdigit, walkLoop_of_stop hturn]
        exact ended_error _

theorem default_ended {a : Char} {rest : List Char} (hstartup : me.startup = w.startup)
    (hroom : (a :: rest).length < me.room)
    (hturn : walkTurn me c ixstr = .ok (searchDefault me a rest ixstr)) :
    Ended (walkDotless w (a :: rest)) (walkLoop (turns + 3) me c ixstr) := by
  unfold searchDefault at hturn
  unfold walkDotless
  dsimp only
  by_cases hdotless : (w.startup && isMemberStart a) = true
  · obtain ⟨hfirst, hstart⟩ := Bool.and_eq_true_iff.mp hdotless
    have hgo : ¬ (!me.startup || !isMemberStart a) = true := by
      rw [hstartup, hfirst, hstart]
      exact Bool.false_ne_true
    rw [if_neg hgo] at hturn
    rw [if_pos hdotless, walkLoop_of_again hturn]
    exact @member_ended { me with has_dot := false, state := .member, startup := false } w (turns + 1)
      _ _ rfl rfl hroom
  · have hstop : (!me.startup || !isMemberStart a) = true := by
      rw [hstartup, ← Bool.not_and, Bool.eq_false_of_not_eq_true hdotless]
      rfl
    rw [if_pos hstop] at hturn
    rw [if_neg hdotless, walkLoop_of_stop hturn]
    exact ended_error _

/-- In the search the states decide as the walk without states does. -/
theorem search_ended (hstate : me.state = .search) (hterm : w.terminated = false)
    (hp : c = w.p) (hstartup : me.startup = w.startup ∨ skipSpace w.p = [])
    (hroom : c.length < me.room) : Ended (memberExprWalk w) (walkLoop (turns + 3) me c ixstr) := by
  have hle := skipSpace_length w.p
  unfold memberExprWalk
  rw [hterm, if_neg Bool.false_ne_true]
  cases hskip : skipSpace w.p with
  | nil =>
    have hturn : walkTurn me c ixstr = .ok (me.error .finished) := by
      unfold walkTurn
      rw [hp, hskip]
      dsimp only
      rw [if_pos hstate]
    rw [walkLoop_of_stop hturn]
    exact ended_error _
  | cons a rest =>
    rw [hskip] at hle hstartup
    have hstartup' : me.startup = w.startup := hstartup.resolve_right (List.cons_ne_nil a rest)
    have hroom' : (a :: rest).length < me.room := hle.trans_lt (hp ▸ hroom)
    have hturn : walkTurn me c ixstr = .ok (searchTurn me a rest ixstr) := by
      unfold walkTurn
      rw [hp, hskip]
      dsimp only
      rw [hstate]
    unfold searchTurn at hturn
    rw [List.length_cons] at hroom'
    split
    · -- a plus with something behind it
      rename_i b tail heq
      obtain ⟨rfl, rfl⟩ := List.cons.inj heq
      rw [if_pos rfl] at hturn
      split_ifs with hend
      · rw [if_pos ⟨List.cons_ne_nil b tail, hend⟩] at hturn
        rw [walkLoop_of_stop hturn]
        exact ⟨_, rfl, fun _ => rfl, fun _ => rfl, (fun h => nomatch h), fun _ => .inr rfl,
          fun _ => Nat.zero_lt_of_lt hroom'⟩
      · rw [if_neg fun h => hend h.2] at hturn
        exact default_ended hstartup' hroom' hturn
    · rename_i tail heq
      obtain ⟨rfl, rfl⟩ := List.cons.inj heq
      rw [if_neg (by decide), if_pos rfl] at hturn
      rw [walkLoop_of_again hturn]
      exact @member_ended { me with has_dot := true, state := .member, startup := false } w (turns + 1)
        _ _ rfl rfl (Nat.lt_of_succ_lt hroom')
    · rename_i tail heq
      obtain ⟨rfl, rfl⟩ := List.cons.inj heq
      rw [if_neg (by decide), if_neg (by decide), if_pos rfl] at hturn
      rw [walkLoop_of_again hturn]
      exact @index_ended { me with state := .index, startup := false } w turns _ _ rfl
        (Nat.lt_of_succ_lt hroom')
    · rename_i hplus hdot hbracket
      have hdefault : walkTurn me c ixstr = .ok (searchDefault me a rest ixstr) := by
        rw [hturn]
        split_ifs with h₁ h₂ h₃ h₄
        · obtain ⟨b, tail, hrest⟩ := List.exists_cons_of_ne_nil h₂.1
          exact absurd (by rw [h₁, hrest]) (hplus b tail)
        · rfl
        · exact absurd (by rw [h₃]) (hdot rest)
        · exact absurd (by rw [h₄]) (hbracket rest)
        · rfl
      exact default_ended hstartup' hroom' hdefault

/-- A call of the walker that the states are of reports the same, and it takes no more than
three turns. -/
theorem memberExprStateWalk_ended (h : me.Matches w) :
    Ended (memberExprWalk w) (memberExprStateWalk (turns + 3) me) := by
  unfold memberExprStateWalk
  cases hterm : w.terminated with
  | true =>
    have hwalk : memberExprWalk w = (.errTerminated, w) := by
      unfold memberExprWalk
      rw [hterm, if_pos rfl]
    rw [if_pos (h.term hterm), hwalk]
    exact ⟨me, rfl, h⟩
  | false =>
    have hsearch := h.search hterm
    have hgo : me.state ≠ .term := by
      rw [hsearch]
      decide
    rw [if_neg hgo]
    have hp := h.p hterm
    have hroom := h.room hterm
    exact search_ended hsearch hterm hp (h.startup hterm) (hp ▸ hroom)

/-- So do any number of calls. -/
theorem walkCalls_eq (calls : ℕ) (h : me.Matches w) :
    walkCalls (turns + 3) calls me = .ok (memberExprCalls calls w) := by
  induction calls generalizing me w with
  | zero => rfl
  | succ calls ih =>
    obtain ⟨me', hwalk, hnext⟩ := (memberExprStateWalk_ended h).ok
    unfold walkCalls
    rw [hwalk, call_bind_apply]
    dsimp only
    rw [ih hnext]
    rfl

end Turns

end ConvertBinaryC
