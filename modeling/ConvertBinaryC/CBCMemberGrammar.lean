import ConvertBinaryC.CTLibNumeral
import ConvertBinaryC.CBCMemberWalk

/-! The grammar of member expressions, and which expressions the walker of `cbc/member.c` reads
as it says. -/
namespace ConvertBinaryC
open FoldRules ScanRules

def IsDigits (s : List Char) : Prop := s ≠ [] ∧ ∀ c ∈ s, isDigit c = true

def IsName (s : List Char) : Prop :=
  ∃ c rest, s = c :: rest ∧ isMemberStart c = true ∧ ∀ d ∈ rest, isMemberChar d = true

/-- The first token of a text, what it is and the text behind it. Only the first member needs
no dot, and an offset is the end of the text. -/
inductive Token (first : Bool) : List Char → MeWalkInfo → List Char → Prop
  | member {w w' name s : List Char} (hw : Blank w) (hw' : Blank w') (hname : IsName name)
    (hs : Stops isMemberChar s) :
    Token first (w ++ '.' :: (w' ++ (name ++ s))) (.compoundMember (String.ofList name) true) s
  | dotless {w name s : List Char} (hfirst : first = true) (hw : Blank w) (hname : IsName name)
    (hs : Stops isMemberChar s) :
    Token first (w ++ (name ++ s)) (.compoundMember (String.ofList name) false) s
  | index {w w' digits w'' s : List Char} (sign : Sign) (hw : Blank w) (hw' : Blank w')
    (hdigits : IsDigits digits) (hw'' : Blank w'') :
    Token first (w ++ '[' :: (w' ++ (sign.text ++ (digits ++ (w'' ++ ']' :: s)))))
      (.arrayIndex (sign.apply (digitsValue digits))) s
  | offset {w digits w' : List Char} (hw : Blank w) (hdigits : IsDigits digits) (hw' : Blank w') :
    Token first (w ++ '+' :: (digits ++ w')) (.offset (digitsValue digits)) []

/-- A text that starts with a sequence of tokens. -/
inductive Parses : Bool → List Char → List MeWalkInfo → List Char → Prop
  | nil (first : Bool) (s : List Char) : Parses first s [] s
  | cons {first : Bool} {s s' rest : List Char} {info : MeWalkInfo} {infos : List MeWalkInfo}
    (htoken : Token first s info s') (h : Parses false s' infos rest) :
    Parses first s (info :: infos) rest

def MeWalkInfo.IsError : MeWalkInfo → Prop
  | .errInvalidMemberStart | .errInvalidIndex | .errInvalidChar _ | .errIndexNotTerminated
  | .errIncomplete => True
  | _ => False

/-- A plus that has nothing but blanks behind it, though at least one. -/
def LonePlus (s : List Char) : Prop := ∃ w w', Blank w ∧ Blank w' ∧ w' ≠ [] ∧ s = w ++ '+' :: w'

/-- A number is one that an int holds. -/
def MeWalkInfo.IsIntSized : MeWalkInfo → Prop
  | .arrayIndex n | .offset n => IsInt n
  | _ => True

theorem isMemberStart_not_space {c : Char} (h : isMemberStart c = true) : isSpace c = false :=
  isSpace_eq_false (by decide) h

section Forward
variable {me : MemberExprWalker} {w digits tail s : List Char}

theorem stops_blank_bracket (hw : Blank w) (s : List Char) : Stops isDigit (w ++ ']' :: s) := by
  cases w with
  | nil => exact stops_cons_iff.mpr (by decide)
  | cons c w =>
    apply stops_cons_iff.mpr
    by_contra hdigit
    have hspace := hw c List.mem_cons_self
    rw [isDigit_not_space (Bool.of_not_eq_false hdigit)] at hspace
    exact Bool.false_ne_true hspace

theorem stops_blank (hw : Blank w) : Stops isDigit w := by
  intro c hc
  by_contra hdigit
  have hspace := hw c (List.mem_of_mem_head? hc)
  rw [isDigit_not_space (Bool.of_not_eq_false hdigit)] at hspace
  exact Bool.false_ne_true hspace

theorem walkMember_of_name {name : List Char} (has_dot : Bool) (hw : Blank w) (hname : IsName name)
    (hs : Stops isMemberChar s) : walkMember me has_dot (w ++ (name ++ s)) =
      MemberExprWalker.found (.compoundMember (String.ofList name) has_dot) s := by
  obtain ⟨c, rest, rfl, hc, hrest⟩ := hname
  unfold walkMember
  rw [skipSpace_blank hw, List.cons_append, skipSpace_cons (isMemberStart_not_space hc)]
  dsimp only
  rw [if_pos hc, takeWhile_run hrest hs, dropWhile_run hrest hs]

/-- A number starts with a sign or a digit. -/
theorem skipSpace_number (sign : Sign) (hdigits : IsDigits digits) (tail : List Char) :
    skipSpace (sign.text ++ (digits ++ tail)) = sign.text ++ (digits ++ tail) := by
  cases sign with
  | minus => exact skipSpace_cons (by decide) _
  | plus => exact skipSpace_cons (by decide) _
  | unsigned =>
    obtain ⟨c, rest, rfl⟩ := List.exists_cons_of_ne_nil hdigits.1
    exact skipSpace_cons (isDigit_not_space (hdigits.2 c List.mem_cons_self)) _

theorem isDigit_ne {c : Char} (h : isDigit c = true) : c ≠ '-' ∧ c ≠ '+' := by
  constructor
  · rintro rfl
    exact absurd h (by decide)
  · rintro rfl
    exact absurd h (by decide)

theorem skipSign_number (sign : Sign) (hdigits : IsDigits digits) (tail : List Char) :
    skipSign (sign.text ++ (digits ++ tail)) = digits ++ tail := by
  cases sign with
  | minus => rfl
  | plus => rfl
  | unsigned =>
    obtain ⟨c, rest, rfl⟩ := List.exists_cons_of_ne_nil hdigits.1
    obtain ⟨hminus, hplus⟩ := isDigit_ne (hdigits.2 c List.mem_cons_self)
    show skipSign (c :: (rest ++ tail)) = c :: (rest ++ tail)
    unfold skipSign
    split
    · exact absurd (List.cons.inj ‹_›).1 hminus
    · exact absurd (List.cons.inj ‹_›).1 hplus
    · rfl

theorem writtenNumber_number (sign : Sign) (hdigits : IsDigits digits) (hstop : Stops isDigit tail) :
    writtenNumber (sign.text ++ (digits ++ tail)) = sign.apply (digitsValue digits) := by
  have htake : (digits ++ tail).takeWhile isDigit = digits := takeWhile_run hdigits.2 hstop
  unfold writtenNumber
  rw [skipSpace_number sign hdigits tail]
  cases sign with
  | minus =>
    show -digitsValue ((digits ++ tail).takeWhile isDigit) = _
    rw [htake]
    rfl
  | plus =>
    show digitsValue ((digits ++ tail).takeWhile isDigit) = _
    rw [htake]
    rfl
  | unsigned =>
    obtain ⟨c, rest, rfl⟩ := List.exists_cons_of_ne_nil hdigits.1
    obtain ⟨hminus, hplus⟩ := isDigit_ne (hdigits.2 c List.mem_cons_self)
    rw [Sign.text, List.nil_append, List.cons_append]
    split
    · exact absurd (List.cons.inj ‹_›).1 hminus
    · exact absurd (List.cons.inj ‹_›).1 hplus
    · rw [← List.cons_append, htake]
      rfl

theorem walkIndex_number {w' : List Char} (sign : Sign) (hw : Blank w) (hdigits : IsDigits digits)
    (hw' : Blank w') (s : List Char) :
    walkIndex me (w ++ (sign.text ++ (digits ++ (w' ++ ']' :: s)))) =
      MemberExprWalker.found
        (.arrayIndex (storedNumber (sign.apply (digitsValue digits)))) s := by
  have hstop := stops_blank_bracket hw' s
  have hnumber := writtenNumber_number sign hdigits hstop
  have hskip := skipSpace_number sign hdigits (w' ++ ']' :: s)
  have hsign := skipSign_number sign hdigits (w' ++ ']' :: s)
  have hfinish (ixstr : List Char) : walkFinishIndex me ixstr (w' ++ ']' :: s) =
      MemberExprWalker.found (.arrayIndex (atoi ixstr)) s := by
    unfold walkFinishIndex
    rw [skipSpace_blank hw', skipSpace_cons (by decide)]
    rfl
  unfold walkIndex
  rw [skipSpace_blank hw, hskip]
  obtain ⟨c, rest, rfl⟩ := List.exists_cons_of_ne_nil hdigits.1
  have hc := hdigits.2 c List.mem_cons_self
  have hrest : ∀ d ∈ rest, isDigit d = true := fun d hd => hdigits.2 d (List.mem_cons_of_mem c hd)
  split
  · rename_i heq
    have hlength := congrArg List.length heq
    simp at hlength
  · rw [hsign]
    dsimp only [List.cons_append]
    rw [if_pos hc, dropWhile_run hrest hstop, hfinish, atoi_eq_storedNumber]
    rw [← List.cons_append, hnumber]

/-- Where the search of the walker goes. -/
theorem memberExprWalk_dot {rest : List Char} (hterm : me.terminated = false)
    (hp : skipSpace me.p = '.' :: rest) : memberExprWalk me = walkMember me true rest := by
  unfold memberExprWalk
  rw [hterm, if_neg Bool.false_ne_true, hp]
  rfl

theorem memberExprWalk_bracket {rest : List Char} (hterm : me.terminated = false)
    (hp : skipSpace me.p = '[' :: rest) : memberExprWalk me = walkIndex me rest := by
  unfold memberExprWalk
  rw [hterm, if_neg Bool.false_ne_true, hp]
  rfl

theorem memberExprWalk_plus {rest : List Char} (hterm : me.terminated = false)
    (hp : skipSpace me.p = '+' :: rest) : memberExprWalk me =
      if rest ≠ [] ∧ Blank (rest.dropWhile isDigit) then
        MemberExprWalker.found (.offset (atoi rest)) []
      else me.stop (.errInvalidChar '+') := by
  have hdotless : walkDotless me ('+' :: rest) = me.stop (.errInvalidChar '+') := by
    unfold walkDotless
    dsimp only
    have hstart : (me.startup && isMemberStart '+') = false := by
      rw [show isMemberStart '+' = false by decide, Bool.and_false]
    rw [hstart, if_neg Bool.false_ne_true]
  unfold memberExprWalk
  rw [hterm, if_neg Bool.false_ne_true, hp]
  cases rest with
  | nil =>
    rw [if_neg fun h => h.1 rfl, ← hdotless]
    rfl
  | cons c rest =>
    show (if skipSpace ((c :: rest).dropWhile isDigit) = [] then
        MemberExprWalker.found (.offset (atoi (c :: rest))) []
      else walkDotless me ('+' :: c :: rest)) = _
    simp only [blank_iff, ne_eq, reduceCtorEq, not_false_eq_true, true_and, hdotless]

/-- Anything else is the default of the search. -/
theorem memberExprWalk_other (hterm : me.terminated = false) {p : List Char}
    (hp : skipSpace me.p = p) (hother : ∀ c ∈ p.head?, c ≠ '+' ∧ c ≠ '.' ∧ c ≠ '[') :
    memberExprWalk me = walkDotless me p := by
  unfold memberExprWalk
  rw [hterm, if_neg Bool.false_ne_true, hp]
  split
  · exact absurd rfl (hother '+' rfl).1
  · exact absurd rfl (hother '.' rfl).2.1
  · exact absurd rfl (hother '[' rfl).2.2
  · rfl

theorem isMemberStart_ne {c : Char} (h : isMemberStart c = true) :
    c ≠ '+' ∧ c ≠ '.' ∧ c ≠ '[' := by
  refine ⟨?_, ?_, ?_⟩
  · rintro rfl
    exact absurd h (by decide)
  · rintro rfl
    exact absurd h (by decide)
  · rintro rfl
    exact absurd h (by decide)

/-- The walker finds the token that the text starts with, its number as it is stored. -/
theorem Token.walk {info : MeWalkInfo} (htoken : Token me.startup me.p info s)
    (hterm : me.terminated = false) :
    memberExprWalk me = MemberExprWalker.found info.stored s ∧ info.stored.written me.p = info := by
  generalize hp : me.p = p at htoken
  cases htoken with
  | @member w w' name _ hw hw' hname hs =>
    have hskip : skipSpace me.p = '.' :: (w' ++ (name ++ s)) := by
      rw [hp, skipSpace_blank hw, skipSpace_cons (by decide)]
    rw [memberExprWalk_dot hterm hskip, walkMember_of_name true hw' hname hs]
    exact ⟨rfl, rfl⟩
  | @dotless w name _ hfirst hw hname hs =>
    obtain ⟨c, rest, rfl, hc, hrest⟩ := hname
    have hskip : skipSpace me.p = c :: (rest ++ s) := by
      rw [hp, skipSpace_blank hw]
      exact skipSpace_cons (isMemberStart_not_space hc) _
    have hother : ∀ d ∈ (c :: (rest ++ s)).head?, d ≠ '+' ∧ d ≠ '.' ∧ d ≠ '[' := by
      intro d hd
      rw [← Option.some.inj hd]
      exact isMemberStart_ne hc
    rw [memberExprWalk_other hterm hskip hother]
    unfold walkDotless
    dsimp only
    rw [hfirst, hc, Bool.and_self, if_pos rfl]
    have hname : IsName (c :: rest) := ⟨c, rest, rfl, hc, hrest⟩
    have hblank : Blank [] := fun _ h => nomatch h
    exact ⟨walkMember_of_name false hblank hname hs, rfl⟩
  | @index w w' digits w'' _ sign hw hw' hdigits hw'' =>
    have hskip : skipSpace me.p =
        '[' :: (w' ++ (sign.text ++ (digits ++ (w'' ++ ']' :: s)))) := by
      rw [hp, skipSpace_blank hw, skipSpace_cons (by decide)]
    refine ⟨?_, ?_⟩
    · rw [memberExprWalk_bracket hterm hskip, walkIndex_number sign hw' hdigits hw'']
      rfl
    · rw [hp] at hskip
      show MeWalkInfo.arrayIndex (writtenNumber (skipSpace _).tail) = _
      rw [hskip, List.tail_cons, ← writtenNumber_skipSpace, skipSpace_blank hw',
        skipSpace_number sign hdigits, writtenNumber_number sign hdigits (stops_blank_bracket hw'' s)]
  | @offset w digits w' hw hdigits hw' =>
    have hskip : skipSpace me.p = '+' :: (digits ++ w') := by
      rw [hp, skipSpace_blank hw, skipSpace_cons (by decide)]
    have hnumber := writtenNumber_number .unsigned hdigits (stops_blank hw')
    have hend : Blank ((digits ++ w').dropWhile isDigit) := by
      rw [dropWhile_run hdigits.2 (stops_blank hw')]
      exact hw'
    have hne : digits ++ w' ≠ [] := fun h => hdigits.1 (List.append_eq_nil_iff.mp h).1
    refine ⟨?_, ?_⟩
    · rw [memberExprWalk_plus hterm hskip, if_pos ⟨hne, hend⟩, atoi_eq_storedNumber]
      have hstored := congrArg storedNumber hnumber
      exact congrArg (fun n => MemberExprWalker.found (.offset n) []) hstored
    · rw [hp] at hskip
      show MeWalkInfo.offset (writtenNumber (skipSpace _).tail) = _
      rw [hskip, List.tail_cons]
      exact congrArg MeWalkInfo.offset hnumber

end Forward

section Backward
variable {me : MemberExprWalker} {w s : List Char}

/-- A number in front of something else is its sign, its digits and the rest. -/
theorem exists_digits {c : Char} (rest : List Char) (hc : isDigit c = true) :
    ∃ digits, IsDigits digits ∧ c :: rest = digits ++ rest.dropWhile isDigit := by
  refine ⟨c :: rest.takeWhile isDigit, ⟨List.cons_ne_nil _ _, ?_⟩, ?_⟩
  · intro d hd
    rcases List.mem_cons.mp hd with rfl | hd
    · exact hc
    · exact mem_takeWhile hd
  · rw [List.cons_append, List.takeWhile_append_dropWhile]

theorem exists_sign (s : List Char) : ∃ sign : Sign, s = sign.text ++ skipSign s := by
  unfold skipSign
  split
  · exact ⟨.minus, rfl⟩
  · exact ⟨.plus, rfl⟩
  · exact ⟨.unsigned, rfl⟩

/-- A member is found behind blanks, or the text has no name there. -/
theorem walkMember_cases (has_dot : Bool) (s : List Char) :
    (∃ w name rest, Blank w ∧ IsName name ∧ Stops isMemberChar rest ∧ s = w ++ (name ++ rest)) ∨
      ∃ err : MeWalkInfo, err.IsError ∧ walkMember me has_dot s = me.stop err := by
  have hsplit := exists_blank s
  unfold walkMember
  cases hskip : skipSpace s with
  | nil => exact .inr ⟨.errIncomplete, trivial, rfl⟩
  | cons c rest =>
    obtain ⟨w, hw, hs⟩ := hsplit
    rw [hskip] at hs
    dsimp only
    by_cases hc : isMemberStart c = true
    · have hname : IsName (c :: rest.takeWhile isMemberChar) :=
        ⟨c, _, rfl, hc, fun d hd => mem_takeWhile hd⟩
      refine .inl ⟨w, c :: rest.takeWhile isMemberChar, rest.dropWhile isMemberChar, hw, hname,
        stops_dropWhile rest, ?_⟩
      rw [hs, List.cons_append, List.takeWhile_append_dropWhile]
    · rw [if_neg hc]
      exact .inr ⟨.errInvalidMemberStart, trivial, rfl⟩

theorem walkIndex_cases (s : List Char) :
    (∃ sign : Sign, ∃ w digits w' rest, Blank w ∧ IsDigits digits ∧ Blank w' ∧
      s = w ++ (sign.text ++ (digits ++ (w' ++ ']' :: rest)))) ∨
      ∃ err : MeWalkInfo, err.IsError ∧ walkIndex me s = me.stop err := by
  obtain ⟨w, hw, hs⟩ := exists_blank s
  unfold walkIndex
  split
  · exact .inr ⟨.errIncomplete, trivial, rfl⟩
  · obtain ⟨sign, hsign⟩ := exists_sign (skipSpace s)
    rw [hsign] at hs
    split
    · rename_i c rest heq
      rw [heq] at hs
      by_cases hc : isDigit c = true
      · rw [if_pos hc]
        obtain ⟨digits, hdigits, hnumber⟩ := exists_digits rest hc
        obtain ⟨w', hw', hrest⟩ := exists_blank (rest.dropWhile isDigit)
        unfold walkFinishIndex
        split
        · exact .inr ⟨.errIncomplete, trivial, rfl⟩
        · -- the number is followed by the bracket
          rename_i tail hclose
          rw [hclose] at hrest
          rw [hnumber, hrest] at hs
          exact .inl ⟨sign, w, digits, w', tail, hw, hdigits, hw', hs⟩
        · exact .inr ⟨.errIndexNotTerminated, trivial, rfl⟩
      · rw [if_neg hc]
        exact .inr ⟨.errInvalidIndex, trivial, rfl⟩
    · exact .inr ⟨.errInvalidIndex, trivial, rfl⟩

/-- What is left for a walker that finds no token. -/
inductive EndsWalk (me : MemberExprWalker) : Prop
  | finished (hp : Blank me.p) (h : memberExprWalk me = me.stop .finished)
  | lonePlus (hp : LonePlus me.p) (h : memberExprWalk me = MemberExprWalker.found (.offset 0) [])
  | error {err : MeWalkInfo} (herr : err.IsError) (hp : ¬ Blank me.p) (h : memberExprWalk me = me.stop err)

theorem not_blank {c : Char} {rest : List Char} (hp : skipSpace s = c :: rest) : ¬ Blank s := by
  intro hblank
  rw [blank_iff.mpr hblank] at hp
  exact nomatch hp

/-- The look-ahead for the end of the text does not ask for a digit. -/
theorem LonePlus.walk (hlone : LonePlus me.p) (hterm : me.terminated = false) :
    memberExprWalk me = MemberExprWalker.found (.offset 0) [] := by
  obtain ⟨w, w', hw, hw', hne, hp⟩ := hlone
  have hskip : skipSpace me.p = '+' :: w' := by
    rw [hp, skipSpace_blank hw, skipSpace_cons (by decide)]
  have hend : Blank (w'.dropWhile isDigit) := by
    rw [(stops_blank hw').dropWhile_eq_self]
    exact hw'
  have hzero : atoi w' = 0 := by
    unfold atoi
    rw [blank_iff.mpr hw']
    rfl
  rw [memberExprWalk_plus hterm hskip, if_pos ⟨hne, hend⟩, hzero]

theorem walkPlus_cases {rest : List Char} (hterm : me.terminated = false)
    (hp : skipSpace me.p = '+' :: rest) :
    (∃ info s', Token me.startup me.p info s') ∨ EndsWalk me := by
  obtain ⟨w, hw, hs⟩ := exists_blank me.p
  have hwalk := memberExprWalk_plus hterm hp
  rw [hp] at hs
  by_cases hend : rest ≠ [] ∧ Blank (rest.dropWhile isDigit)
  · rw [if_pos hend] at hwalk
    cases rest with
    | nil => exact absurd rfl hend.1
    | cons c rest =>
      by_cases hc : isDigit c = true
      · obtain ⟨digits, hdigits, hnumber⟩ := exists_digits rest hc
        have hblank := hend.2
        rw [List.dropWhile_cons, if_pos hc] at hblank
        refine .inl ⟨.offset (digitsValue digits), [], ?_⟩
        rw [hs, hnumber]
        exact Token.offset hw hdigits hblank
      · -- no digit at all, and what follows the plus is blank
        have hstops : Stops isDigit (c :: rest) := stops_cons_iff.mpr (Bool.eq_false_of_not_eq_true hc)
        have hblank := hend.2
        rw [hstops.dropWhile_eq_self] at hblank
        have hlone : LonePlus me.p := ⟨w, c :: rest, hw, hblank, List.cons_ne_nil _ _, hs⟩
        exact .inr (.lonePlus hlone (hlone.walk hterm))
  · rw [if_neg hend] at hwalk
    exact .inr (@EndsWalk.error _ (.errInvalidChar '+') trivial (not_blank hp) hwalk)

/-- A walker finds a token, or its walk ends. -/
theorem memberExprWalk_cases (hterm : me.terminated = false) :
    (∃ info s', Token me.startup me.p info s') ∨ EndsWalk me := by
  obtain ⟨w, hw, hs⟩ := exists_blank me.p
  cases hskip : skipSpace me.p with
  | nil =>
    have hwalk := memberExprWalk_other hterm hskip fun _ h => nomatch h
    exact .inr (.finished (blank_iff.mp hskip) hwalk)
  | cons c rest =>
    rw [hskip] at hs
    by_cases hplus : c = '+'
    · rw [hplus] at hskip
      exact walkPlus_cases hterm hskip
    by_cases hdot : c = '.'
    · rw [hdot] at hskip hs
      rcases @walkMember_cases me true rest with ⟨w', name, tail, hw', hname, hstop, hrest⟩ | herr
      · refine .inl ⟨.compoundMember (String.ofList name) true, tail, ?_⟩
        rw [hs, hrest]
        exact Token.member hw hw' hname hstop
      · obtain ⟨err, herr, hwalk⟩ := herr
        rw [← memberExprWalk_dot hterm hskip] at hwalk
        exact .inr (.error herr (not_blank hskip) hwalk)
    by_cases hbracket : c = '['
    · rw [hbracket] at hskip hs
      rcases @walkIndex_cases me rest with ⟨sign, w', digits, w'', tail, hw', hdigits, hw'', hrest⟩ | herr
      · refine .inl ⟨.arrayIndex (sign.apply (digitsValue digits)), tail, ?_⟩
        rw [hs, hrest]
        exact Token.index sign hw hw' hdigits hw''
      · obtain ⟨err, herr, hwalk⟩ := herr
        rw [← memberExprWalk_bracket hterm hskip] at hwalk
        exact .inr (.error herr (not_blank hskip) hwalk)
    have hwalk : memberExprWalk me = walkDotless me (c :: rest) := by
      apply memberExprWalk_other hterm hskip
      intro d hd
      rw [← Option.some.inj hd]
      exact ⟨hplus, hdot, hbracket⟩
    unfold walkDotless at hwalk
    dsimp only at hwalk
    by_cases hdotless : (me.startup && isMemberStart c) = true
    · obtain ⟨hfirst, hc⟩ := Bool.and_eq_true_iff.mp hdotless
      have hname : IsName (c :: rest.takeWhile isMemberChar) :=
        ⟨c, _, rfl, hc, fun d hd => mem_takeWhile hd⟩
      refine .inl ⟨.compoundMember (String.ofList (c :: rest.takeWhile isMemberChar)) false,
        rest.dropWhile isMemberChar, ?_⟩
      have htext : me.p =
          w ++ ((c :: rest.takeWhile isMemberChar) ++ rest.dropWhile isMemberChar) := by
        rw [hs, List.cons_append, List.takeWhile_append_dropWhile]
      rw [htext]
      exact Token.dotless hfirst hw hname (stops_dropWhile rest)
    · rw [if_neg hdotless] at hwalk
      exact .inr (@EndsWalk.error _ (.errInvalidChar c) trivial (not_blank hskip) hwalk)

end Backward

section Longest
variable {first : Bool} {s s' rest : List Char} {info info' : MeWalkInfo} {infos : List MeWalkInfo}

/-- A text starts with one token at most. -/
theorem Token.unique (h : Token first s info rest) (h' : Token first s info' s') :
    info = info' ∧ rest = s' := by
  obtain ⟨hwalk, hwritten⟩ := @Token.walk ⟨s, first, false⟩ _ _ h rfl
  obtain ⟨hwalk', hwritten'⟩ := @Token.walk ⟨s, first, false⟩ _ _ h' rfl
  rw [hwalk] at hwalk'
  obtain ⟨hinfo, hrest⟩ := Prod.mk.inj hwalk'
  refine ⟨?_, congrArg MemberExprWalker.p hrest⟩
  rw [← hwritten, hinfo, hwritten']

theorem Token.length_lt (h : Token first s info rest) : rest.length < s.length := by
  obtain ⟨hwalk, -⟩ := @Token.walk ⟨s, first, false⟩ _ _ h rfl
  have hadvances := memberExprWalk_advances ⟨s, first, false⟩ rfl
  rw [hwalk] at hadvances
  exact hadvances rfl

/-- Where the walk ends no token is. -/
theorem EndsWalk.no_token {me : MemberExprWalker} (hend : EndsWalk me) (hterm : me.terminated = false) :
    ¬ Token me.startup me.p info s := by
  intro htoken
  obtain ⟨hwalk, -⟩ := htoken.walk hterm
  cases hend with
  | finished _ h =>
    rw [hwalk] at h
    exact absurd (congrArg (fun r => r.2.terminated) h) Bool.false_ne_true
  | error _ _ h =>
    rw [hwalk] at h
    exact absurd (congrArg (fun r => r.2.terminated) h) Bool.false_ne_true
  | lonePlus hp =>
    -- what stands behind the plus is blank, so that it is no digit
    obtain ⟨w, w', hw, hw', hne, hp⟩ := hp
    obtain ⟨c, w', rfl⟩ := List.exists_cons_of_ne_nil hne
    have hskip : skipSpace me.p = '+' :: c :: w' := by
      rw [hp, skipSpace_blank hw, skipSpace_cons (by decide)]
    have hstops : Stops isDigit (c :: w') := stops_blank hw'
    generalize hs : me.p = p at htoken hskip
    cases htoken with
    | member hw =>
      rw [skipSpace_blank hw, skipSpace_cons (by decide)] at hskip
      exact absurd (List.cons.inj hskip).1 (by decide)
    | dotless _ hw hname =>
      obtain ⟨d, name, rfl, hd, -⟩ := hname
      rw [skipSpace_blank hw, List.cons_append, skipSpace_cons (isMemberStart_not_space hd)] at hskip
      exact (isMemberStart_ne hd).1 (List.cons.inj hskip).1
    | index _ hw =>
      rw [skipSpace_blank hw, skipSpace_cons (by decide)] at hskip
      exact absurd (List.cons.inj hskip).1 (by decide)
    | offset hw hdigits =>
      obtain ⟨d, digits, rfl⟩ := List.exists_cons_of_ne_nil hdigits.1
      rw [skipSpace_blank hw, skipSpace_cons (by decide)] at hskip
      have hd := hdigits.2 d List.mem_cons_self
      rw [(List.cons.inj (List.cons.inj hskip).2).1, stops_cons_iff.mp hstops] at hd
      exact Bool.false_ne_true hd

/-- A text that starts with a sequence of tokens and goes on with none. -/
inductive ParsesAll : Bool → List Char → List MeWalkInfo → List Char → Bool → Prop
  | nil {first : Bool} {s : List Char} (hend : ∀ info s', ¬ Token first s info s') :
    ParsesAll first s [] s first
  | cons {first last : Bool} {s s' rest : List Char} {info : MeWalkInfo} {infos : List MeWalkInfo}
    (htoken : Token first s info s') (h : ParsesAll false s' infos rest last) :
    ParsesAll first s (info :: infos) rest last

theorem exists_parsesAll (first : Bool) (s : List Char) :
    ∃ infos rest last, ParsesAll first s infos rest last := by
  by_cases h : ∃ info s', Token first s info s'
  · obtain ⟨info, s', htoken⟩ := h
    have hlt := htoken.length_lt
    obtain ⟨infos, rest, last, h⟩ := exists_parsesAll false s'
    exact ⟨info :: infos, rest, last, .cons htoken h⟩
  · refine ⟨[], s, first, .nil ?_⟩
    exact fun info s' htoken => h ⟨info, s', htoken⟩
termination_by s.length

variable {last : Bool}

theorem ParsesAll.parses (h : ParsesAll first s infos rest last) : Parses first s infos rest := by
  induction h with
  | nil => exact .nil _ _
  | cons htoken _ ih => exact .cons htoken ih

/-- It is the longest sequence of tokens that the text starts with. -/
theorem ParsesAll.longest {infos' : List MeWalkInfo} (h : ParsesAll first s infos rest last)
    (h' : Parses first s infos' s') : infos' <+: infos := by
  induction h generalizing infos' s' with
  | nil hend =>
    cases h' with
    | nil => exact List.prefix_rfl
    | cons htoken => exact absurd htoken (hend _ _)
  | cons htoken _ ih =>
    cases h' with
    | nil => exact List.nil_prefix
    | cons htoken' h' =>
      obtain ⟨rfl, rfl⟩ := htoken.unique htoken'
      exact List.cons_prefix_cons.mpr ⟨rfl, ih h'⟩

theorem Parses.unique_rest (h : Parses first s infos rest) (h' : Parses first s infos s') :
    rest = s' := by
  induction h with
  | nil => cases h' with | nil => rfl
  | cons htoken _ ih =>
    cases h' with
    | cons htoken' h' =>
      obtain ⟨-, rfl⟩ := htoken.unique htoken'
      exact ih h'

theorem ParsesAll.no_token (h : ParsesAll first s infos rest last) :
    ¬ Token last rest info s' := by
  induction h with
  | nil hend => exact hend _ _
  | cons _ _ ih => exact ih

theorem LonePlus.no_token (hlone : LonePlus s) : ¬ Token first s info s' := by
  have hwalk := @LonePlus.walk ⟨s, first, false⟩ hlone rfl
  exact @EndsWalk.no_token _ _ ⟨s, first, false⟩ (.lonePlus hlone hwalk) rfl

/-- A lone plus is not followed by a token, so that it is what all tokens leave. -/
theorem ParsesAll.rest_of_lonePlus {infos' : List MeWalkInfo}
    (h : ParsesAll first s infos rest last) (h' : Parses first s infos' s') (hlone : LonePlus s') :
    rest = s' := by
  induction h generalizing infos' with
  | nil hend =>
    cases h' with
    | nil => rfl
    | cons htoken => exact absurd htoken (hend _ _)
  | cons htoken _ ih =>
    cases h' with
    | nil => exact absurd htoken hlone.no_token
    | cons htoken' h' =>
      obtain ⟨-, rfl⟩ := htoken.unique htoken'
      exact ih h'

theorem memberExprCalls_found {me : MemberExprWalker} (calls : ℕ)
    (hwalk : memberExprWalk me = MemberExprWalker.found info s) :
    memberExprCalls (calls + 1) me = info :: memberExprCalls calls ⟨s, false, false⟩ := by
  rw [memberExprCalls, hwalk]
  rfl

theorem memberExprCalls_terminated {me : MemberExprWalker} (h : me.terminated = true) (calls : ℕ) :
    memberExprCalls calls me = List.replicate calls .errTerminated := by
  have hwalk : memberExprWalk me = (.errTerminated, me) := by
    unfold memberExprWalk
    rw [if_pos h]
  induction calls with
  | zero => rfl
  | succ calls ih =>
    rw [memberExprCalls, hwalk, List.replicate_succ]
    exact congrArg (_ :: ·) ih

theorem memberExprCalls_stop {me : MemberExprWalker} (calls : ℕ)
    (hwalk : memberExprWalk me = me.stop info) :
    memberExprCalls calls me = (info :: List.replicate calls .errTerminated).take calls := by
  cases calls with
  | zero => rfl
  | succ calls =>
    rw [memberExprCalls, hwalk]
    have hrest := @memberExprCalls_terminated (me.stop info).2 rfl calls
    rw [hrest, List.take_succ_cons, List.take_replicate, Nat.min_eq_left (Nat.le_succ calls)]
    rfl

/-- The calls report the tokens, with their numbers as they are stored, and then what the
walker reports of the rest. -/
theorem ParsesAll.calls (h : ParsesAll first s infos rest last) (calls : ℕ) :
    memberExprCalls calls ⟨s, first, false⟩ = (infos.map MeWalkInfo.stored).take calls ++
      memberExprCalls (calls - infos.length) ⟨rest, last, false⟩ := by
  induction h generalizing calls with
  | nil => rw [List.map_nil, List.take_nil, List.nil_append, List.length_nil, Nat.sub_zero]
  | cons htoken _ ih =>
    cases calls with
    | zero => simp [memberExprCalls]
    | succ calls =>
      obtain ⟨hwalk, -⟩ := @Token.walk ⟨_, _, false⟩ _ _ htoken rfl
      rw [memberExprCalls_found calls hwalk, ih calls, List.map_cons, List.take_succ_cons,
        List.length_cons, Nat.add_sub_add_right, List.cons_append]

end Longest

section Reports
variable {s : List Char} {infos : List MeWalkInfo} {last : MeWalkInfo}

/-- The reports of a number of calls: the tokens, what ends them, and then only that the
walker has terminated. -/
def reports (infos : List MeWalkInfo) (last : MeWalkInfo) (calls : ℕ) : List MeWalkInfo :=
  (infos ++ last :: List.replicate calls .errTerminated).take calls

theorem reports_eq (infos : List MeWalkInfo) (last : MeWalkInfo) (calls : ℕ) :
    reports infos last calls = infos.take calls ++
      (last :: List.replicate (calls - infos.length) .errTerminated).take (calls - infos.length) := by
  unfold reports
  rw [List.take_append]
  have hle : calls - infos.length ≤ calls := Nat.sub_le ..
  generalize calls - infos.length = rest at hle ⊢
  cases rest with
  | zero => rfl
  | succ rest =>
    have hmin : min rest calls = min rest (rest + 1) := by omega
    rw [List.take_succ_cons, List.take_succ_cons, List.take_replicate, List.take_replicate, hmin]

theorem reports_tokens : reports infos last infos.length = infos := by
  unfold reports
  rw [List.take_append, List.take_length, Nat.sub_self, List.take_zero, List.append_nil]

theorem reports_last : reports infos last (infos.length + 1) = infos ++ [last] := by
  unfold reports
  rw [List.take_append, List.take_of_length_le (Nat.le_succ _), Nat.add_sub_cancel_left]
  rfl

theorem storedNumber_eq_self_iff (n : ℤ) :
    storedNumber n = n ↔ IsInt n := by
  constructor
  · intro h
    have hlower : -2147483648 ≤ storedNumber n := Int.le_bmod (by decide)
    have hupper : storedNumber n < 2147483648 := Int.bmod_lt (by decide)
    rw [h] at hlower hupper
    exact ⟨hlower, hupper⟩
  · rintro ⟨hlower, hupper⟩
    have hmin : min n 9223372036854775807 = n := by omega
    have hmax : max (-9223372036854775808) n = n := by omega
    unfold storedNumber
    rw [hmin, hmax]
    exact i32_of_lt hlower hupper

theorem MeWalkInfo.stored_eq_self_iff (info : MeWalkInfo) : info.stored = info ↔ info.IsIntSized := by
  cases info with
  | arrayIndex n =>
    show MeWalkInfo.arrayIndex (storedNumber n) = .arrayIndex n ↔ _
    rw [MeWalkInfo.arrayIndex.injEq]
    exact storedNumber_eq_self_iff n
  | offset n =>
    show MeWalkInfo.offset (storedNumber n) = .offset n ↔ _
    rw [MeWalkInfo.offset.injEq]
    exact storedNumber_eq_self_iff n
  | _ => exact iff_of_true rfl trivial

theorem map_stored_eq_self_iff : infos.map MeWalkInfo.stored = infos ↔ ∀ info ∈ infos, info.IsIntSized := by
  have hiff := List.map_inj_left (l := infos) (f := MeWalkInfo.stored) (g := id)
  rw [List.map_id] at hiff
  rw [hiff]
  exact forall₂_congr fun info _ => info.stored_eq_self_iff

/-- What a walk is to deliver: the tokens of the longest sequence that the text starts with, as
they are written, then that the text has ended or one error. -/
def DeliversGrammar (turns : ℕ) (s : List Char) : Prop :=
  ∃ infos rest last, Parses true s infos rest ∧
    (∀ infos' rest', Parses true s infos' rest' → infos' <+: infos) ∧
    (if Blank rest then last = .finished else last.IsError) ∧
    ∀ calls, walkCalls (turns + 3) calls (memberExprStateNew s) = .ok (reports infos last calls)

/-- Every number is one that an int holds, and no plus is left that only blanks follow. -/
def ReadsNumbers (s : List Char) : Prop :=
  ∀ infos rest, Parses true s infos rest → (∀ info ∈ infos, info.IsIntSized) ∧ ¬ LonePlus rest

variable {turns : ℕ}

theorem ParsesAll.walkCalls {tokens : List MeWalkInfo} {tail : List Char} {first : Bool}
    (hall : ParsesAll true s tokens tail first) (calls : ℕ) :
    walkCalls (turns + 3) calls (memberExprStateNew s) =
      .ok ((tokens.map MeWalkInfo.stored).take calls ++
        memberExprCalls (calls - tokens.length) ⟨tail, first, false⟩) := by
  rw [walkCalls_eq calls (memberExprStateNew_matches s), ← hall.calls calls]
  rfl

theorem DeliversGrammar.readsNumbers (h : DeliversGrammar turns s) : ReadsNumbers s := by
  obtain ⟨tokens, tail, first, hall⟩ := exists_parsesAll true s
  obtain ⟨infos, rest, last, hparses, hlongest, hlast, hdelivers⟩ := h
  have htokens : infos = tokens :=
    ((hall.longest hparses).eq_of_length_le (hlongest _ _ hall.parses).length_le)
  subst htokens
  obtain rfl := hall.parses.unique_rest hparses
  have hreports (calls : ℕ) := Except.ok.inj ((hall.walkCalls calls).symm.trans (hdelivers calls))
  have hstored : infos.map MeWalkInfo.stored = infos := by
    have h := hreports infos.length
    rw [reports_tokens, Nat.sub_self, ← List.length_map MeWalkInfo.stored, List.take_length] at h
    exact (List.append_nil _).symm.trans h
  have hlone : ¬ LonePlus tail := by
    intro hlone
    have h := hreports (infos.length + 1)
    rw [hstored, reports_last, List.take_of_length_le (Nat.le_succ _), Nat.add_sub_cancel_left] at h
    have hone : memberExprCalls 1 ⟨tail, first, false⟩ = [.offset 0] := by
      rw [memberExprCalls_found 0 (hlone.walk rfl)]
      rfl
    have hlast' := (List.append_cancel_left h).symm.trans hone
    rw [(List.cons.inj hlast').1] at hlast
    split_ifs at hlast
    exact hlast
  intro infos' rest' hparses'
  refine ⟨?_, ?_⟩
  · intro info hinfo
    exact map_stored_eq_self_iff.mp hstored info ((hall.longest hparses').subset hinfo)
  · intro hlone'
    rw [hall.rest_of_lonePlus hparses' hlone'] at hlone
    exact hlone hlone'

theorem ReadsNumbers.deliversGrammar (hreads : ReadsNumbers s) : DeliversGrammar turns s := by
  obtain ⟨tokens, tail, first, hall⟩ := exists_parsesAll true s
  have hends : EndsWalk ⟨tail, first, false⟩ := by
    rcases @memberExprWalk_cases ⟨tail, first, false⟩ rfl with ⟨info, s', htoken⟩ | hends
    · exact absurd htoken hall.no_token
    · exact hends
  obtain ⟨hsized, hlone⟩ := hreads tokens tail hall.parses
  have hstop : ∃ last, memberExprWalk ⟨tail, first, false⟩ = MemberExprWalker.stop ⟨tail, first, false⟩ last ∧
      if Blank tail then last = .finished else last.IsError := by
    cases hends with
    | finished hp h =>
      refine ⟨.finished, h, ?_⟩
      rw [if_pos hp]
    | lonePlus hp => exact absurd hp hlone
    | error herr hp h =>
      refine ⟨_, h, ?_⟩
      rwa [if_neg hp]
  obtain ⟨last, hwalk, hlast⟩ := hstop
  refine ⟨tokens, tail, last, hall.parses, fun _ _ h => hall.longest h, hlast, ?_⟩
  intro calls
  have htail := memberExprCalls_stop (calls - tokens.length) hwalk
  rw [hall.walkCalls calls, map_stored_eq_self_iff.mpr hsized, htail, reports_eq]

/-- The walk delivers what the grammar says exactly if the numbers of the text are read as they
are written. -/
theorem walkCalls_delivers_iff (turns : ℕ) (s : List Char) :
    DeliversGrammar turns s ↔ ReadsNumbers s :=
  ⟨DeliversGrammar.readsNumbers, ReadsNumbers.deliversGrammar⟩

/-- A plus without digits is an offset of zero, and the index `2 ^ 32` is read as zero. -/
theorem walkCalls_misreads :
    ¬ DeliversGrammar 0 ['a', '+', ' '] ∧
      ¬ DeliversGrammar 0 ['[', '4', '2', '9', '4', '9', '6', '7', '2', '9', '6', ']'] := by
  have hblank : Blank [] := fun _ h => nomatch h
  refine ⟨?_, ?_⟩
  · intro h
    have hname : IsName ['a'] := ⟨'a', [], rfl, by decide, fun _ h => nomatch h⟩
    have htoken : Token true ['a', '+', ' '] (.compoundMember "a" false) ['+', ' '] :=
      Token.dotless rfl hblank hname (stops_cons_iff.mpr (by decide))
    have hreads := h.readsNumbers _ _ (.cons htoken (.nil _ _))
    exact hreads.2 ⟨[], [' '], hblank, by decide, by decide, rfl⟩
  · intro h
    have hdigits : IsDigits ['4', '2', '9', '4', '9', '6', '7', '2', '9', '6'] :=
      ⟨List.cons_ne_nil _ _, List.all_eq_true.mp rfl⟩
    have hreads := h.readsNumbers _ _
      (.cons (Token.index .unsigned hblank hblank hdigits hblank) (.nil _ _))
    have hindex : IsInt 4294967296 := hreads.1 _ List.mem_cons_self
    exact absurd hindex (by decide)

end Reports

end ConvertBinaryC
