import ConvertBinaryC.CBCMemberGrammar
import ConvertBinaryC.CTLibIntegerRoundTrip

/-! Member expressions as `get_member_string` and `get_all_member_strings` write them, and that the
walker of `cbc/member.c` reads such a text as the accesses it was written for. -/
namespace ConvertBinaryC
open FoldRules ScanRules

/-- The text of an access: `.name`, `[index]` or `+offset`. -/
def MeWalkInfo.text : MeWalkInfo → String
  | .compoundMember name has_dot => (if has_dot then "." else "") ++ name
  | .arrayIndex index => "[" ++ toString index ++ "]"
  | .offset n => "+" ++ toString n
  | _ => ""

def memberText (infos : List MeWalkInfo) : String := String.join (infos.map MeWalkInfo.text)

/-- Accesses that a text can stand for: only the first member needs no dot, and an offset is
not negative and the last of them. -/
def Spelled : Bool → List MeWalkInfo → Prop
  | _, [] => True
  | first, .compoundMember name has_dot :: infos =>
    IsName name.toList ∧ (has_dot = false → first = true) ∧ Spelled false infos
  | _, .arrayIndex index :: infos => IsInt index ∧ Spelled false infos
  | _, .offset n :: infos => 0 ≤ n ∧ IsInt n ∧ infos = []
  | _, _ => False

section Numbers
variable {m : ℕ}

theorem digitsValue_eq_radixValue (digits : List Char) :
    digitsValue digits = (radixValue 10 digits : ℤ) := by
  have hfold (v : ℕ) : digits.foldl (fun n c => 10 * n + (digitValue c : ℤ)) (v : ℤ) =
      (digits.foldl (fun v c => 10 * v + digitValue c) v : ℕ) := by
    induction digits generalizing v with
    | nil => rfl
    | cons c digits ih =>
      rw [List.foldl_cons, List.foldl_cons, ← ih]
      push_cast
      rfl
  exact hfold 0

theorem toDigits_isDigits : IsDigits (Nat.toDigits 10 m) :=
  ⟨Nat.toDigits_ne_nil, fun _ hc => isDigit_of_mem_toDigits hc⟩

theorem digitsValue_toDigits : digitsValue (Nat.toDigits 10 m) = m := by
  rw [digitsValue_eq_radixValue, radixValue_toDigits]

theorem toString_natCast_toList (m : ℕ) : (toString (m : ℤ)).toList = Nat.toDigits 10 m := by
  rw [Int.toString_eq_repr, Int.repr_eq_if, if_pos (Int.natCast_nonneg m), Int.toNat_natCast,
    Nat.toList_repr]

/-- `%d` writes a sign for a negative number and then the digits. -/
theorem exists_toString_number (n : ℤ) : ∃ sign : Sign, ∃ digits, IsDigits digits ∧
    (toString n).toList = sign.text ++ digits ∧ sign.apply (digitsValue digits) = n := by
  by_cases hneg : n < 0
  · refine ⟨.minus, Nat.toDigits 10 (-n).toNat, toDigits_isDigits, ?_, ?_⟩
    · rw [Int.toString_eq_repr, Int.repr_eq_if, if_neg (by omega), String.toList_append,
        Nat.toList_repr]
      rfl
    · show -digitsValue _ = n
      rw [digitsValue_toDigits]
      omega
  · obtain ⟨m, rfl⟩ := Int.eq_ofNat_of_zero_le (not_lt.mp hneg)
    exact ⟨.unsigned, Nat.toDigits 10 m, toDigits_isDigits, toString_natCast_toList m,
      digitsValue_toDigits⟩

end Numbers

section Text
variable {first : Bool} {infos : List MeWalkInfo} {info : MeWalkInfo} {s : List Char}

theorem memberText_nil : memberText [] = "" := rfl

theorem memberText_cons (info : MeWalkInfo) (infos : List MeWalkInfo) :
    memberText (info :: infos) = info.text ++ memberText infos := by
  unfold memberText
  rw [List.map_cons, String.join_cons]

theorem memberText_append (infos infos' : List MeWalkInfo) :
    memberText (infos ++ infos') = memberText infos ++ memberText infos' := by
  induction infos with
  | nil => rw [List.nil_append, memberText_nil, String.empty_append]
  | cons info infos ih =>
    rw [List.cons_append, memberText_cons, memberText_cons, ih, String.append_assoc]

theorem memberText_toList_cons (info : MeWalkInfo) (infos : List MeWalkInfo) :
    (memberText (info :: infos)).toList = info.text.toList ++ (memberText infos).toList := by
  rw [memberText_cons, String.toList_append]

/-- A name ends where the text of the next access begins, as that is no first one. -/
theorem Spelled.stops (h : Spelled false infos) : Stops isMemberChar (memberText infos).toList := by
  cases infos with
  | nil => exact stops_nil
  | cons info infos =>
    rw [memberText_toList_cons]
    cases info with
    | compoundMember name has_dot =>
      obtain ⟨-, hdot, -⟩ := h
      cases has_dot with
      | false => exact absurd (hdot rfl) Bool.false_ne_true
      | true =>
        show Stops isMemberChar (("." ++ name).toList ++ _)
        rw [String.toList_append]
        exact stops_cons_iff.mpr (by decide)
    | arrayIndex index =>
      show Stops isMemberChar (("[" ++ toString index ++ "]").toList ++ _)
      rw [String.toList_append, String.toList_append]
      exact stops_cons_iff.mpr (by decide)
    | offset n =>
      show Stops isMemberChar (("+" ++ toString n).toList ++ _)
      rw [String.toList_append]
      exact stops_cons_iff.mpr (by decide)
    | _ => exact absurd h id

/-- The text of an access is a token of the grammar. -/
theorem Spelled.token (h : Spelled first (info :: infos)) :
    Token first (memberText (info :: infos)).toList info (memberText infos).toList := by
  rw [memberText_toList_cons]
  cases info with
  | compoundMember name has_dot =>
    obtain ⟨hname, hdot, hrest⟩ := h
    have hofList : String.ofList name.toList = name := String.ofList_toList
    cases has_dot with
    | true =>
      have htoken := @Token.member first _ _ _ _ blank_nil blank_nil hname hrest.stops
      rw [hofList] at htoken
      show Token first (("." ++ name).toList ++ _) _ _
      rw [String.toList_append, List.append_assoc]
      exact htoken
    | false =>
      have htoken := Token.dotless (hdot rfl) blank_nil hname hrest.stops
      rw [hofList] at htoken
      show Token first (("" ++ name).toList ++ _) _ _
      rw [String.empty_append]
      exact htoken
  | arrayIndex index =>
    obtain ⟨sign, digits, hdigits, htext, hvalue⟩ := exists_toString_number index
    have htoken := @Token.index first [] [] digits [] (memberText infos).toList sign blank_nil
      blank_nil hdigits blank_nil
    rw [hvalue] at htoken
    show Token first (("[" ++ toString index ++ "]").toList ++ _) _ _
    rw [String.toList_append, String.toList_append, htext, List.append_assoc, List.append_assoc,
      List.append_assoc]
    exact htoken
  | offset n =>
    obtain ⟨hpos, -, rfl⟩ := h
    obtain ⟨m, rfl⟩ := Int.eq_ofNat_of_zero_le hpos
    have htoken := @Token.offset first [] _ [] blank_nil (@toDigits_isDigits m) blank_nil
    rw [digitsValue_toDigits] at htoken
    show Token first (("+" ++ toString (m : ℤ)).toList ++ _) _ _
    rw [String.toList_append, toString_natCast_toList]
    exact htoken
  | _ => exact absurd h id

theorem Spelled.tail (h : Spelled first (info :: infos)) : Spelled false infos := by
  cases info with
  | compoundMember name has_dot => exact h.2.2
  | arrayIndex index => exact h.2
  | offset n =>
    rw [h.2.2]
    trivial
  | _ => exact absurd h id

/-- Numbers that are written are ints, so that reading them does not change them. -/
theorem Spelled.stored (h : Spelled first (info :: infos)) : info.stored = info := by
  apply info.stored_eq_self_iff.mpr
  cases info with
  | arrayIndex index => exact h.1
  | offset n => exact h.2.1
  | _ => trivial

/-- A call of the walker that finds a token is followed by the calls on the rest. -/
theorem memberExprItems_token (calls : ℕ) (h : Token first s info s') :
    memberExprItems (calls + 1) ⟨s, first, false⟩ =
      info.stored :: memberExprItems calls ⟨s', false, false⟩ := by
  obtain ⟨hwalk, -⟩ := @Token.walk ⟨s, first, false⟩ _ _ h rfl
  rw [memberExprItems, hwalk]
  rfl

/-- With a call for each character and one for the end, the walker reports what was written. -/
theorem Spelled.items (h : Spelled first infos) {calls : ℕ}
    (hcalls : (memberText infos).toList.length < calls) :
    memberExprItems calls ⟨(memberText infos).toList, first, false⟩ = infos ++ [.finished] := by
  induction infos generalizing first calls with
  | nil =>
    cases calls with
    | zero => exact absurd hcalls (Nat.not_lt_zero _)
    | succ calls => rfl
  | cons info infos ih =>
    cases calls with
    | zero => exact absurd hcalls (Nat.not_lt_zero _)
    | succ calls =>
      have hlt := h.token.length_lt
      have hrest := @ih false h.tail calls (by omega)
      rw [memberExprItems_token calls h.token, hrest, h.stored]
      rfl

/-- The walker reads a written member expression as the accesses that it was written for. -/
theorem memberExpr_memberText (h : Spelled true infos) :
    memberExpr (memberText infos).toList = infos ++ [.finished] :=
  h.items (Nat.lt_succ_self _)

/-- A number that the walker reports is an int. -/
theorem isInt_storedNumber (n : ℤ) : IsInt (storedNumber n) :=
  ⟨Int.le_bmod (by decide), Int.bmod_lt (by decide)⟩

/-- A token in front of accesses that can be written can be written with them. -/
theorem Token.spelled (h : Token first s info s') (hpos : ∀ n, info.stored = .offset n → 0 ≤ n)
    (hend : s' = [] → infos = []) (hrest : Spelled false infos) :
    Spelled first (info.stored :: infos) := by
  cases h with
  | member hw hw' hname hs =>
    refine ⟨?_, fun h => absurd h.symm Bool.false_ne_true, hrest⟩
    rw [String.toList_ofList]
    exact hname
  | dotless hfirst hw hname hs =>
    refine ⟨?_, fun _ => hfirst, hrest⟩
    rw [String.toList_ofList]
    exact hname
  | index sign hw hw' hdigits hw'' => exact ⟨isInt_storedNumber _, hrest⟩
  | offset hw hdigits hw' => exact ⟨hpos _ rfl, isInt_storedNumber _, hend rfl⟩

/-- Nothing is reported of an empty text. -/
theorem memberExprItems_empty {calls : ℕ}
    (h : memberExprItems calls ⟨[], first, false⟩ = infos ++ [.finished]) : infos = [] := by
  cases calls with
  | zero => exact absurd h.symm (List.append_ne_nil_of_right_ne_nil _ (List.cons_ne_nil _ _))
  | succ calls =>
    have hend : [MeWalkInfo.finished] = infos ++ [.finished] := h
    cases infos with
    | nil => rfl
    | cons info infos =>
      have hlength := congrArg List.length hend
      simp at hlength

/-- What the walker reports of an expression it accepts can be written, if the offset at its end
has not become negative. -/
theorem spelled_of_items {calls : ℕ}
    (h : memberExprItems calls ⟨s, first, false⟩ = infos ++ [.finished])
    (hpos : ∀ n, MeWalkInfo.offset n ∈ infos → 0 ≤ n) : Spelled first infos := by
  induction calls generalizing s first infos with
  | zero => exact absurd h.symm (List.append_ne_nil_of_right_ne_nil _ (List.cons_ne_nil _ _))
  | succ calls ih =>
    -- the first report is the first of `infos`, or the end when there is none
    have hstop {last : MeWalkInfo} (hwalk : memberExprWalk ⟨s, first, false⟩ =
        MemberExprWalker.stop ⟨s, first, false⟩ last) : infos = [] ∧ last = .finished := by
      rw [memberExprItems, hwalk] at h
      have hone : [last] = infos ++ [.finished] := h
      cases infos with
      | nil => exact ⟨rfl, (List.cons.inj hone).1⟩
      | cons info infos =>
        have hlength := congrArg List.length hone
        simp at hlength
    rcases @memberExprWalk_cases ⟨s, first, false⟩ rfl with ⟨info, s', htoken⟩ | hend
    · rw [memberExprItems_token calls htoken] at h
      cases infos with
      | nil =>
        trivial
      | cons info' infos =>
        obtain ⟨hhead, htail⟩ := List.cons.inj h
        rw [← hhead] at hpos ⊢
        apply htoken.spelled
        · intro n hn
          apply hpos
          rw [hn]
          exact List.mem_cons_self
        · rintro rfl
          exact memberExprItems_empty htail
        · exact ih htail fun n hn => hpos n (List.mem_cons_of_mem _ hn)
    · cases hend with
      | finished hp hwalk =>
        rw [(hstop hwalk).1]
        trivial
      | lonePlus hp hwalk =>
        rw [memberExprItems, hwalk] at h
        cases infos with
        | nil => trivial
        | cons info infos =>
          obtain ⟨rfl, htail⟩ := List.cons.inj h
          exact ⟨le_rfl, by decide, memberExprItems_empty htail⟩
      | error herr hp hwalk =>
        rw [(hstop hwalk).2] at herr
        exact absurd herr id

/-- Every expression that the walker accepts can be written in one way, with dots and without
blanks, which the walker reads as the same accesses. -/
theorem memberExpr_canonical (h : memberExpr s = infos ++ [.finished])
    (hpos : ∀ n, MeWalkInfo.offset n ∈ infos → 0 ≤ n) :
    memberExpr (memberText infos).toList = infos ++ [.finished] :=
  memberExpr_memberText (spelled_of_items h hpos)

theorem memberExpr_canonical_blanks :
    memberExpr "table[2].x+3".toList =
      [.compoundMember "table" false, .arrayIndex 2, .compoundMember "x" true, .offset 3,
        .finished] :=
  @memberExpr_canonical
    [.compoundMember "table" false, .arrayIndex 2, .compoundMember "x" true, .offset 3]
    " table [ +2 ] . x +3 ".toList (by decide) (by simp)

end Text

end ConvertBinaryC
