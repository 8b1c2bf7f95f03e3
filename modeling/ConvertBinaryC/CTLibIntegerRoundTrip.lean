import ConvertBinaryC.CTLibNumeral

/-! Printing integers with the digit stack of `integer2string`, and reading them back
(`ctlib/byteorder.c`). -/
namespace ConvertBinaryC
open FoldRules ScanRules

/-- What the text says: the word as a signed or as an unsigned number. -/
def printedValue (value : BitVec 64) (sign : Bool) : ℤ :=
  if sign then value.toInt else value.toNat

section Digits

/-- Every turn pushes a digit, and a number below `10 ^ digits` has no more than that. -/
theorem pushDigits_eq {digits val : ℕ} {stack : List ℕ} (turns : ℕ) (hval : val < 10 ^ digits)
    (hstack : stack.length + digits ≤ 20) (hturns : digits < turns) :
    ∃ pushed, pushDigits turns val stack = .ok (pushed ++ stack) ∧
      pushed.map (fun d => Char.ofNat ('0'.toNat + d)) =
        if val = 0 then [] else Nat.toDigits 10 val := by
  induction digits generalizing turns val stack with
  | zero =>
    have hzero : val = 0 := by omega
    obtain ⟨turns, rfl⟩ := Nat.exists_eq_succ_of_ne_zero (Nat.ne_of_gt hturns)
    refine ⟨[], ?_, ?_⟩
    · rw [pushDigits, if_pos hzero, List.nil_append]
    · rw [if_pos hzero, List.map_nil]
  | succ digits ih =>
    obtain ⟨turns, rfl⟩ := Nat.exists_eq_succ_of_ne_zero (Nat.ne_of_gt (Nat.zero_lt_of_lt hturns))
    by_cases hzero : val = 0
    · refine ⟨[], ?_, ?_⟩
      · rw [pushDigits, if_pos hzero, List.nil_append]
      · rw [if_pos hzero, List.map_nil]
    · have hdiv : val / 10 < 10 ^ digits := by
        rw [pow_succ] at hval
        omega
      have hroom : (val % 10 :: stack).length + digits ≤ 20 := by
        rw [List.length_cons]
        omega
      obtain ⟨pushed, hpushed, htext⟩ := ih turns hdiv hroom (by omega)
      refine ⟨pushed ++ [val % 10], ?_, ?_⟩
      · rw [pushDigits, if_neg hzero, if_neg (by omega), hpushed, List.append_assoc]
        rfl
      · have hchar : Char.ofNat ('0'.toNat + val % 10) = Nat.digitChar (val % 10) := by
          have hlt : val % 10 < 10 := Nat.mod_lt _ (by decide)
          generalize val % 10 = d at hlt
          interval_cases d <;> rfl
        rw [List.map_append, htext, if_neg hzero, List.map_singleton, hchar,
          Nat.toDigits_eq_if (by decide : 1 < 10) (n := val)]
        split_ifs with hdiv hsmall hsmall
        · rw [Nat.mod_eq_of_lt hsmall, List.nil_append]
        · omega
        · omega
        · rfl

end Digits

section Text
variable (value : BitVec 64) (sign : Bool)

theorem printedValue_eq : printedValue value sign =
    if (sign && value.msb) = true then -((-value).toNat : ℤ) else value.toNat := by
  unfold printedValue
  cases sign with
  | false => rfl
  | true =>
    rw [if_pos rfl, Bool.true_and, BitVec.toInt_eq_msb_cond]
    split_ifs with hmsb
    · have hlt := value.isLt
      have hpos : 0 < value.toNat := by
        have hhalf := BitVec.msb_eq_true_iff_two_mul_ge.mp hmsb
        omega
      have hneg : (-value).toNat = 2 ^ 64 - value.toNat := by
        rw [BitVec.toNat_neg, Nat.mod_eq_of_lt (by omega)]
      omega
    · rfl

/-- A sign, and the digits of the absolute value, which is a long. -/
theorem integer2string_digits (hlowest : ¬ (sign = true ∧ value = 0x8000000000000000)) :
    integer2string value sign = .ok ((if (sign && value.msb) = true then ['-'] else []) ++
      Nat.toDigits 10 (if (sign && value.msb) = true then -value else value).toNat) := by
  have hneg : (sign && decide (value.toInt < 0)) = (sign && value.msb) := by
    rw [BitVec.msb_eq_toInt]
  have hval : (if (sign && value.msb) = true then
      long (-value.toInt) >>= fun v => .ok (u64 v).toNat else .ok value.toNat) =
      .ok (if (sign && value.msb) = true then -value else value).toNat := by
    split_ifs with h
    · obtain ⟨hsign, hmsb⟩ := Bool.and_eq_true_iff.mp h
      have hne : value.toNat ≠ 2 ^ 63 := fun heq => hlowest ⟨hsign, BitVec.eq_of_toNat_eq heq⟩
      have hhalf := BitVec.msb_eq_true_iff_two_mul_ge.mp hmsb
      have hisLt := value.isLt
      have htoInt : value.toInt = value.toNat - 2 ^ 64 := by
        rw [BitVec.toInt_eq_msb_cond, if_pos hmsb]
        rfl
      have hlong : IsLong (-value.toInt) := by
        unfold IsLong
        omega
      rw [long_ok_iff.mpr ⟨hlong, rfl⟩, BitVec.toNat_neg, Nat.mod_eq_of_lt (by omega)]
      show Except.ok (u64 (-value.toInt)).toNat = _
      rw [u64_of_lt (by omega) (by omega), htoInt]
      congr 1
      omega
    · rfl
  generalize hv : (if (sign && value.msb) = true then -value else value) = val at hval ⊢
  have hlt : val.toNat < 10 ^ 20 := val.isLt.trans (by decide)
  obtain ⟨pushed, hpushed, htext⟩ := @pushDigits_eq 20 val.toNat [] 21 hlt (by decide) (by decide)
  have hdigits : (if pushed.map (fun d => Char.ofNat ('0'.toNat + d)) = [] then ['0']
      else pushed.map fun d => Char.ofNat ('0'.toNat + d)) = Nat.toDigits 10 val.toNat := by
    rw [htext]
    by_cases hzero : val.toNat = 0
    · rw [if_pos hzero, hzero]
      rfl
    · rw [if_neg hzero, if_neg Nat.toDigits_ne_nil]
  unfold integer2string
  dsimp only
  rw [hneg, hval, call_bind_apply, hpushed, call_bind_apply, List.append_nil, hdigits]

/-- The text is the decimal representation. -/
theorem integer2string_eq (hlowest : ¬ (sign = true ∧ value = 0x8000000000000000)) :
    integer2string value sign = .ok (toString (printedValue value sign)).toList := by
  rw [printedValue_eq, integer2string_digits value sign hlowest, Int.toString_eq_repr, Int.repr_eq_if]
  congr 1
  by_cases hneg : (sign && value.msb) = true
  · have hmsb := (Bool.and_eq_true_iff.mp hneg).2
    have hpos : 0 < (-value).toNat := by
      have hhalf := BitVec.msb_eq_true_iff_two_mul_ge.mp hmsb
      have hisLt := value.isLt
      rw [BitVec.toNat_neg, Nat.mod_eq_of_lt (by omega)]
      omega
    rw [if_pos hneg, if_pos hneg, if_pos hneg, if_neg (by omega), String.toList_append, Int.neg_neg,
      Int.toNat_natCast, Nat.toList_repr]
    rfl
  · rw [if_neg hneg, if_neg hneg, if_neg hneg, if_pos (Int.natCast_nonneg _), Int.toNat_natCast,
      Nat.toList_repr, List.nil_append]

end Text

section RoundTrip
variable {m : ℕ}

theorem isDigit_of_mem_toDigits {c : Char} (h : c ∈ Nat.toDigits 10 m) : isDigit c = true := by
  have hdigit := Nat.isDigit_of_mem_toDigits (by decide) (by decide) h
  rw [Char.isDigit, Bool.and_eq_true_iff, decide_eq_true_iff, decide_eq_true_iff] at hdigit
  exact decide_eq_true hdigit

/-- The digits of a number that is not zero do not start with a zero. -/
theorem toDigits_head_ne (hm : m ≠ 0) : ∀ c ∈ (Nat.toDigits 10 m).head?, c ≠ '0' := by
  induction m using Nat.strong_induction_on with
  | _ m ih =>
    intro c hc
    rw [Nat.toDigits_eq_if (by decide)] at hc
    split_ifs at hc with hsmall
    · rw [← Option.some.inj hc]
      interval_cases m <;> first | exact absurd rfl hm | decide
    · obtain ⟨d, digits, hdigits⟩ := List.exists_cons_of_ne_nil (@Nat.toDigits_ne_nil (m / 10) 10)
      rw [hdigits] at hc
      apply ih (m / 10) (by omega) (by omega) c
      rw [hdigits]
      exact hc

theorem radixValue_toDigits : radixValue 10 (Nat.toDigits 10 m) = m := by
  have hfold := List.foldl_ext (fun v c => 10 * v + digitValue c)
    (fun v c => 10 * v + (c.toNat - '0'.toNat)) 0 fun v c (hc : c ∈ Nat.toDigits 10 m) =>
      congrArg (10 * v + ·) (decimal_digitValue (isDigit_of_mem_toDigits hc))
  calc radixValue 10 (Nat.toDigits 10 m) = Nat.ofDigitChars 10 (Nat.toDigits 10 m) 0 := hfold
    _ = m := Nat.ofDigitChars_ten_toDigits

theorem blank_nil : Blank [] := fun _ h => nomatch h

/-- A printed number is a number of the grammar: zero is written as an octal one. -/
theorem exists_printed (neg : Bool) (m : ℕ) : ∃ n : Numeral,
    n.text = (if neg then ['-'] else []) ++ Nat.toDigits 10 m ∧
      n.value = (if neg then -(m : ℤ) else m) ∧ decide (n.sign = .minus) = neg := by
  have hsign : ∃ sign : Sign, sign.text = (if neg then ['-'] else []) ∧
      (∀ x, sign.apply x = if neg then -x else x) ∧ decide (sign = .minus) = neg := by
    cases neg with
    | true => exact ⟨.minus, rfl, fun _ => rfl, rfl⟩
    | false => exact ⟨.unsigned, rfl, fun _ => rfl, rfl⟩
  obtain ⟨sign, htext, hvalue, hneg⟩ := hsign
  by_cases hm : m = 0
  · refine ⟨⟨[], sign, [], .octal, [], [], blank_nil, blank_nil, blank_nil,
      (fun _ h => nomatch h), (fun h => nomatch h)⟩, ?_, ?_, hneg⟩
    · rw [hm, ← htext]
      rfl
    · rw [hm]
      exact hvalue 0
  · refine ⟨⟨[], sign, [], .decimal, Nat.toDigits 10 m, [], blank_nil, blank_nil, blank_nil,
      fun _ hc => isDigit_of_mem_toDigits hc, ?_⟩, ?_, ?_, hneg⟩
    · intro _ c hc
      rw [List.append_nil] at hc
      have hdigit := isDigit_of_mem_toDigits (List.mem_of_mem_head? hc)
      exact ⟨isDigit_not_space hdigit, toDigits_head_ne hm c hc⟩
    · rw [← htext]
      show sign.text ++ (Nat.toDigits 10 m ++ []) = sign.text ++ Nat.toDigits 10 m
      rw [List.append_nil]
    · show sign.apply (radixValue 10 (Nat.toDigits 10 m)) = _
      rw [radixValue_toDigits, hvalue]

variable (value : BitVec 64) (sign : Bool)

theorem ofInt_printedValue : BitVec.ofInt 64 (printedValue value sign) = value := by
  cases sign with
  | true => exact BitVec.ofInt_toInt
  | false =>
    show BitVec.ofInt 64 value.toNat = value
    rw [BitVec.ofInt_natCast]
    exact BitVec.ofNat_toNat ..

/-- What is printed is read back as the same word. -/
theorem string2integer_digits :
    string2integer ((if (sign && value.msb) = true then ['-'] else []) ++
      Nat.toDigits 10 (if (sign && value.msb) = true then -value else value).toNat) =
        (sign && value.msb, value) := by
  obtain ⟨n, htext, hvalue, hneg⟩ := exists_printed (sign && value.msb)
    (if (sign && value.msb) = true then -value else value).toNat
  have hprinted : n.value = printedValue value sign := by
    rw [hvalue, printedValue_eq]
    split_ifs
    · rfl
    · rfl
  have hscan := n.string2integerScan_eq
  rw [htext, hneg, hprinted, ofInt_printedValue] at hscan
  rw [← string2integerScan_fst, hscan]

end RoundTrip

/-- The text of a word is its decimal representation, the stack holds its digits, and it is read
back as the same word. -/
def Prints (value : BitVec 64) (sign : Bool) : Prop :=
  ∃ s, integer2string value sign = .ok s ∧ s = (toString (printedValue value sign)).toList ∧
    string2integer s = (sign && value.msb, value)

/-- The negation of the most negative number is not defined. -/
theorem prints_iff (value : BitVec 64) (sign : Bool) :
    Prints value sign ↔ ¬ (sign = true ∧ value = 0x8000000000000000) := by
  constructor
  · rintro ⟨s, hs, -⟩ ⟨rfl, rfl⟩
    have hfault : integer2string 0x8000000000000000 true = .error .undefinedBehaviour := by decide
    rw [hfault] at hs
    cases hs
  · intro hlowest
    refine ⟨_, integer2string_digits value sign hlowest, ?_, string2integer_digits value sign⟩
    have htext := integer2string_eq value sign hlowest
    rw [integer2string_digits value sign hlowest] at htext
    exact Except.ok.inj htext

/-- The most negative number has no text. -/
theorem lowest_not_printed : ¬ ∀ value sign, Prints value sign :=
  fun h => (prints_iff 0x8000000000000000 true).mp (h _ _) ⟨rfl, rfl⟩

/-- The classifier and the converter read the same number from a text that is one; every word but
the most negative one is printed in decimal, and read back. -/
theorem integer_conversions_agree (s : List Char) (value : BitVec 64) (sign : Bool) :
    (stringIsInteger s ≠ 0 → ∃ n : Numeral, n.text = s ∧
      stringIsInteger s = n.radix.base ∧
      string2integer s = (decide (n.sign = .minus), BitVec.ofInt 64 n.value) ∧
      (stringIsIntegerScan s).2 = n.after ∧ (string2integerScan s).2 = n.after) ∧
    (Prints value sign ↔ ¬ (sign = true ∧ value = 0x8000000000000000)) := by
  refine ⟨?_, prints_iff value sign⟩
  intro h
  obtain ⟨n, rfl⟩ := exists_numeral h
  have hscan := n.string2integerScan_eq
  refine ⟨n, rfl, n.stringIsInteger_text, ?_, ?_, ?_⟩
  · rw [← string2integerScan_fst, hscan]
  · rw [n.stringIsIntegerScan_eq]
  · rw [hscan]

/-- A text in hexadecimal digits, and the largest word. -/
theorem integer_conversions_agree_at :
    (∃ n : Numeral, n.text = [' ', '-', '0', 'x', 'f', 'F'] ∧
      string2integer [' ', '-', '0', 'x', 'f', 'F'] =
        (decide (n.sign = .minus), BitVec.ofInt 64 n.value)) ∧
    Prints 0xFFFFFFFFFFFFFFFF false := by
  obtain ⟨hread, hprint⟩ :=
    integer_conversions_agree [' ', '-', '0', 'x', 'f', 'F'] 0xFFFFFFFFFFFFFFFF false
  obtain ⟨n, htext, -, hvalue, -⟩ := hread (by decide)
  exact ⟨⟨n, htext, hvalue⟩, hprint.mpr (by decide)⟩

end ConvertBinaryC
