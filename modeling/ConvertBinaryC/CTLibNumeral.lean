import Mathlib.Data.Nat.Digits.Defs
import ConvertBinaryC.ScanRules
import ConvertBinaryC.CTLibLiteralValue

/-! The grammar of the numbers that `ctlib/byteorder.c` converts, and what its scanners make of
them. -/
namespace ConvertBinaryC
open FoldRules ScanRules

def Blank (s : List Char) : Prop := ∀ c ∈ s, isSpace c = true

instance (s : List Char) : Decidable (Blank s) :=
  decidable_of_iff (s.all isSpace = true) List.all_eq_true

/-- The sign of a decimal number: a minus, or a plus that need not be written. -/
inductive Sign where
  | unsigned
  | minus
  | plus
  deriving DecidableEq, Repr

def Sign.text : Sign → List Char
  | unsigned => []
  | minus => ['-']
  | plus => ['+']

def Sign.apply : Sign → ℤ → ℤ
  | minus, n => -n
  | _, n => n

theorem skipSpace_blank {w : List Char} (hw : Blank w) (s : List Char) :
    skipSpace (w ++ s) = skipSpace s := List.dropWhile_append_of_pos hw

theorem skipSpace_cons {c : Char} (hc : isSpace c = false) (s : List Char) :
    skipSpace (c :: s) = c :: s := (stops_cons_iff.mpr hc).dropWhile_eq_self

theorem blank_iff {s : List Char} : skipSpace s = [] ↔ Blank s := List.dropWhile_eq_nil_iff

/-- Every text is white space and what is left. -/
theorem exists_blank (s : List Char) : ∃ w, Blank w ∧ s = w ++ skipSpace s :=
  ⟨s.takeWhile isSpace, fun _ hc => mem_takeWhile hc, (List.takeWhile_append_dropWhile).symm⟩

theorem isSpace_cases {c : Char} (h : isSpace c = true) :
    c ∈ [' ', '\t', '\n', '\x0b', '\x0c', '\r'] := by
  simpa [isSpace] using h

theorem isSpace_eq_false {p : Char → Bool} {c : Char}
    (hp : [' ', '\t', '\n', '\x0b', '\x0c', '\r'].any p = false) (hc : p c = true) :
    isSpace c = false := by
  by_contra hspace
  have hmem := isSpace_cases (Bool.of_not_eq_false hspace)
  exact List.any_eq_false.mp hp c hmem hc

theorem isDigit_not_space {c : Char} (h : isDigit c = true) : isSpace c = false :=
  isSpace_eq_false (by decide) h

inductive Radix where
  | binary
  | octal
  | decimal
  | hexadecimal
  deriving DecidableEq, Repr

def Radix.base : Radix → ℕ
  | binary => 2
  | octal => 8
  | decimal => 10
  | hexadecimal => 16

/-- What is written in front of the digits. -/
def Radix.mark : Radix → List Char
  | binary => ['0', 'b']
  | octal => ['0']
  | decimal => []
  | hexadecimal => ['0', 'x']

def Radix.isDigit : Radix → Char → Bool
  | binary => isBinDigit
  | octal => isOctDigit
  | decimal => ConvertBinaryC.isDigit
  | hexadecimal => isXDigit

/-- How `string2integer` appends a digit. -/
def Radix.shiftIn : Radix → BitVec 64 → Char → BitVec 64
  | binary, iv, c => (iv <<< 1) ||| (BitVec.ofNat 64 (digitValue c) &&& 0x1)
  | octal, iv, c => (iv <<< 3) ||| (BitVec.ofNat 64 (digitValue c) &&& 0x7)
  | decimal, iv, c => 10 * iv + BitVec.ofNat 64 (digitValue c)
  | hexadecimal, iv, c => (iv <<< 4) ||| (BitVec.ofNat 64 (digitValue c) &&& 0xF)

/-- A number with white space around it. A decimal one starts neither with a zero nor, where it
has no digits, with white space. -/
structure Numeral where
  before : List Char
  sign : Sign
  between : List Char
  radix : Radix
  digits : List Char
  after : List Char
  before_blank : Blank before
  between_blank : Blank between
  after_blank : Blank after
  digits_valid : ∀ c ∈ digits, radix.isDigit c = true
  decimal_start : radix = .decimal → ∀ c ∈ (digits ++ after).head?, isSpace c = false ∧ c ≠ '0'

namespace Numeral
variable (n : Numeral)

/-- The text from the mark on. -/
def body : List Char := n.radix.mark ++ (n.digits ++ n.after)

def text : List Char := n.before ++ (n.sign.text ++ (n.between ++ n.body))

def value : ℤ := n.sign.apply (radixValue n.radix.base n.digits)

end Numeral

/-- A digit loop: what it computes, and where it stops. -/
def digitLoop (radix : Radix) : BitVec 64 → List Char → BitVec 64 × List Char
  | iv, [] => (iv, [])
  | iv, c :: rest =>
    if radix.isDigit c then digitLoop radix (radix.shiftIn iv c) rest else (iv, c :: rest)

/-- `string2integer` with the text at which its digit loop stops. -/
def string2integerScan (s : List Char) : (Bool × BitVec 64) × List Char :=
  let (sign, rest) := splitSign s
  let (iv, rest) := match rest with
    | '0' :: 'x' :: digits => digitLoop .hexadecimal 0 digits
    | '0' :: 'b' :: digits => digitLoop .binary 0 digits
    | '0' :: digits => digitLoop .octal 0 digits
    | digits => digitLoop .decimal 0 digits
  ((sign, if sign then -iv else iv), rest)

/-- `string_is_integer` at the end of its digits: the base and the text that follows. -/
def stringIsIntegerScan (s : List Char) : ℕ × List Char :=
  match (splitSign s).2 with
  | '0' :: 'x' :: digits => (16, digits.dropWhile isXDigit)
  | '0' :: 'b' :: digits => (2, digits.dropWhile isBinDigit)
  | '0' :: digits => (8, digits.dropWhile isOctDigit)
  | digits => (10, digits.dropWhile isDigit)

theorem stringIsInteger_eq (s : List Char) : stringIsInteger s =
    if skipSpace (stringIsIntegerScan s).2 = [] then (stringIsIntegerScan s).1 else 0 := rfl

theorem digitLoop_eq (radix : Radix) (iv : BitVec 64) (s : List Char) :
    digitLoop radix iv s =
      ((s.takeWhile radix.isDigit).foldl radix.shiftIn iv, s.dropWhile radix.isDigit) := by
  induction s generalizing iv with
  | nil => rfl
  | cons c rest ih =>
    rw [digitLoop, List.takeWhile_cons, List.dropWhile_cons]
    split_ifs with hc
    · exact ih (radix.shiftIn iv c)
    · rfl

theorem string2integerScan_fst (s : List Char) : (string2integerScan s).1 = string2integer s := by
  unfold string2integerScan string2integer
  obtain ⟨sign, rest⟩ := splitSign s
  have hdigits : (match rest with
      | '0' :: 'x' :: digits => digitLoop .hexadecimal 0 digits
      | '0' :: 'b' :: digits => digitLoop .binary 0 digits
      | '0' :: digits => digitLoop .octal 0 digits
      | digits => digitLoop .decimal 0 digits).1 =
      match rest with
      | '0' :: 'x' :: digits => shiftDigits 4 0xF (digits.takeWhile isXDigit)
      | '0' :: 'b' :: digits => shiftDigits 1 0x1 (digits.takeWhile isBinDigit)
      | '0' :: digits => shiftDigits 3 0x7 (digits.takeWhile isOctDigit)
      | digits => decimalDigits (digits.takeWhile isDigit) := by
    simp only [digitLoop_eq]
    split
    · rfl
    · rfl
    · rfl
    · rfl
  exact congrArg (fun iv : BitVec 64 => (sign, if sign then -iv else iv)) hdigits

section Values

theorem isDigit_bounds {c : Char} (h : isDigit c = true) : 48 ≤ c.toNat ∧ c.toNat ≤ 57 := by
  have hbounds : '0' ≤ c ∧ c ≤ '9' := of_decide_eq_true h
  exact hbounds

theorem decimal_digitValue {c : Char} (h : isDigit c = true) : digitValue c = c.toNat - 48 :=
  if_pos h

theorem isXDigit_lt {c : Char} (h : isXDigit c = true) : digitValue c < 16 := by
  have hcases : isDigit c = true ∨ ('a' ≤ c ∧ c ≤ 'f') ∨ ('A' ≤ c ∧ c ≤ 'F') := of_decide_eq_true h
  have hupper : isUpper c = true ↔ 65 ≤ c.toNat ∧ c.toNat ≤ 90 := decide_eq_true_iff
  have hdigit : isDigit c = true ↔ 48 ≤ c.toNat ∧ c.toNat ≤ 57 := decide_eq_true_iff
  have hletter : isDigit c = true ∨ (97 ≤ c.toNat ∧ c.toNat ≤ 102) ∨ (65 ≤ c.toNat ∧ c.toNat ≤ 70) :=
    hcases
  rw [hdigit] at hletter
  unfold digitValue
  rw [show '0'.toNat = 48 by rfl, show 'A'.toNat = 65 by rfl, show 'a'.toNat = 97 by rfl]
  split_ifs with h₁ h₂
  · rw [hdigit] at h₁
    omega
  · rw [hdigit] at h₁
    rw [hupper] at h₂
    omega
  · rw [hdigit] at h₁
    rw [hupper] at h₂
    omega

theorem Radix.digit_lt {radix : Radix} {c : Char} (h : radix.isDigit c = true) :
    digitValue c < radix.base := by
  cases radix with
  | binary =>
    have hcases : c = '0' ∨ c = '1' := of_decide_eq_true h
    rcases hcases with rfl | rfl
    · decide
    · decide
  | octal =>
    have hbounds := isOctDigit_bounds h
    rw [octal_digitValue h]
    show c.toNat - 48 < 8
    omega
  | decimal =>
    have hbounds := isDigit_bounds h
    rw [decimal_digitValue h]
    show c.toNat - 48 < 10
    omega
  | hexadecimal => exact isXDigit_lt h

/-- Shifting a digit in is multiplying by the base and adding it. -/
theorem shiftLeft_or_ofNat (k n d : ℕ) (hk : k ≤ 64) (hd : d < 2 ^ k) :
    (BitVec.ofNat 64 n <<< k ||| BitVec.ofNat 64 d) = BitVec.ofNat 64 (2 ^ k * n + d) := by
  have hlt : d < 2 ^ 64 := hd.trans_le (Nat.pow_le_pow_right (by decide) hk)
  apply BitVec.eq_of_toNat_eq
  rw [BitVec.toNat_or, BitVec.toNat_shiftLeft, BitVec.toNat_ofNat, BitVec.toNat_ofNat,
    BitVec.toNat_ofNat]
  have hor : (n % 2 ^ 64) <<< k % 2 ^ 64 ||| d % 2 ^ 64 = ((n % 2 ^ 64) <<< k ||| d) % 2 ^ 64 :=
    (Nat.or_mod_two_pow ..).symm
  rw [hor, ← Nat.shiftLeft_add_eq_or_of_lt hd, Nat.shiftLeft_eq, Nat.add_mod, Nat.mod_mul_mod,
    ← Nat.add_mod, Nat.mul_comm]

theorem Radix.shiftIn_ofNat {radix : Radix} {c : Char} (n : ℕ) (h : radix.isDigit c = true) :
    radix.shiftIn (BitVec.ofNat 64 n) c = BitVec.ofNat 64 (radix.base * n + digitValue c) := by
  have hd := Radix.digit_lt h
  have hmask (m : ℕ) (hm : digitValue c < 2 ^ m) (hm64 : m ≤ 64) :
      BitVec.ofNat 64 (digitValue c) &&& BitVec.ofNat 64 (2 ^ m - 1) =
        BitVec.ofNat 64 (digitValue c) := by
    have hpow : 2 ^ m ≤ 2 ^ 64 := Nat.pow_le_pow_right (by decide) hm64
    have hpos : 0 < 2 ^ m := Nat.two_pow_pos m
    apply BitVec.eq_of_toNat_eq
    rw [BitVec.toNat_and, BitVec.toNat_ofNat, BitVec.toNat_ofNat, Nat.mod_eq_of_lt (hm.trans_le hpow),
      Nat.mod_eq_of_lt ((Nat.sub_lt hpos Nat.one_pos).trans_le hpow),
      Nat.and_two_pow_sub_one_of_lt_two_pow hm]
  cases radix with
  | binary =>
    show BitVec.ofNat 64 n <<< 1 ||| (BitVec.ofNat 64 (digitValue c) &&& BitVec.ofNat 64 (2 ^ 1 - 1)) = _
    rw [hmask 1 hd (by decide), shiftLeft_or_ofNat 1 n _ (by decide) hd]
    rfl
  | octal =>
    show BitVec.ofNat 64 n <<< 3 ||| (BitVec.ofNat 64 (digitValue c) &&& BitVec.ofNat 64 (2 ^ 3 - 1)) = _
    rw [hmask 3 hd (by decide), shiftLeft_or_ofNat 3 n _ (by decide) hd]
    rfl
  | decimal =>
    show 10 * BitVec.ofNat 64 n + BitVec.ofNat 64 (digitValue c) = _
    rw [BitVec.ofNat_add, BitVec.ofNat_mul]
    rfl
  | hexadecimal =>
    show BitVec.ofNat 64 n <<< 4 ||| (BitVec.ofNat 64 (digitValue c) &&& BitVec.ofNat 64 (2 ^ 4 - 1)) = _
    rw [hmask 4 hd (by decide), shiftLeft_or_ofNat 4 n _ (by decide) hd]
    rfl

theorem foldl_shiftIn {radix : Radix} {digits : List Char} (n : ℕ)
    (h : ∀ c ∈ digits, radix.isDigit c = true) :
    digits.foldl radix.shiftIn (BitVec.ofNat 64 n) =
      BitVec.ofNat 64 (digits.foldl (fun v c => radix.base * v + digitValue c) n) := by
  induction digits generalizing n with
  | nil => rfl
  | cons c digits ih =>
    rw [List.foldl_cons, List.foldl_cons, Radix.shiftIn_ofNat n (h c List.mem_cons_self)]
    exact ih _ fun d hd => h d (List.mem_cons_of_mem c hd)

end Values

section Scans

/-- White space and a sign are read as they are written, if what follows is neither. -/
theorem splitSign_text {before between rest : List Char} (sign : Sign) (hbefore : Blank before)
    (hbetween : Blank between)
    (hrest : ∀ c ∈ rest.head?, isSpace c = false ∧ c ≠ '-' ∧ c ≠ '+') :
    splitSign (before ++ (sign.text ++ (between ++ rest))) = (decide (sign = .minus), rest) := by
  have hskip : skipSpace (between ++ rest) = rest := by
    rw [skipSpace_blank hbetween]
    exact Stops.dropWhile_eq_self fun c hc => (hrest c hc).1
  unfold splitSign
  rw [skipSpace_blank hbefore]
  cases sign with
  | minus =>
    have hsign : skipSpace ('-' :: (between ++ rest)) = '-' :: (between ++ rest) :=
      skipSpace_cons (by decide) _
    rw [Sign.text, List.singleton_append, hsign]
    exact congrArg (Prod.mk true) hskip
  | plus =>
    have hsign : skipSpace ('+' :: (between ++ rest)) = '+' :: (between ++ rest) :=
      skipSpace_cons (by decide) _
    rw [Sign.text, List.singleton_append, hsign]
    exact congrArg (Prod.mk false) hskip
  | unsigned =>
    rw [Sign.text, List.nil_append, hskip]
    split
    · exact absurd rfl (hrest '-' rfl).2.1
    · exact absurd rfl (hrest '+' rfl).2.2
    · rfl

/-- Every text is white space, a sign, white space and what is left. -/
theorem exists_splitSign (s : List Char) : ∃ before sign between, Blank before ∧ Blank between ∧
    s = before ++ (Sign.text sign ++ (between ++ (splitSign s).2)) ∧
    Stops isSpace (splitSign s).2 := by
  obtain ⟨before, hbefore, hs⟩ := exists_blank s
  have hstops : Stops isSpace (skipSpace s) := stops_dropWhile s
  unfold splitSign
  generalize skipSpace s = tail at hs hstops ⊢
  split
  · rename_i rest
    obtain ⟨between, hbetween, hrest⟩ := exists_blank rest
    refine ⟨before, .minus, between, hbefore, hbetween, ?_, stops_dropWhile rest⟩
    dsimp only
    rw [← hrest, hs]
    rfl
  · rename_i rest
    obtain ⟨between, hbetween, hrest⟩ := exists_blank rest
    refine ⟨before, .plus, between, hbefore, hbetween, ?_, stops_dropWhile rest⟩
    dsimp only
    rw [← hrest, hs]
    rfl
  · exact ⟨before, .unsigned, [], hbefore, (fun _ h => nomatch h), hs, hstops⟩

theorem Radix.digit_not_space {radix : Radix} {c : Char} (h : radix.isDigit c = true) :
    isSpace c = false := by
  have hdigits : [' ', '\t', '\n', '\x0b', '\x0c', '\r'].any radix.isDigit = false := by
    cases radix with
    | binary => decide
    | octal => decide
    | decimal => decide
    | hexadecimal => decide
  exact isSpace_eq_false hdigits h

/-- White space ends the digits. -/
theorem Radix.stops_blank {radix : Radix} {w : List Char} (hw : Blank w) :
    Stops radix.isDigit w := by
  intro c hc
  by_contra hdigit
  have hspace := hw c (List.mem_of_mem_head? hc)
  rw [Radix.digit_not_space (Bool.of_not_eq_false hdigit)] at hspace
  exact Bool.false_ne_true hspace

namespace Numeral
variable (n : Numeral)

/-- What stands behind the mark of an octal number is not the letter of another mark. -/
theorem octal_tail (h : n.radix = .octal) :
    ∀ c ∈ (n.digits ++ n.after).head?, c ≠ 'x' ∧ c ≠ 'b' := by
  intro c hc
  have hletters (p : Char → Bool) (hx : p 'x' = false) (hb : p 'b' = false) (hp : p c = true) :
      c ≠ 'x' ∧ c ≠ 'b' := ⟨ne_of_class hp hx, ne_of_class hp hb⟩
  have hmem := List.mem_of_mem_head? hc
  rcases List.mem_append.mp hmem with hdigit | hspace
  · have hvalid := n.digits_valid c hdigit
    rw [h] at hvalid
    exact hletters isOctDigit (by decide) (by decide) hvalid
  · exact hletters isSpace (by decide) (by decide) (n.after_blank c hspace)

theorem body_head : ∀ c ∈ n.body.head?, isSpace c = false ∧ c ≠ '-' ∧ c ≠ '+' := by
  intro c hc
  have hzero : isSpace '0' = false ∧ '0' ≠ '-' ∧ '0' ≠ '+' := by decide
  unfold body at hc
  cases hradix : n.radix with
  | binary =>
    rw [hradix] at hc
    exact Option.some.inj hc ▸ hzero
  | octal =>
    rw [hradix] at hc
    exact Option.some.inj hc ▸ hzero
  | hexadecimal =>
    rw [hradix] at hc
    exact Option.some.inj hc ▸ hzero
  | decimal =>
    rw [hradix] at hc
    have hc : c ∈ (n.digits ++ n.after).head? := hc
    have hstart := n.decimal_start hradix c hc
    refine ⟨hstart.1, ?_⟩
    -- it is a digit, as white space would have been skipped
    rcases List.mem_append.mp (List.mem_of_mem_head? hc) with hdigit | hspace
    · have hvalid := n.digits_valid c hdigit
      rw [hradix] at hvalid
      exact ⟨ne_of_class hvalid (by decide), ne_of_class hvalid (by decide)⟩
    · have hblank := n.after_blank c hspace
      rw [hstart.1] at hblank
      exact absurd hblank Bool.false_ne_true

theorem splitSign_eq : splitSign n.text = (decide (n.sign = .minus), n.body) :=
  splitSign_text n.sign n.before_blank n.between_blank n.body_head

theorem takeWhile_eq : (n.digits ++ n.after).takeWhile n.radix.isDigit = n.digits :=
  takeWhile_run n.digits_valid (Radix.stops_blank n.after_blank)

theorem dropWhile_eq : (n.digits ++ n.after).dropWhile n.radix.isDigit = n.after :=
  dropWhile_run n.digits_valid (Radix.stops_blank n.after_blank)

/-- The three tests for a mark find the one that is written. -/
theorem match_body {α : Type*} (hexadecimal binary octal decimal : List Char → α) :
    (match n.body with
      | '0' :: 'x' :: digits => hexadecimal digits
      | '0' :: 'b' :: digits => binary digits
      | '0' :: digits => octal digits
      | digits => decimal digits) =
    match n.radix with
      | .hexadecimal => hexadecimal (n.digits ++ n.after)
      | .binary => binary (n.digits ++ n.after)
      | .octal => octal (n.digits ++ n.after)
      | .decimal => decimal (n.digits ++ n.after) := by
  unfold body
  cases hradix : n.radix with
  | binary => rfl
  | hexadecimal => rfl
  | octal =>
    have htail := n.octal_tail hradix
    generalize n.digits ++ n.after = tail at htail ⊢
    dsimp only [Radix.mark, List.cons_append, List.nil_append]
    split
    · exact absurd rfl (htail 'x' (congrArg List.head? (List.cons.inj ‹_›).2)).1
    · exact absurd rfl (htail 'b' (congrArg List.head? (List.cons.inj ‹_›).2)).2
    · exact congrArg octal (List.cons.inj ‹_›).2.symm
    · rename_i hoctal
      exact (hoctal tail rfl).elim
  | decimal =>
    have hstart := n.decimal_start hradix
    generalize n.digits ++ n.after = tail at hstart ⊢
    dsimp only [Radix.mark, List.nil_append]
    split
    · exact absurd rfl (hstart '0' rfl).2
    · exact absurd rfl (hstart '0' rfl).2
    · exact absurd rfl (hstart '0' rfl).2
    · rfl

theorem stringIsIntegerScan_eq : stringIsIntegerScan n.text = (n.radix.base, n.after) := by
  have hmatch := n.match_body (fun digits => (16, digits.dropWhile isXDigit))
    (fun digits => (2, digits.dropWhile isBinDigit)) (fun digits => (8, digits.dropWhile isOctDigit))
    fun digits => (10, digits.dropWhile ConvertBinaryC.isDigit)
  have hrest := n.dropWhile_eq
  unfold stringIsIntegerScan
  rw [n.splitSign_eq]
  refine hmatch.trans ?_
  cases hradix : n.radix with
  | binary =>
    rw [hradix] at hrest
    exact congrArg (Prod.mk 2) hrest
  | octal =>
    rw [hradix] at hrest
    exact congrArg (Prod.mk 8) hrest
  | decimal =>
    rw [hradix] at hrest
    exact congrArg (Prod.mk 10) hrest
  | hexadecimal =>
    rw [hradix] at hrest
    exact congrArg (Prod.mk 16) hrest

/-- The classifier gives the base of the number. -/
theorem stringIsInteger_text : stringIsInteger n.text = n.radix.base := by
  rw [stringIsInteger_eq, n.stringIsIntegerScan_eq, if_pos (blank_iff.mpr n.after_blank)]

/-- The converter reads the digits, modulo `2 ^ 64`. -/
theorem string2integerScan_eq : string2integerScan n.text =
    ((decide (n.sign = .minus), BitVec.ofInt 64 n.value), n.after) := by
  have hmatch := n.match_body (digitLoop .hexadecimal 0) (digitLoop .binary 0) (digitLoop .octal 0)
    (digitLoop .decimal 0)
  have hloop : digitLoop n.radix 0 (n.digits ++ n.after) =
      (BitVec.ofNat 64 (radixValue n.radix.base n.digits), n.after) := by
    rw [digitLoop_eq, n.takeWhile_eq, n.dropWhile_eq]
    exact congrArg (fun iv => (iv, n.after)) (foldl_shiftIn 0 n.digits_valid)
  have hdigits : (match n.radix with
      | .hexadecimal => digitLoop .hexadecimal 0 (n.digits ++ n.after)
      | .binary => digitLoop .binary 0 (n.digits ++ n.after)
      | .octal => digitLoop .octal 0 (n.digits ++ n.after)
      | .decimal => digitLoop .decimal 0 (n.digits ++ n.after)) =
      digitLoop n.radix 0 (n.digits ++ n.after) := by
    cases n.radix with
    | binary => rfl
    | octal => rfl
    | decimal => rfl
    | hexadecimal => rfl
  unfold string2integerScan
  rw [n.splitSign_eq]
  dsimp only
  rw [hmatch, hdigits, hloop]
  unfold value
  cases n.sign with
  | minus =>
    dsimp only [Sign.apply]
    rw [BitVec.ofInt_neg, BitVec.ofInt_natCast]
    rfl
  | plus =>
    dsimp only [Sign.apply]
    rw [BitVec.ofInt_natCast]
    rfl
  | unsigned =>
    dsimp only [Sign.apply]
    rw [BitVec.ofInt_natCast]
    rfl

end Numeral

/-- What the classifier accepts is a number. -/
theorem exists_numeral {s : List Char} (h : stringIsInteger s ≠ 0) : ∃ n : Numeral, n.text = s := by
  obtain ⟨before, sign, between, hbefore, hbetween, hs, hstops⟩ := exists_splitSign s
  have hafter : skipSpace (stringIsIntegerScan s).2 = [] := by
    by_contra hne
    rw [stringIsInteger_eq, if_neg hne] at h
    exact h rfl
  unfold stringIsIntegerScan at hafter
  have hnumeral (radix : Radix) (digits : List Char) (hrest : (splitSign s).2 = radix.mark ++ digits)
      (hblank : skipSpace (digits.dropWhile radix.isDigit) = [])
      (hstart : radix = .decimal → ∀ c ∈ digits.head?, isSpace c = false ∧ c ≠ '0') :
      ∃ n : Numeral, n.text = s := by
    have htext := List.takeWhile_append_dropWhile (p := radix.isDigit) (l := digits)
    rw [← htext] at hstart
    refine ⟨⟨before, sign, between, radix, digits.takeWhile radix.isDigit,
      digits.dropWhile radix.isDigit, hbefore, hbetween, blank_iff.mp hblank,
      fun _ hc => mem_takeWhile hc, hstart⟩, ?_⟩
    show before ++ (sign.text ++ (between ++ (radix.mark ++
      (digits.takeWhile radix.isDigit ++ digits.dropWhile radix.isDigit)))) = s
    rw [htext, ← hrest, ← hs]
  split at hafter
  · exact hnumeral .hexadecimal _ ‹_› hafter fun h => nomatch h
  · exact hnumeral .binary _ ‹_› hafter fun h => nomatch h
  · exact hnumeral .octal _ ‹_› hafter fun h => nomatch h
  · rename_i hoctal
    refine hnumeral .decimal _ rfl hafter ?_
    intro _ c hc
    refine ⟨hstops c hc, ?_⟩
    intro hzero
    obtain ⟨digits, hdigits⟩ := List.head?_eq_some_iff.mp hc
    exact hoctal digits (hzero ▸ hdigits)

end Scans

end ConvertBinaryC
