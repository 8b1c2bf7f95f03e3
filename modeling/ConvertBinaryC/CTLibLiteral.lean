import ConvertBinaryC.CTLibExpression
import ConvertBinaryC.CTLibIntegerText

/-! Character constants and string literals in the parser (`ctlib/parser.y`). A token's
name is its list of characters without the terminator, all of them ASCII. -/
namespace ConvertBinaryC

def isDigitOf (base : ℕ) (c : Char) : Bool := if base = 8 then isOctDigit c else isXDigit c

def radixValue (base : ℕ) (digits : List Char) : ℕ :=
  digits.foldl (fun v c => base * v + digitValue c) 0

/-- The sign that `strtol` reads, and the text after it. -/
def strtolSign (s : List Char) : Bool × List Char :=
  match skipSpace s with
  | '-' :: rest => (true, rest)
  | '+' :: rest => (false, rest)
  | rest => (false, rest)

/-- The prefix `0x` that `strtol` skips if the base is sixteen and a digit follows. -/
def strtolPrefix (base : ℕ) (rest : List Char) : List Char :=
  match rest with
  | '0' :: x :: d :: digits =>
    if base = 16 ∧ (x = 'x' ∨ x = 'X') ∧ isXDigit d then d :: digits else rest
  | _ => rest

/-- `strtol` for the bases eight and sixteen. It saturates at the limits of a long. -/
def strtol (s : List Char) (base : ℕ) : ℤ :=
  let (neg, rest) := strtolSign s
  let digits := strtolPrefix base rest
  let v : ℤ := radixValue base (digits.takeWhile (isDigitOf base))
  if neg then max (-9223372036854775808) (-v) else min 9223372036854775807 v

/-- The cases of `get_char_value` after a backslash. -/
def escapeValue (c : Char) (s : List Char) : ℤ :=
  if c = '0' ∨ c = '1' ∨ c = '2' ∨ c = '3' then i32 (strtol (c :: s) 8)
  else if c = 'a' then 7
  else if c = 'b' then 8
  else if c = 'f' then 12
  else if c = 'h' then i32 (strtol s 16)
  else if c = 'n' then 10
  else if c = 'r' then 13
  else if c = 't' then 9
  else if c = 'v' then 11
  else c.toNat

/-- `get_char_value` after the opening quote. -/
def charBody : List Char → ℤ
  | [] => 0
  | c :: s =>
    if c ≠ '\\' then c.toNat
    else
      match s with
      | [] => 0
      | c :: s => escapeValue c s

/-- `get_char_value` -/
def getCharValue (s : List Char) : Call ℤ :=
  match s.dropWhile (· ≠ '\'') with
  | [] => .error .undefinedBehaviour
  | _ :: s => .ok (charBody s)

/-- The digit loops of `string_size`, at the character after the one they start at:
`n` more digits at most. -/
def skipDigits (p : Char → Bool) : ℕ → List Char → List Char
  | n + 1, c :: s => if p c then skipDigits p n s else c :: s
  | _, s => s

theorem skipDigits_length (p : Char → Bool) (n : ℕ) (s : List Char) :
    (skipDigits p n s).length ≤ s.length := by
  induction s generalizing n with
  | nil => cases n <;> exact le_refl _
  | cons c s ih =>
    cases n with
    | zero => exact le_refl _
    | succ n =>
      rw [skipDigits]
      split_ifs
      · exact (ih n).trans (Nat.le_succ _)
      · exact le_refl _

/-- The body of the loop of `string_size` at a backslash. A backslash right before the
terminator makes it step over the terminator. -/
def skipEscape : List Char → Option (List Char)
  | [] => none
  | c :: s =>
    if c = 'x' then some (skipDigits isXDigit 2 s)
    else if isOctDigit c then some (skipDigits isOctDigit 2 s)
    else some s

theorem skipEscape_length {s r : List Char} (h : skipEscape s = some r) :
    r.length < s.length := by
  cases s with
  | nil => exact absurd h (by simp [skipEscape])
  | cons c s =>
    rw [skipEscape] at h
    split_ifs at h
    · exact Option.some.inj h ▸ Nat.lt_succ_of_le (skipDigits_length _ _ _)
    · exact Option.some.inj h ▸ Nat.lt_succ_of_le (skipDigits_length _ _ _)
    · exact Option.some.inj h ▸ Nat.lt_succ_self _

/-- The loop of `string_size` after the opening quote. -/
def sizeLoop (size : ℤ) (s : List Char) : Call ℤ :=
  match s with
  | [] => .ok size
  | c :: s =>
    if c = '"' then .ok size
    else if c ≠ '\\' then do
      let size ← int (size + 1)
      sizeLoop size s
    else
      match h : skipEscape s with
      | none => .error .undefinedBehaviour
      | some r => do
        let size ← int (size + 1)
        sizeLoop size r
termination_by s.length
decreasing_by
  · exact Nat.lt_succ_self _
  · exact (skipEscape_length h).trans (Nat.lt_succ_self _)

/-- `string_size` -/
def stringSize (s : List Char) : Call ℤ :=
  match s.dropWhile (· ≠ '"') with
  | [] => .error .undefinedBehaviour
  | _ :: s => sizeLoop 0 s

/-- The value of a `STRING_LITERAL` token. -/
def literalToken (name : List Char) : Call Value := do
  let iv ← stringSize name
  .ok ⟨iv, false, false⟩

/-- The action of `string_literal_list` at one more literal. -/
def addLiteral (v : Value) (name : List Char) : Call Value := do
  let w ← literalToken name
  binaryOp .add v w

/-- `string_literal_list` -/
def stringLiteralList (name : List Char) (names : List (List Char)) : Call Value := do
  let v ← literalToken name
  names.foldlM addLiteral v

/-- `sizeof` of adjacent string literals: `primary_expression` counts the terminator, and
`unary_expression` passes the value on. -/
def sizeofLiterals (name : List Char) (names : List (List Char)) : Call Value := do
  let v ← stringLiteralList name names
  let iv ← long (v.iv + 1)
  .ok { v with iv := iv }

end ConvertBinaryC
