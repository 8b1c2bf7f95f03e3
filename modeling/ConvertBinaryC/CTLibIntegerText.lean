import ConvertBinaryC.CTLibMachine

/-! The conversions between integers and text of `ctlib/byteorder.c` (native 64
bit integers). A C string is its list of characters, without the terminator. -/
namespace ConvertBinaryC

def isSpace (c : Char) : Bool :=
  c = ' ' ∨ c = '\t' ∨ c = '\n' ∨ c = '\x0b' ∨ c = '\x0c' ∨ c = '\r'

def isDigit (c : Char) : Bool := '0' ≤ c ∧ c ≤ '9'

def isUpper (c : Char) : Bool := 'A' ≤ c ∧ c ≤ 'Z'

def isXDigit (c : Char) : Bool := isDigit c ∨ ('a' ≤ c ∧ c ≤ 'f') ∨ ('A' ≤ c ∧ c ≤ 'F')

def isOctDigit (c : Char) : Bool := isDigit c ∧ c ≠ '8' ∧ c ≠ '9'

def isBinDigit (c : Char) : Bool := c = '0' ∨ c = '1'

def skipSpace (s : List Char) : List Char := s.dropWhile isSpace

/-- The value of a digit that `isXDigit` accepts. -/
def digitValue (c : Char) : ℕ :=
  if isDigit c then c.toNat - '0'.toNat
  else if isUpper c then c.toNat - ('A'.toNat - 10)
  else c.toNat - ('a'.toNat - 10)

/-- Leading white space and the sign, and the text after them. -/
def splitSign (s : List Char) : Bool × List Char :=
  match skipSpace s with
  | '-' :: rest => (true, skipSpace rest)
  | '+' :: rest => (false, skipSpace rest)
  | rest => (false, rest)

/-- The digit loops of `string2integer`: each digit is shifted in, except that the
decimal loop multiplies. -/
def shiftDigits (bits : ℕ) (mask : BitVec 64) (s : List Char) : BitVec 64 :=
  s.foldl (fun iv c => (iv <<< bits) ||| (BitVec.ofNat 64 (digitValue c) &&& mask)) 0

def decimalDigits (s : List Char) : BitVec 64 :=
  s.foldl (fun iv c => 10 * iv + BitVec.ofNat 64 (digitValue c)) 0

/-- `string2integer`: the sign and the 64 bit word. -/
def string2integer (s : List Char) : Bool × BitVec 64 :=
  let (sign, rest) := splitSign s
  let iv := match rest with
    | '0' :: 'x' :: digits => shiftDigits 4 0xF (digits.takeWhile isXDigit)
    | '0' :: 'b' :: digits => shiftDigits 1 0x1 (digits.takeWhile isBinDigit)
    | '0' :: digits => shiftDigits 3 0x7 (digits.takeWhile isOctDigit)
    | digits => decimalDigits (digits.takeWhile isDigit)
  (sign, if sign then -iv else iv)

/-- `string_is_integer`: the base, or zero when the string holds no number. -/
def stringIsInteger (s : List Char) : ℕ :=
  let (rval, rest) := match (splitSign s).2 with
    | '0' :: 'x' :: digits => (16, digits.dropWhile isXDigit)
    | '0' :: 'b' :: digits => (2, digits.dropWhile isBinDigit)
    | '0' :: digits => (8, digits.dropWhile isOctDigit)
    | digits => (10, digits.dropWhile isDigit)
  if skipSpace rest = [] then rval else 0

/-- The loop over the digits of `integer2string`. The stack has twenty entries, and the head of the
list is its top. -/
def pushDigits : ℕ → ℕ → List ℕ → Call (List ℕ)
  | 0, _, _ => .error .outOfFuel
  | turns + 1, val, stack =>
    if val = 0 then .ok stack
    else if 20 ≤ stack.length then .error .undefinedBehaviour
    else pushDigits turns (val / 10) (val % 10 :: stack)

/-- A negative number is negated as a signed one before it is unsigned. Every turn of the loop takes
a digit, so it ends within as many turns as the stack has entries, and one more. -/
def integer2string (value : BitVec 64) (sign : Bool) : Call (List Char) := do
  let neg := sign && decide (value.toInt < 0)
  let val ← (if neg then do
      let val ← long (-value.toInt)
      .ok (u64 val).toNat
    else .ok value.toNat)
  let stack ← pushDigits 21 val []
  let digits := stack.map fun d => Char.ofNat ('0'.toNat + d)
  .ok ((if neg then ['-'] else []) ++ (if digits = [] then ['0'] else digits))

end ConvertBinaryC
