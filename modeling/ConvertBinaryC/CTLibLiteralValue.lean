import ConvertBinaryC.CTLibExpressionMeaning
import ConvertBinaryC.CTLibLiteral

/-! What character constants and string literals denote in C, and when the two scanners
of `ctlib/parser.y` agree with it. -/
namespace ConvertBinaryC

inductive SimpleEscape where
  | singleQuote
  | doubleQuote
  | questionMark
  | backslash
  | alert
  | backspace
  | formFeed
  | newline
  | carriageReturn
  | tab
  | verticalTab
  deriving DecidableEq, Repr

def SimpleEscape.letter : SimpleEscape → Char
  | .singleQuote => '\''
  | .doubleQuote => '"'
  | .questionMark => '?'
  | .backslash => '\\'
  | .alert => 'a'
  | .backspace => 'b'
  | .formFeed => 'f'
  | .newline => 'n'
  | .carriageReturn => 'r'
  | .tab => 't'
  | .verticalTab => 'v'

def SimpleEscape.code : SimpleEscape → ℕ
  | .singleQuote => 39
  | .doubleQuote => 34
  | .questionMark => 63
  | .backslash => 92
  | .alert => 7
  | .backspace => 8
  | .formFeed => 12
  | .newline => 10
  | .carriageReturn => 13
  | .tab => 9
  | .verticalTab => 11

/-- One way to write a character between two quotes. -/
inductive Spelling (quote : Char) where
  | plain (c : Char) (printable : ' ' ≤ c ∧ c ≤ '~') (ordinary : c ≠ quote ∧ c ≠ '\\')
  | simple (e : SimpleEscape)
  | octal (digits : List Char) (digit : ∀ c ∈ digits, isOctDigit c)
      (length : 1 ≤ digits.length ∧ digits.length ≤ 3)
  | hex (digits : List Char) (digit : ∀ c ∈ digits, isXDigit c) (length : 1 ≤ digits.length)

section Spelling
variable {quote : Char}

def Spelling.text : Spelling quote → List Char
  | .plain c _ _ => [c]
  | .simple e => ['\\', e.letter]
  | .octal digits _ _ => '\\' :: digits
  | .hex digits _ _ => '\\' :: 'x' :: digits

/-- The code of the character. -/
def Spelling.code : Spelling quote → ℕ
  | .plain c _ _ => c.toNat
  | .simple e => e.code
  | .octal digits _ _ => radixValue 8 digits
  | .hex digits _ _ => radixValue 16 digits

/-- An escape takes all the digits it can, so that `rest` cannot go on with one. -/
def Spelling.EndsBefore (rest : List Char) : Spelling quote → Prop
  | .octal digits _ _ => digits.length < 3 → ∀ c ∈ rest.head?, ¬isOctDigit c
  | .hex _ _ _ => ∀ c ∈ rest.head?, ¬isXDigit c
  | _ => True

def spelled (items : List (Spelling quote)) : List Char := (items.map Spelling.text).flatten

/-- No escape of the literal is followed by a character that would belong to it. -/
def Munched : List (Spelling quote) → Prop
  | [] => True
  | x :: items => x.EndsBefore (spelled items) ∧ Munched items

end Spelling

/-- What a literal starts with. -/
def widePrefix (wide : Bool) : List Char := if wide then ['L'] else []

/-- A character constant for one character of the ASCII range. -/
structure CharConstant where
  wide : Bool
  item : Spelling '\''
  small : item.code ≤ 127

def CharConstant.text (k : CharConstant) : List Char :=
  widePrefix k.wide ++ '\'' :: k.item.text ++ ['\'']

structure StringLiteral where
  wide : Bool
  items : List (Spelling '"')
  munched : Munched items

def StringLiteral.text (l : StringLiteral) : List Char :=
  widePrefix l.wide ++ '"' :: (spelled l.items ++ ['"'])

/-- Hexadecimal escapes are not recognized but for the letter that introduces them, and
octal ones only up to `\377`. The exceptions denote the character that stands after the
backslash. -/
def Spelling.Recognized {quote : Char} : Spelling quote → Prop
  | .octal digits _ _ => digits.head? ∈ [some '0', some '1', some '2', some '3'] ∨
      digits = ['6', '6']
  | .hex digits _ _ => radixValue 16 digits = 'x'.toNat
  | _ => True

/-- A hexadecimal escape of at most two digits. -/
def Spelling.ShortHex {quote : Char} : Spelling quote → Prop
  | .hex digits _ _ => digits.length ≤ 2
  | _ => True

/-- The characters that the literal denotes can be counted with an int, and the escapes
have at most two hexadecimal digits. -/
def StringLiteral.Countable (l : StringLiteral) : Prop :=
  (∀ x ∈ l.items, x.ShortHex) ∧ IsInt l.items.length

section Characters

theorem isOctDigit_bounds {c : Char} (h : isOctDigit c) : 48 ≤ c.toNat ∧ c.toNat ≤ 55 := by
  simp only [isOctDigit, isDigit, decide_eq_true_eq] at h
  obtain ⟨⟨hlow, hhigh⟩, h8, h9⟩ := h
  have hlow : 48 ≤ c.toNat := hlow
  have hhigh : c.toNat ≤ 57 := hhigh
  have hne8 : c.toNat ≠ 56 := fun heq => h8 (Char.ext (UInt32.toNat_inj.mp heq))
  have hne9 : c.toNat ≠ 57 := fun heq => h9 (Char.ext (UInt32.toNat_inj.mp heq))
  omega

theorem octal_digitValue {c : Char} (h : isOctDigit c) : digitValue c = c.toNat - 48 := by
  simp only [isOctDigit, decide_eq_true_eq] at h
  exact if_pos h.1

theorem octal_isXDigit {c : Char} (h : isOctDigit c) : isXDigit c := by
  simp only [isOctDigit, decide_eq_true_eq] at h
  exact decide_eq_true (Or.inl h.1)

/-- A character of which something holds that a given one lacks. -/
theorem ne_of_class {p : Char → Bool} {c d : Char} (h : p c) (hd : p d = false) : c ≠ d :=
  fun heq => Bool.noConfusion ((heq ▸ h).symm.trans hd)

theorem isXDigit_not_space {c : Char} (h : isXDigit c) : isSpace c = false := by
  have hspace (d : Char) (hd : isSpace d) (hx : isXDigit d = false) : c ≠ d := ne_of_class h hx
  apply decide_eq_false
  intro hc
  obtain heq | heq | heq | heq | heq | heq := hc <;>
    exact hspace _ (by decide) (by decide) heq

end Characters

section CharConstants

theorem strtolSign_digits {d : Char} {rest : List Char} (h : isXDigit d) :
    strtolSign (d :: rest) = (false, d :: rest) := by
  have hskip : skipSpace (d :: rest) = d :: rest := by
    rw [skipSpace, List.dropWhile_cons, isXDigit_not_space h]
    rfl
  have hminus : d ≠ '-' := ne_of_class h (by decide)
  have hplus : d ≠ '+' := ne_of_class h (by decide)
  rw [strtolSign, hskip]
  split
  · exact absurd (List.cons.inj ‹_›).1 hminus
  · exact absurd (List.cons.inj ‹_›).1 hplus
  · rfl

theorem takeWhile_digits {p : Char → Bool} {digits rest : List Char}
    (hdigits : ∀ c ∈ digits, p c) (hrest : ∀ c ∈ rest.head?, ¬p c) :
    (digits ++ rest).takeWhile p = digits := by
  rw [List.takeWhile_append_of_pos hdigits]
  cases rest with
  | nil => simp
  | cons c rest => simp [hrest c rfl]

theorem strtolPrefix_octal (rest : List Char) : strtolPrefix 8 rest = rest := by
  unfold strtolPrefix
  split
  · exact if_neg fun h => absurd h.1 (by decide)
  · rfl

/-- `strtol` reads octal digits up to the first other character. -/
theorem strtol_octal {d : Char} {digits rest : List Char}
    (hdigits : ∀ c ∈ d :: digits, isOctDigit c) (hrest : ∀ c ∈ rest.head?, ¬isOctDigit c)
    (hsmall : radixValue 8 (d :: digits) < 9223372036854775808) :
    strtol (d :: digits ++ rest) 8 = radixValue 8 (d :: digits) := by
  have hsign : strtolSign (d :: (digits ++ rest)) = (false, d :: (digits ++ rest)) :=
    strtolSign_digits (octal_isXDigit (hdigits d (by simp)))
  have htake := takeWhile_digits hdigits hrest
  have hdigit : isDigitOf 8 = isOctDigit := rfl
  have hmin : ((radixValue 8 (d :: digits) : ℕ) : ℤ) ≤ 9223372036854775807 := by omega
  rw [strtol, List.cons_append, hsign]
  simp only [strtolPrefix_octal, hdigit]
  rw [if_neg Bool.false_ne_true, ← List.cons_append, htake]
  exact min_eq_right hmin

theorem getCharValue_text (k : CharConstant) :
    getCharValue k.text = .ok (charBody (k.item.text ++ ['\''])) := by
  have hopen : k.text.dropWhile (· ≠ '\'') = '\'' :: (k.item.text ++ ['\'']) := by
    rw [CharConstant.text, widePrefix]
    cases k.wide <;> rfl
  rw [getCharValue, hopen]

/-- An octal escape from `\0` to `\377`. -/
theorem escapeValue_octal {d : Char} {digits : List Char}
    (hd : d = '0' ∨ d = '1' ∨ d = '2' ∨ d = '3') (hdigits : ∀ c ∈ d :: digits, isOctDigit c)
    (hsmall : radixValue 8 (d :: digits) ≤ 127) :
    escapeValue d (digits ++ ['\'']) = radixValue 8 (d :: digits) := by
  have hvalue : strtol (d :: digits ++ ['\'']) 8 = radixValue 8 (d :: digits) := by
    apply strtol_octal hdigits
    · simp [isOctDigit, isDigit]
    · omega
  rw [escapeValue, if_pos hd, ← List.cons_append, hvalue]
  exact i32_of_lt (by omega) (by omega)

/-- The other digits are taken for themselves. -/
theorem escapeValue_digit {d : Char} (hd : ¬(d = '0' ∨ d = '1' ∨ d = '2' ∨ d = '3'))
    (hdigit : isOctDigit d) (s : List Char) : escapeValue d s = d.toNat := by
  have hne (c : Char) (hc : isOctDigit c = false) : d ≠ c := ne_of_class hdigit hc
  rw [escapeValue, if_neg hd, if_neg (hne _ (by decide)), if_neg (hne _ (by decide)),
    if_neg (hne _ (by decide)), if_neg (hne _ (by decide)), if_neg (hne _ (by decide)),
    if_neg (hne _ (by decide)), if_neg (hne _ (by decide)), if_neg (hne _ (by decide))]

theorem eq_iff_toNat (c d : Char) {n : ℕ} (hd : d.toNat = n) :
    c = d ↔ c.toNat = n :=
  ⟨fun heq => heq ▸ hd, fun heq => Char.ext (UInt32.toNat_inj.mp (heq.trans hd.symm))⟩

/-- No other escape of this kind denotes its own first digit. -/
theorem radixValue_eq_first {d : Char} {digits : List Char}
    (hd : ¬(d = '0' ∨ d = '1' ∨ d = '2' ∨ d = '3')) (hdigits : ∀ c ∈ d :: digits, isOctDigit c)
    (hlength : digits.length ≤ 2) (hsmall : radixValue 8 (d :: digits) ≤ 127) :
    radixValue 8 (d :: digits) = d.toNat ↔ d :: digits = ['6', '6'] := by
  have hfirst : isOctDigit d := hdigits d (by simp)
  have hbounds := isOctDigit_bounds hfirst
  have hvalue := octal_digitValue hfirst
  have hsix := eq_iff_toNat d '6' (n := 54) rfl
  have hhigh : 52 ≤ d.toNat := by
    by_contra hlow
    have h0 := eq_iff_toNat d '0' (n := 48) rfl
    have h1 := eq_iff_toNat d '1' (n := 49) rfl
    have h2 := eq_iff_toNat d '2' (n := 50) rfl
    have h3 := eq_iff_toNat d '3' (n := 51) rfl
    exact hd (by rw [h0, h1, h2, h3]; omega)
  match digits, hlength with
  | [], _ =>
    have hone : radixValue 8 [d] = d.toNat - 48 := by simp [radixValue, hvalue]
    simp only [hone, List.cons.injEq, reduceCtorEq, and_false, iff_false]
    omega
  | [e], _ =>
    have he : isOctDigit e := hdigits e (by simp)
    have hebounds := isOctDigit_bounds he
    have hesix := eq_iff_toNat e '6' (n := 54) rfl
    have htwo : radixValue 8 [d, e] = 8 * (d.toNat - 48) + (e.toNat - 48) := by
      simp [radixValue, hvalue, octal_digitValue he]
    simp only [htwo, List.cons.injEq, and_true, hsix, hesix]
    omega
  | [e, f], _ =>
    have hthree : radixValue 8 [d, e, f] =
        8 * (8 * (d.toNat - 48) + digitValue e) + digitValue f := by
      simp [radixValue, hvalue]
    omega

/-- `get_char_value` reads an item right exactly if it recognizes the escape. -/
theorem charBody_text_iff (x : Spelling '\'') (hsmall : x.code ≤ 127) :
    charBody (x.text ++ ['\'']) = x.code ↔ x.Recognized := by
  cases x with
  | plain c hprintable hordinary =>
    have hbody : charBody (c :: ['\'']) = c.toNat := if_pos hordinary.2
    exact iff_of_true hbody trivial
  | simple e =>
    have hbody : charBody ['\\', e.letter, '\''] = e.code := by cases e <;> decide
    exact iff_of_true hbody trivial
  | octal digits hdigits hlength =>
    obtain ⟨d, digits, rfl⟩ := List.exists_cons_of_length_pos hlength.1
    have hbody : charBody ('\\' :: d :: (digits ++ ['\''])) = escapeValue d (digits ++ ['\'']) :=
      rfl
    have hfirst : isOctDigit d := hdigits d (by simp)
    have hhead : (d :: digits).head? ∈ [some '0', some '1', some '2', some '3'] ↔
        d = '0' ∨ d = '1' ∨ d = '2' ∨ d = '3' := by simp
    change charBody ('\\' :: d :: (digits ++ ['\''])) = (radixValue 8 (d :: digits) : ℤ) ↔
      _ ∈ _ ∨ _
    rw [hbody, hhead]
    by_cases hd : d = '0' ∨ d = '1' ∨ d = '2' ∨ d = '3'
    · exact iff_of_true (escapeValue_octal hd hdigits hsmall) (Or.inl hd)
    · have hrest : digits.length ≤ 2 := Nat.le_of_succ_le_succ hlength.2
      have hown := radixValue_eq_first hd hdigits hrest hsmall
      rw [escapeValue_digit hd hfirst, or_iff_right hd, ← hown]
      exact_mod_cast eq_comm
  | hex digits hdigits hlength =>
    -- the letter is returned, whatever the digits are
    have hbody : charBody ('\\' :: 'x' :: (digits ++ ['\''])) = 120 := rfl
    change charBody ('\\' :: 'x' :: (digits ++ ['\''])) = (radixValue 16 digits : ℤ) ↔
      radixValue 16 digits = 120
    rw [hbody]
    omega

end CharConstants

section StringLiterals

/-- What `string_size` counts for an item: a digit after the second one is a character of
its own. -/
def Spelling.counted {quote : Char} : Spelling quote → ℕ
  | .hex digits _ _ => 1 + (digits.length - 2)
  | _ => 1

/-- `n` steps of a counter that is an int. -/
def counting (size : ℤ) (n : ℕ) : Call ℤ :=
  if size + n ≤ 2147483647 then .ok (size + n) else .error .undefinedBehaviour

theorem skipDigits_text {p : Char → Bool} {digits rest : List Char} (n : ℕ)
    (hdigits : ∀ c ∈ digits, p c)
    (hrest : digits.length < n → ∀ c ∈ rest.head?, ¬p c) :
    skipDigits p n (digits ++ rest) = digits.drop n ++ rest := by
  induction digits generalizing n with
  | nil =>
    cases n with
    | zero => cases rest <;> rfl
    | succ n =>
      cases rest with
      | nil => rfl
      | cons c rest => exact if_neg (hrest (Nat.succ_pos n) c rfl)
  | cons c digits ih =>
    cases n with
    | zero => rfl
    | succ n =>
      have hc : p c := hdigits c (by simp)
      have hmore := ih n (fun d hd => hdigits d (by simp [hd]))
        (fun hlt => hrest (Nat.succ_lt_succ hlt))
      rw [List.cons_append, skipDigits, if_pos hc, hmore, List.drop_succ_cons]

/-- From here on the loop counts `n` characters. -/
def Counts (s : List Char) (n : ℕ) : Prop :=
  ∀ size : ℤ, 0 ≤ size → size ≤ 2147483647 → sizeLoop size s = counting size n

theorem counts_quote (rest : List Char) : Counts ('"' :: rest) 0 := by
  intro size hsize hmax
  have hfit : size + ((0 : ℕ) : ℤ) ≤ 2147483647 := by simpa using hmax
  rw [sizeLoop, if_pos rfl, counting, if_pos hfit, Nat.cast_zero, add_zero]

theorem int_counts {s : List Char} {n : ℕ} (hs : Counts s n) {size : ℤ} (hsize : 0 ≤ size) :
    (int (size + 1) >>= fun size => sizeLoop size s) = counting size (n + 1) := by
  have hsum : size + 1 + (n : ℤ) = size + ((n + 1 : ℕ) : ℤ) := by push_cast; ring
  by_cases hfit : size + 1 ≤ 2147483647
  · have hint : int (size + 1) = .ok (size + 1) := if_pos ⟨by omega, by omega⟩
    have hrun := hs (size + 1) (by omega) hfit
    rw [counting, hsum] at hrun
    rw [hint]
    exact hrun
  · have hint : int (size + 1) = .error .undefinedBehaviour := if_neg fun h => hfit (by omega)
    have hmore : ¬size + ((n + 1 : ℕ) : ℤ) ≤ 2147483647 := by omega
    rw [hint, counting, if_neg hmore]
    rfl

theorem counts_plain {c : Char} (hquote : c ≠ '"') (hslash : c ≠ '\\') {s : List Char} {n : ℕ}
    (hs : Counts s n) : Counts (c :: s) (n + 1) := by
  intro size hsize hmax
  rw [sizeLoop, if_neg hquote, if_pos hslash]
  exact int_counts hs hsize

theorem counts_escape {s r : List Char} (hskip : skipEscape s = some r) {n : ℕ}
    (hr : Counts r n) : Counts ('\\' :: s) (n + 1) := by
  intro size hsize hmax
  rw [sizeLoop, if_neg (by decide), if_neg (by decide)]
  split
  · next hnone => exact absurd (hskip.symm.trans hnone) (by simp)
  · next r' hsome =>
    have hsame : r = r' := Option.some.inj (hskip.symm.trans hsome)
    exact int_counts (hsame ▸ hr) hsize

/-- Digits that no escape has taken are counted one by one. -/
theorem counts_digits {digits : List Char} (hdigits : ∀ c ∈ digits, isXDigit c)
    {s : List Char} {n : ℕ} (hs : Counts s n) : Counts (digits ++ s) (digits.length + n) := by
  induction digits with
  | nil => simpa using hs
  | cons c digits ih =>
    have hc : isXDigit c := hdigits c (by simp)
    have hmore := ih fun d hd => hdigits d (by simp [hd])
    have hlength : (c :: digits).length + n = digits.length + n + 1 := by
      rw [List.length_cons]; omega
    rw [hlength]
    exact counts_plain (ne_of_class hc (by decide)) (ne_of_class hc (by decide)) hmore

theorem Spelling.EndsBefore.append {quote : Char} {x : Spelling quote} {s : List Char}
    (h : x.EndsBefore s) (rest : List Char) : x.EndsBefore (s ++ '"' :: rest) := by
  have hhead (p : Char → Bool) (hp : p '"' = false) (hs : ∀ c ∈ s.head?, ¬p c) :
      ∀ c ∈ (s ++ '"' :: rest).head?, ¬p c := by
    cases s with
    | nil => simpa using hp
    | cons d s => simpa using hs
  cases x with
  | plain c hprintable hordinary => trivial
  | simple e => trivial
  | octal digits hdigits hlength =>
    intro hshort
    exact hhead isOctDigit (by decide) (h hshort)
  | hex digits hdigits hlength => exact hhead isXDigit (by decide) h

/-- One item and what comes after it. -/
theorem counts_text (x : Spelling '"') {s : List Char} (hends : x.EndsBefore s) {n : ℕ}
    (hs : Counts s n) : Counts (x.text ++ s) (x.counted + n) := by
  have hone : 1 + n = n + 1 := Nat.add_comm 1 n
  cases x with
  | plain c hprintable hordinary =>
    change Counts _ (1 + n)
    rw [hone]
    exact counts_plain hordinary.1 hordinary.2 hs
  | simple e =>
    have hskip : skipEscape (e.letter :: s) = some s := by cases e <;> rfl
    change Counts _ (1 + n)
    rw [hone]
    exact counts_escape hskip hs
  | octal digits hdigits hlength =>
    obtain ⟨d, digits, rfl⟩ := List.exists_cons_of_length_pos hlength.1
    have hd : isOctDigit d := hdigits d (by simp)
    have hnotx : d ≠ 'x' := ne_of_class hd (by decide)
    have hrest : digits.length ≤ 2 := Nat.le_of_succ_le_succ hlength.2
    have hdigitsSkip : skipDigits isOctDigit 2 (digits ++ s) = s := by
      have htext : skipDigits isOctDigit 2 (digits ++ s) = digits.drop 2 ++ s :=
        skipDigits_text 2 (fun c hc => hdigits c (by simp [hc]))
          (fun hlt => hends (Nat.succ_lt_succ hlt))
      rwa [List.drop_eq_nil_of_le hrest, List.nil_append] at htext
    have hskip : skipEscape (d :: (digits ++ s)) = some s := by
      rw [skipEscape, if_neg hnotx, if_pos hd, hdigitsSkip]
    change Counts _ (1 + n)
    rw [hone]
    exact counts_escape hskip hs
  | hex digits hdigits hlength =>
    -- the loop leaves the digits after the second one to the next rounds
    have hskip : skipEscape ('x' :: (digits ++ s)) = some (digits.drop 2 ++ s) := by
      have htext : skipDigits isXDigit 2 (digits ++ s) = digits.drop 2 ++ s :=
        skipDigits_text 2 hdigits (fun _ => hends)
      rw [skipEscape, if_pos rfl, htext]
    have hmore : Counts (digits.drop 2 ++ s) ((digits.drop 2).length + n) :=
      counts_digits (fun c hc => hdigits c (List.mem_of_mem_drop hc)) hs
    have hcount : 1 + (digits.length - 2) + n = (digits.drop 2).length + n + 1 := by
      rw [List.length_drop]; omega
    rw [Spelling.counted, hcount]
    exact counts_escape hskip hmore

def StringLiteral.counted (l : StringLiteral) : ℕ := (l.items.map Spelling.counted).sum

theorem counts_spelled {items : List (Spelling '"')} (h : Munched items) (rest : List Char) :
    Counts (spelled items ++ '"' :: rest) (items.map Spelling.counted).sum := by
  induction items with
  | nil => exact counts_quote rest
  | cons x items ih =>
    have hmore := counts_text x (h.1.append rest) (ih h.2)
    rwa [← List.append_assoc] at hmore

theorem stringSize_text (l : StringLiteral) : stringSize l.text = counting 0 l.counted := by
  have hopen : l.text.dropWhile (· ≠ '"') = '"' :: (spelled l.items ++ ['"']) := by
    rw [StringLiteral.text, widePrefix]
    cases l.wide <;> rfl
  rw [stringSize, hopen]
  exact counts_spelled l.munched [] 0 (le_refl 0) (by decide)

theorem Spelling.counted_pos {quote : Char} (x : Spelling quote) : 1 ≤ x.counted := by
  cases x with
  | hex digits hdigits hlength => exact Nat.le_add_right 1 _
  | _ => exact le_refl 1

theorem Spelling.counted_eq_one_iff {quote : Char} (x : Spelling quote) :
    x.counted = 1 ↔ x.ShortHex := by
  cases x with
  | hex digits hdigits hlength =>
    change 1 + (digits.length - 2) = 1 ↔ digits.length ≤ 2
    omega
  | _ => exact iff_of_true rfl trivial

/-- Counts of at least one add up to the number of the items only if each is one. -/
theorem counted_sum {quote : Char} (items : List (Spelling quote)) :
    items.length ≤ (items.map Spelling.counted).sum ∧
      ((items.map Spelling.counted).sum = items.length ↔ ∀ x ∈ items, x.ShortHex) := by
  induction items with
  | nil => simp
  | cons x items ih =>
    have hpos := x.counted_pos
    have hone := x.counted_eq_one_iff
    have hsum : ((x :: items).map Spelling.counted).sum =
        x.counted + (items.map Spelling.counted).sum := by simp
    refine ⟨?_, ?_⟩
    · rw [hsum, List.length_cons]; omega
    · rw [hsum, List.length_cons, List.forall_mem_cons, ← hone, ← ih.2]
      omega

theorem StringLiteral.counted_eq_iff (l : StringLiteral) :
    l.counted = l.items.length ∧ (l.counted : ℤ) ≤ 2147483647 ↔ l.Countable := by
  have hsum := (counted_sum l.items).2
  unfold StringLiteral.Countable IsInt StringLiteral.counted
  rw [← hsum]
  omega

end StringLiterals

section SizeofLiterals

theorem literalToken_ok_iff (l : StringLiteral) (v : Value) :
    literalToken l.text = .ok v ↔ (l.counted : ℤ) ≤ 2147483647 ∧ v = ⟨l.counted, false, false⟩ := by
  rw [literalToken, stringSize_text, counting, zero_add]
  split_ifs with hfit
  · exact ⟨fun h => ⟨hfit, (Except.ok.inj h).symm⟩, fun h => congrArg _ h.2.symm⟩
  · exact ⟨fun h => (nomatch h), fun h => absurd h.1 hfit⟩

/-- A value without flags. -/
def plainValue (iv : ℤ) : Value := ⟨iv, false, false⟩

theorem addLiteral_ok_iff (l : StringLiteral) (a : ℤ) (v : Value) :
    addLiteral (plainValue a) l.text = .ok v ↔
      (l.counted : ℤ) ≤ 2147483647 ∧ IsLong (a + l.counted) ∧ v = plainValue (a + l.counted) := by
  rw [addLiteral, FoldRules.bind_ok_iff]
  simp only [literalToken_ok_iff, binaryOp_ok_iff]
  constructor
  · rintro ⟨w, ⟨hfit, rfl⟩, hdef, rfl⟩
    exact ⟨hfit, hdef, rfl⟩
  · rintro ⟨hfit, hdef, rfl⟩
    exact ⟨_, ⟨hfit, rfl⟩, hdef, rfl⟩

/-- `BINARY_OP` adds up what is counted for the literals, as long as the sum is a long. -/
theorem addLiterals_ok_iff (ls : List StringLiteral) {a : ℤ} (ha : 0 ≤ a) (hlong : IsLong a)
    (r : Value) :
    (ls.map StringLiteral.text).foldlM addLiteral (plainValue a) = .ok r ↔
      (∀ l ∈ ls, (l.counted : ℤ) ≤ 2147483647) ∧
        IsLong (a + (ls.map StringLiteral.counted).sum) ∧
        r = plainValue (a + (ls.map StringLiteral.counted).sum) := by
  induction ls generalizing a with
  | nil => simp [hlong, eq_comm, pure, Except.pure]
  | cons l ls ih =>
    have hsum : a + (((l :: ls).map StringLiteral.counted).sum : ℕ) =
        a + l.counted + (ls.map StringLiteral.counted).sum := by simp [add_assoc]
    have hnext : 0 ≤ a + (l.counted : ℤ) := by omega
    rw [List.map_cons, List.foldlM_cons, FoldRules.bind_ok_iff, List.forall_mem_cons, hsum]
    simp only [addLiteral_ok_iff]
    constructor
    · rintro ⟨v, ⟨hfit, hdef, rfl⟩, hrest⟩
      have hmore := (ih hnext hdef).mp hrest
      exact ⟨⟨hfit, hmore.1⟩, hmore.2⟩
    · rintro ⟨⟨hfit, hall⟩, htotal, hr⟩
      -- a partial sum is not above the whole one
      have hdef : IsLong (a + l.counted) := ⟨by omega, by unfold IsLong at htotal; omega⟩
      exact ⟨_, ⟨hfit, hdef, rfl⟩, (ih hnext hdef).mpr ⟨hall, htotal, hr⟩⟩

theorem stringLiteralList_ok_iff (l : StringLiteral) (ls : List StringLiteral) (v : Value) :
    stringLiteralList l.text (ls.map StringLiteral.text) = .ok v ↔
      (∀ x ∈ l :: ls, (x.counted : ℤ) ≤ 2147483647) ∧
        IsLong (((l :: ls).map StringLiteral.counted).sum : ℕ) ∧
        v = plainValue (((l :: ls).map StringLiteral.counted).sum : ℕ) := by
  have hcons : ((((l :: ls).map StringLiteral.counted).sum : ℕ) : ℤ) =
      l.counted + (ls.map StringLiteral.counted).sum := by simp
  have hlong (hfit : (l.counted : ℤ) ≤ 2147483647) : IsLong l.counted := by
    unfold IsLong; omega
  have hmore (hfit : (l.counted : ℤ) ≤ 2147483647) :=
    addLiterals_ok_iff ls (Int.natCast_nonneg l.counted) (hlong hfit) v
  rw [stringLiteralList, FoldRules.bind_ok_iff, List.forall_mem_cons, hcons]
  simp only [literalToken_ok_iff]
  constructor
  · rintro ⟨w, ⟨hfit, rfl⟩, hrest⟩
    have hsum := (hmore hfit).mp hrest
    exact ⟨⟨hfit, hsum.1⟩, hsum.2⟩
  · rintro ⟨⟨hfit, hall⟩, hsum⟩
    exact ⟨_, ⟨hfit, rfl⟩, (hmore hfit).mpr ⟨hall, hsum⟩⟩

/-- What `sizeof` computes for adjacent literals. -/
theorem sizeofLiterals_ok_iff (l : StringLiteral) (ls : List StringLiteral) (r : Value) :
    sizeofLiterals l.text (ls.map StringLiteral.text) = .ok r ↔
      (∀ x ∈ l :: ls, (x.counted : ℤ) ≤ 2147483647) ∧
        IsLong ((((l :: ls).map StringLiteral.counted).sum : ℕ) + 1) ∧
        r = plainValue ((((l :: ls).map StringLiteral.counted).sum : ℕ) + 1) := by
  rw [sizeofLiterals, FoldRules.bind_ok_iff]
  simp only [stringLiteralList_ok_iff, FoldRules.bind_ok_iff, long_ok_iff, Except.ok.injEq]
  constructor
  · rintro ⟨v, ⟨hall, hsum, rfl⟩, iv, ⟨hlong, rfl⟩, rfl⟩
    exact ⟨hall, hlong, rfl⟩
  · rintro ⟨hall, hlong, rfl⟩
    have hsum : IsLong (((l :: ls).map StringLiteral.counted).sum : ℕ) := by
      unfold IsLong at hlong ⊢; omega
    exact ⟨_, ⟨hall, hsum, rfl⟩, _, ⟨hlong, rfl⟩, rfl⟩

/-- Counts that are never too small add up to the number of characters only if each of
them is right. -/
theorem counted_total (ls : List StringLiteral) :
    (ls.map fun l => l.items.length).sum ≤ (ls.map StringLiteral.counted).sum ∧
      ((ls.map StringLiteral.counted).sum = (ls.map fun l => l.items.length).sum ↔
        ∀ l ∈ ls, ∀ x ∈ l.items, x.ShortHex) := by
  induction ls with
  | nil => simp
  | cons l ls ih =>
    have hcounted : l.items.length ≤ l.counted ∧
        (l.counted = l.items.length ↔ ∀ x ∈ l.items, x.ShortHex) := counted_sum l.items
    simp only [List.map_cons, List.sum_cons, List.forall_mem_cons, ← ih.2, ← hcounted.2]
    omega

end SizeofLiterals

/-- The scanners for literals give what C says exactly for the escapes that they
recognize: `get_char_value` returns the code of the character, `string_size` the number of
characters, and `sizeof` of adjacent literals the sum of these numbers and one. -/
theorem literals_exact_iff (k : CharConstant) (l : StringLiteral) (ls : List StringLiteral) :
    (getCharValue k.text = .ok (k.item.code : ℤ) ↔ k.item.Recognized) ∧
    (stringSize l.text = .ok (l.items.length : ℤ) ↔ l.Countable) ∧
    (sizeofLiterals l.text (ls.map StringLiteral.text) =
        .ok (plainValue (((l :: ls).map fun x => x.items.length).sum + 1)) ↔
      (∀ x ∈ l :: ls, x.Countable) ∧
        IsLong (((l :: ls).map fun x => x.items.length).sum + 1)) := by
  refine ⟨?_, ?_, ?_⟩
  · rw [getCharValue_text, Except.ok.injEq]
    exact charBody_text_iff k.item k.small
  · rw [stringSize_text, counting, zero_add, ← l.counted_eq_iff]
    split_ifs with hfit
    · simp [hfit]
    · simp [hfit]
  · rw [sizeofLiterals_ok_iff]
    have htotal := (counted_total (l :: ls)).2
    have hsame (h : ∀ x ∈ l :: ls, ∀ y ∈ x.items, y.ShortHex) (x : StringLiteral)
        (hx : x ∈ l :: ls) : x.counted = x.items.length := (counted_sum x.items).2.mpr (h x hx)
    constructor
    · rintro ⟨hall, hlong, hvalue⟩
      have hiv := congrArg Value.iv hvalue
      simp only [plainValue] at hiv
      have hsum : ((l :: ls).map StringLiteral.counted).sum =
          ((l :: ls).map fun x => x.items.length).sum := by omega
      have hshort := htotal.mp hsum
      rw [hsum] at hlong
      exact ⟨fun x hx => x.counted_eq_iff.mp ⟨hsame hshort x hx, hall x hx⟩, by
        exact_mod_cast hlong⟩
    · rintro ⟨hall, hlong⟩
      have hfit (x : StringLiteral) (hx : x ∈ l :: ls) := x.counted_eq_iff.mpr (hall x hx)
      have hsum := htotal.mpr fun x hx => (hall x hx).1
      refine ⟨fun x hx => (hfit x hx).2, ?_, ?_⟩
      · rw [hsum]; exact_mod_cast hlong
      · rw [hsum]

/-- The constant `'\x41'`. -/
def hexConstant : CharConstant where
  wide := false
  item := .hex ['4', '1'] (List.all_eq_true.mp rfl) (by decide)
  small := by decide

/-- The literal `"\x0041"`. -/
def hexLiteral : StringLiteral where
  wide := false
  items := [.hex ['0', '0', '4', '1'] (List.all_eq_true.mp rfl) (by decide)]
  munched := ⟨fun _ hc => (nomatch hc), trivial⟩

theorem literals_not_exact :
    hexConstant.item.code = 65 ∧ getCharValue hexConstant.text = .ok 120 ∧
    hexLiteral.items.length = 1 ∧ stringSize hexLiteral.text = .ok 3 ∧
    sizeofLiterals hexLiteral.text [] = .ok (plainValue 4) := by
  decide +kernel

end ConvertBinaryC
