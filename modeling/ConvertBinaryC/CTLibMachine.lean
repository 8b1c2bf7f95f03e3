import ConvertBinaryC.FoldRules

/-! What the C functions of this development compute with: the ways in which a
call can fail to return, and the conversions between C integer types that the
source performs when it stores a value. -/
namespace ConvertBinaryC

/-- Why a call does not return normally. `croak` is a Perl exception and can be
caught; all the others end the process or never end. -/
inductive Fault where
  | croak (msg : String)
  | fatal (msg : String)
  | divideByZero
  | undefinedBehaviour
  | divergence
  | outOfFuel
  deriving DecidableEq, Repr

/-- The results of calls, in the exception monad over `Fault`. -/
abbrev Call := Except Fault

instance {α : Type} [DecidableEq α] : DecidableEq (Call α)
  | .ok a, .ok b => decidable_of_iff (a = b) (by simp)
  | .error a, .error b => decidable_of_iff (a = b) (by simp)
  | .ok _, .error _ => .isFalse (by simp)
  | .error _, .ok _ => .isFalse (by simp)

theorem toOption_some {α : Type} {c : Call α} {a : α} (h : c.toOption = some a) : c = .ok a := by
  cases c with
  | ok b => exact congrArg Except.ok (Option.some.inj h)
  | error e => exact nomatch h

theorem ok_of_toOption {α β : Type} {c : Call α} {f : α → β} {b : β}
    (h : c.toOption.map f = some b) : ∃ a, c = .ok a ∧ f a = b := by
  obtain ⟨a, ha, hb⟩ := Option.map_eq_some_iff.mp h
  exact ⟨a, toOption_some ha, hb⟩

/-- Conversion to `unsigned char`. -/
def u8 (x : ℤ) : ℤ := x % 256

/-- Conversion to a 16 bit unsigned bit-field. -/
def u16 (x : ℤ) : ℤ := x % 65536

/-- Conversion to `unsigned`. -/
def u32 (x : ℤ) : ℤ := x % 4294967296

/-- Conversion to `int`. -/
def i32 (x : ℤ) : ℤ := Int.bmod x 4294967296

/-- Conversion to the 29 bit signed bit-field that holds a declarator's offset. -/
def s29 (x : ℤ) : ℤ := Int.bmod x 536870912

/-- Conversion to `unsigned long`. -/
def u64 (x : ℤ) : ℤ := x % 18446744073709551616

/-- Conversion to `long`. -/
def i64 (x : ℤ) : ℤ := Int.bmod x 18446744073709551616

/-- The values of a long. -/
def IsLong (x : ℤ) : Prop := -9223372036854775808 ≤ x ∧ x < 9223372036854775808

instance : DecidablePred IsLong := fun _ => inferInstanceAs (Decidable (_ ∧ _))

/-- The result of a signed operation, which C defines only if it is a long. -/
def long (x : ℤ) : Call ℤ := if IsLong x then .ok x else .error .undefinedBehaviour

/-- The same for an operation on ints. -/
def int (x : ℤ) : Call ℤ :=
  if -2147483648 ≤ x ∧ x < 2147483648 then .ok x else .error .undefinedBehaviour

/-- The values of an int. -/
def IsInt (x : ℤ) : Prop := -2147483648 ≤ x ∧ x < 2147483648

instance : DecidablePred IsInt := fun _ => inferInstanceAs (Decidable (_ ∧ _))

theorem int_ok_iff {x r : ℤ} : int x = .ok r ↔ IsInt x ∧ r = x := by
  unfold int IsInt
  split_ifs with h
  · exact ⟨fun heq => ⟨h, (Except.ok.inj heq).symm⟩, fun heq => congrArg _ heq.2.symm⟩
  · exact ⟨fun heq => (nomatch heq), fun heq => absurd heq.1 h⟩

theorem u8_of_lt {x : ℤ} (h0 : 0 ≤ x) (h : x < 256) : u8 x = x := Int.emod_eq_of_lt h0 h

theorem u16_of_lt {x : ℤ} (h0 : 0 ≤ x) (h : x < 65536) : u16 x = x := Int.emod_eq_of_lt h0 h

theorem u32_of_lt {x : ℤ} (h0 : 0 ≤ x) (h : x < 4294967296) : u32 x = x := Int.emod_eq_of_lt h0 h

theorem i32_of_lt {x : ℤ} (h0 : -2147483648 ≤ x) (h : x < 2147483648) : i32 x = x := by
  unfold i32
  rw [Int.bmod_def]
  split_ifs <;> omega

theorem i32_idem (x : ℤ) : i32 (i32 x) = i32 x := Int.bmod_bmod

theorem i32_emod (x : ℤ) : i32 (x % 4294967296) = i32 x :=
  Int.emod_bmod x 4294967296

theorem i32_congr {x y : ℤ} (h : x ≡ y [ZMOD 4294967296]) : i32 x = i32 y := by
  rw [← i32_emod, h, i32_emod]

theorem s29_of_lt {x : ℤ} (h0 : -268435456 ≤ x) (h : x < 268435456) : s29 x = x := by
  unfold s29
  rw [Int.bmod_def]
  split_ifs <;> omega

theorem i32_lt (x : ℤ) : i32 x < 2147483648 := by
  have hlt := @Int.bmod_lt x 4294967296 (by decide)
  unfold i32
  omega

theorem i32_isInt (x : ℤ) : IsInt (i32 x) := by
  have hlo := @Int.le_bmod x 4294967296 (by decide)
  exact ⟨by unfold i32; omega, i32_lt x⟩

theorem s29_lt (x : ℤ) : s29 x < 268435456 := by
  have hlt := @Int.bmod_lt x 536870912 (by decide)
  unfold s29
  omega

theorem u8_lt (x : ℤ) : u8 x < 256 := Int.emod_lt_of_pos _ (by decide)

theorem u64_of_lt {x : ℤ} (h0 : 0 ≤ x) (h : x < 18446744073709551616) : u64 x = x :=
  Int.emod_eq_of_lt h0 h

theorem i64_of_isLong {x : ℤ} (h : IsLong x) : i64 x = x := by
  obtain ⟨h0, h⟩ := h
  unfold i64
  rw [Int.bmod_def]
  split_ifs <;> omega

theorem u64_nonneg (x : ℤ) : 0 ≤ u64 x := Int.emod_nonneg _ (by decide)

theorem u64_lt (x : ℤ) : u64 x < 18446744073709551616 := Int.emod_lt_of_pos _ (by decide)

theorem u64_u64_add (x y : ℤ) : u64 (u64 x + y) = u64 (x + y) := Int.emod_add_emod x _ y

theorem long_ok_iff {x r : ℤ} : long x = .ok r ↔ IsLong x ∧ r = x := by
  unfold long
  by_cases h : IsLong x
  · simp [h, eq_comm]
  · simp [h]

theorem u32_nonneg (x : ℤ) : 0 ≤ u32 x := Int.emod_nonneg _ (by decide)

theorem u32_lt (x : ℤ) : u32 x < 4294967296 := Int.emod_lt_of_pos _ (by decide)

@[simp] theorem call_bind_apply {α β : Type} (a : α) (f : α → Call β) :
    ((Except.ok a : Call α) >>= f) = f a := rfl

@[simp] theorem call_bind_error {α β : Type} (e : Fault) (f : α → Call β) :
    ((Except.error e : Call α) >>= f) = .error e := rfl

end ConvertBinaryC
