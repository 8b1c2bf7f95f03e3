import ConvertBinaryC.CTLibTypes

/-! The Perl values that packing reads and unpacking builds, and the interpreter
as far as they need it. -/
namespace ConvertBinaryC

/-- The numbers of type `IV`. -/
abbrev IV := {x : ℤ // IsLong x}

/-- The numbers of type `UV`. -/
abbrev UV := {x : ℤ // 0 ≤ x ∧ x < 18446744073709551616}

theorem isLong_zero : IsLong 0 := by decide

/-- A double, as its bits. -/
abbrev NV := BitVec 64

/-- A defined value that is not a reference: its slots that are set. -/
structure Scalar where
  iok : Option ℤ
  nok : Option NV
  pok : Option (List Byte)
  deriving DecidableEq, Repr

/-- Values. Elements of an array that do not exist are `none`. -/
inductive SV where
  | undef
  | scalar (s : Scalar)
  | av (elems : List (Option SV))
  | hv (entries : List (String × SV))
  | ref (id : ℕ)

abbrev Hash := List (String × SV)

/-- What the code uses of the interpreter: the conversions of scalars that are not
just read from a slot, the C floating point types, the memory that an allocation
can get at most, and the calls of subroutines. The answer of a call may depend on
the number of calls before it. -/
structure Perl where
  svIV : Scalar → IV
  svUV : Scalar → UV
  svPV : SV → List Byte
  looksLikeNumber : Scalar → Bool
  floatBytes : (n : ℕ) → Scalar → Fin n → Byte
  floatValue : List Byte → NV
  memory : ℤ
  call : ℕ → ℕ → Option SV → Except String SV

/-- `newSViv` and `newSVuv` -/
def newSViv (x : ℤ) : SV := .scalar ⟨some x, none, none⟩

def newSVnv (x : NV) : SV := .scalar ⟨none, some x, none⟩

def newSVpvn (bytes : List Byte) : SV := .scalar ⟨none, none, some bytes⟩

/-- `DEFINED` -/
def SV.defined : SV → Bool
  | .undef => false
  | _ => true

/-- The bytes of an identifier or of a text that the source writes. -/
def textBytes (s : String) : List Byte := s.toList.map fun c => BitVec.ofNat 8 c.toNat

/-- The C string that starts at the first byte. -/
def cString (bytes : List Byte) : List Char :=
  (bytes.takeWhile (· ≠ 0)).map fun b => Char.ofNat b.toNat

/-- An interpreter for scalars that need no conversion, without any subroutines. -/
def slotPerl : Perl where
  svIV _ := ⟨0, isLong_zero⟩
  svUV _ := ⟨0, by decide⟩
  svPV _ := []
  looksLikeNumber s := s.iok.isSome
  floatBytes _ _ _ := 0
  floatValue _ := 0
  memory := 4294967296
  call _ _ _ := .error "Undefined subroutine called"

theorem isLong_i64 (x : ℤ) : IsLong (i64 x) := by
  unfold IsLong i64
  have hlow := Int.le_bmod (x := x) (m := 18446744073709551616) (by decide)
  have hhigh := Int.bmod_lt (x := x) (m := 18446744073709551616) (by decide)
  omega

/-- `SvIV` -/
def Perl.intOf (perl : Perl) (s : Scalar) : IV :=
  match s.iok with
  | some x => ⟨i64 x, isLong_i64 x⟩
  | none => perl.svIV s

/-- `SvUV` -/
def Perl.unsignedOf (perl : Perl) (s : Scalar) : UV :=
  match s.iok with
  | some x => ⟨u64 x, u64_nonneg x, u64_lt x⟩
  | none => perl.svUV s

/-- `SvPV` -/
def Perl.stringOf (perl : Perl) (sv : SV) : List Byte :=
  match sv with
  | .scalar ⟨_, _, some bytes⟩ => bytes
  | _ => perl.svPV sv

/-- `sv_to_dimension`: what is no number counts as zero. -/
def svToDimension (perl : Perl) (sv : SV) : IV :=
  match sv with
  | .scalar s => if perl.looksLikeNumber s then perl.intOf s else ⟨0, isLong_zero⟩
  | _ => ⟨0, isLong_zero⟩

end ConvertBinaryC
