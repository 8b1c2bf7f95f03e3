import Mathlib.Data.Int.Bitwise
import ConvertBinaryC.CTLibLayout
import ConvertBinaryC.CTLibDimensions

/-! The actions of the parser for constant expressions outside function bodies
(`ctlib/parser.y`). They compute with native long values, and flag a value that is not
known or not to be relied on. -/
namespace ConvertBinaryC

inductive UnaryOp where
  | minus
  | complement
  | not
  | plus
  | indirection
  | address
  deriving DecidableEq, Repr

inductive BinaryOp where
  | mul
  | div
  | mod
  | add
  | sub
  | left
  | right
  | lt
  | gt
  | le
  | ge
  | eq
  | ne
  | and
  | xor
  | or
  | logicalAnd
  | logicalOr
  deriving DecidableEq, Repr

/-- The value of a comparison. -/
def truth (p : Prop) [Decidable p] : ℤ := if p then 1 else 0

/-- An operator over the integers. -/
def BinaryOp.exact (op : BinaryOp) (a b : ℤ) : ℤ :=
  match op with
  | .mul => a * b
  | .div => a.tdiv b
  | .mod => a.tmod b
  | .add => a + b
  | .sub => a - b
  | .left => a * 2 ^ b.toNat
  | .right => a / 2 ^ b.toNat
  | .lt => truth (a < b)
  | .gt => truth (b < a)
  | .le => truth (a ≤ b)
  | .ge => truth (b ≤ a)
  | .eq => truth (a = b)
  | .ne => truth (a ≠ b)
  | .and => Int.land a b
  | .xor => Int.xor a b
  | .or => Int.lor a b
  | .logicalAnd => truth (a ≠ 0 ∧ b ≠ 0)
  | .logicalOr => truth (a ≠ 0 ∨ b ≠ 0)

/-- Does C define the operation on long values? -/
def BinaryOp.Defined (op : BinaryOp) (a b : ℤ) : Prop :=
  match op with
  | .mul => IsLong (a * b)
  | .div => b ≠ 0 ∧ IsLong (a.tdiv b)
  | .mod => b ≠ 0 ∧ IsLong (a.tdiv b)
  | .add => IsLong (a + b)
  | .sub => IsLong (a - b)
  | .left => 0 ≤ b ∧ b < 64 ∧ 0 ≤ a ∧ IsLong (a * 2 ^ b.toNat)
  | .right => 0 ≤ b ∧ b < 64
  | _ => True

instance (op : BinaryOp) (a b : ℤ) : Decidable (op.Defined a b) :=
  match op with
  | .mul => inferInstanceAs (Decidable (IsLong _))
  | .div => inferInstanceAs (Decidable (_ ∧ IsLong _))
  | .mod => inferInstanceAs (Decidable (_ ∧ IsLong _))
  | .add => inferInstanceAs (Decidable (IsLong _))
  | .sub => inferInstanceAs (Decidable (IsLong _))
  | .left => inferInstanceAs (Decidable (_ ∧ _ ∧ _ ∧ IsLong _))
  | .right => inferInstanceAs (Decidable (_ ∧ _))
  | .lt | .gt | .le | .ge | .eq | .ne | .and | .xor | .or | .logicalAnd | .logicalOr =>
    inferInstanceAs (Decidable True)

/-- The operators of postfix and prefix expressions whose values are never known. -/
inductive PostfixOp where
  | call
  | member (name : String)
  | ptrMember (name : String)
  | inc
  | dec
  | preInc
  | preDec
  deriving DecidableEq, Repr

/-- The same with two operands. The arguments of a call are chained like a comma
expression. -/
inductive ApplyOp where
  | subscript
  | callArgs
  | assign
  deriving DecidableEq, Repr

/-- A type name starts with a type specifier, or consists of qualifiers. -/
inductive TypeBase where
  | specifier (type : TypeSpec)
  | qualifiers
  deriving DecidableEq, Repr

mutual

/-- The expressions of the grammar over identifiers and constants. -/
inductive Expr where
  | ident (name : String)
  | constant (iv : ℤ)
  | postfixed (op : PostfixOp) (e : Expr)
  | apply (op : ApplyOp) (e e' : Expr)
  | unary (op : UnaryOp) (e : Expr)
  | sizeofExpr (e : Expr)
  | sizeofType (base : TypeBase) (decl : AbstractDeclarator)
  | cast (base : TypeBase) (decl : AbstractDeclarator) (e : Expr)
  | binary (op : BinaryOp) (e e' : Expr)
  | conditional (c t e : Expr)
  | comma (e e' : Expr)

/-- `absent` stands where the grammar has no abstract declarator, `pointerTo decl dims`
for `(* decl) dims`. -/
inductive AbstractDeclarator where
  | absent
  | pointer (decl : AbstractDeclarator)
  | arrays (dims : Dimensions)
  | function
  | pointerTo (decl : AbstractDeclarator) (dims : Dimensions)
  | pointerToFunction (decl : AbstractDeclarator)

/-- The brackets of an array declarator, from left to right. -/
inductive Dimensions where
  | first (e : Expr)
  | unspecified
  | star
  | next (dims : Dimensions) (e : Expr)
  | nextStar (dims : Dimensions)

end

/-- What an expression refers to: the enumerators in `htEnumerators`, and the answers of
`get_type_info` for type specifiers. -/
structure ExprEnv where
  arch : NativeArch
  pLP : LayoutParam
  enumerators : String → Option Value
  typeInfo : TypeSpec → TypeInfo

/-- `UNDEF_VAL` -/
def undefVal : Value := ⟨0, true, false⟩

def Value.clear (v : Value) : Bool := !v.undef && !v.risky

/-- The flags of two values together. -/
def Value.withFlags (v w : Value) : Value :=
  { v with undef := v.undef || w.undef, risky := v.risky || w.risky }

/-- `UNARY_OP` and the other unary operators. -/
def unaryOp (op : UnaryOp) (v : Value) : Call Value :=
  match op with
  | .minus => do
    let iv ← long (-v.iv)
    .ok { v with iv := iv }
  | .complement => .ok { v with iv := -v.iv - 1 }
  | .not => .ok { v with iv := truth (v.iv = 0) }
  | .plus => .ok v
  | .indirection => .ok { v with risky := true }
  | .address => .ok { v with risky := true }

/-- `BINARY_OP` -/
def binaryOp (op : BinaryOp) (v w : Value) : Call Value :=
  if op.Defined v.iv w.iv then
    .ok { iv := op.exact v.iv w.iv, undef := v.undef || w.undef, risky := v.risky || w.risky }
  else .error .undefinedBehaviour

/-- The actions of the binary operators: only divisions look at the divisor. -/
def evalBinary (op : BinaryOp) (v w : Value) : Call Value :=
  match op with
  | .div => if w.iv = 0 then .ok undefVal else binaryOp .div v w
  | .mod => if w.iv = 0 then .ok undefVal else binaryOp .mod v w
  | op => binaryOp op v w

/-- The multiplicator of an abstract declarator. -/
def multiplicator (dims : List Value) : Call ℤ := timesDims 1 dims

/-- The configured size of what a type name is an array of. -/
def elementSize (env : ExprEnv) (base : TypeBase) (pointer_flag : Bool) : ℤ :=
  if pointer_flag then env.pLP.ptr_size
  else
    match base with
    | .specifier type => (env.typeInfo type).size
    | .qualifiers => env.pLP.int_size

def elementRisky (env : ExprEnv) (base : TypeBase) (pointer_flag : Bool) : Bool :=
  match base with
  | .specifier type => !pointer_flag && (env.typeInfo type).riskyVal
  | .qualifiers => false

/-- The value of a type name. Sizes are unsigned. -/
def typeName (env : ExprEnv) (base : TypeBase) (decl : Bool × ℤ) : Value where
  iv := u32 (elementSize env base decl.1 * decl.2)
  undef := false
  risky := elementRisky env base decl.1

section Eval
variable (env : ExprEnv)

mutual

/-- All operands are evaluated, also those that C does not evaluate. -/
def Expr.eval : Expr → Call Value
  | .ident name => .ok ((env.enumerators name).getD undefVal)
  | .constant iv => .ok ⟨iv, false, false⟩
  | .postfixed _ e => do
    let _ ← e.eval
    .ok undefVal
  | .apply _ e e' => do
    let _ ← e.eval
    let _ ← e'.eval
    .ok undefVal
  | .unary op e => do
    let v ← e.eval
    unaryOp op v
  | .sizeofExpr e => e.eval
  | .sizeofType base decl => do
    let d ← decl.eval
    .ok (typeName env base d)
  | .cast _ decl e => do
    let _ ← decl.eval
    let v ← e.eval
    .ok { v with risky := true }
  | .binary op e e' => do
    let v ← e.eval
    let w ← e'.eval
    evalBinary op v w
  | .conditional c t e => do
    let u ← c.eval
    let v ← t.eval
    let w ← e.eval
    .ok ((if u.iv ≠ 0 then v else w).withFlags u)
  | .comma e e' => do
    let _ ← e.eval
    e'.eval

/-- The pointer flag and the multiplicator of an abstract declarator. -/
def AbstractDeclarator.eval : AbstractDeclarator → Call (Bool × ℤ)
  | .absent => .ok (false, 1)
  | .pointer decl => do
    let (_, m) ← decl.eval
    .ok (true, m)
  | .arrays dims => do
    let values ← dims.eval
    let m ← multiplicator values
    .ok (false, m)
  | .function => .ok (false, 1)
  | .pointerTo decl dims => do
    let (_, m) ← decl.eval
    let _ ← dims.eval
    .ok (true, m)
  | .pointerToFunction decl => do
    let (_, m) ← decl.eval
    .ok (true, m)

/-- A star in the first brackets leaves the list empty. -/
def Dimensions.eval : Dimensions → Call (List Value)
  | .first e => do
    let v ← e.eval
    .ok [v]
  | .unspecified => .ok [undefVal]
  | .star => .ok []
  | .next dims e => do
    let values ← dims.eval
    let v ← e.eval
    .ok (values ++ [v])
  | .nextStar dims => do
    let values ← dims.eval
    .ok (values ++ [⟨0, false, false⟩])

end

end Eval

end ConvertBinaryC
