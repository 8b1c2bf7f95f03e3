import ConvertBinaryC.CTLibExpression

/-! What C says about a constant expression, and the expressions for which the parser
agrees with it. -/
namespace ConvertBinaryC
open FoldRules

/-- The value that the code works towards, over the integers instead of long. -/
def UnaryOp.ideal (op : UnaryOp) (v : Value) : Value :=
  match op with
  | .minus => { v with iv := -v.iv }
  | .complement => { v with iv := -v.iv - 1 }
  | .not => { v with iv := truth (v.iv = 0) }
  | .plus => v
  | .indirection => { v with risky := true }
  | .address => { v with risky := true }

def BinaryOp.merged (op : BinaryOp) (v w : Value) : Value :=
  { iv := op.exact v.iv w.iv, undef := v.undef || w.undef, risky := v.risky || w.risky }

def BinaryOp.ideal (op : BinaryOp) (v w : Value) : Value :=
  match op with
  | .div => if w.iv = 0 then undefVal else BinaryOp.div.merged v w
  | .mod => if w.iv = 0 then undefVal else BinaryOp.mod.merged v w
  | op => op.merged v w

/-- The operands do not make the code leave what C defines: the guard against a divisor
of zero is part of the code. -/
def BinaryOp.Allowed (op : BinaryOp) (a b : ℤ) : Prop :=
  match op with
  | .div => b ≠ 0 → IsLong (a.tdiv b)
  | .mod => b ≠ 0 → IsLong (a.tdiv b)
  | op => op.Defined a b

section Ideal
variable (env : ExprEnv)

mutual

def Expr.ideal : Expr → Value
  | .ident name => (env.enumerators name).getD undefVal
  | .constant iv => ⟨iv, false, false⟩
  | .postfixed _ _ => undefVal
  | .apply _ _ _ => undefVal
  | .unary op e => op.ideal e.ideal
  | .sizeofExpr e => e.ideal
  | .sizeofType base decl => typeName env base decl.ideal
  | .cast _ _ e => { e.ideal with risky := true }
  | .binary op e e' => op.ideal e.ideal e'.ideal
  | .conditional c t e => (if c.ideal.iv ≠ 0 then t.ideal else e.ideal).withFlags c.ideal
  | .comma _ e' => e'.ideal

def AbstractDeclarator.ideal : AbstractDeclarator → Bool × ℤ
  | .absent => (false, 1)
  | .pointer decl => (true, decl.ideal.2)
  | .arrays dims => (false, product 1 dims.ideal)
  | .function => (false, 1)
  | .pointerTo decl _ => (true, decl.ideal.2)
  | .pointerToFunction decl => (true, decl.ideal.2)

def Dimensions.ideal : Dimensions → List Value
  | .first e => [e.ideal]
  | .unspecified => [undefVal]
  | .star => []
  | .next dims e => dims.ideal ++ [e.ideal]
  | .nextStar dims => dims.ideal ++ [⟨0, false, false⟩]

end

/-- The products of the dimensions do not overflow. -/
def AbstractDeclarator.Fits : AbstractDeclarator → Prop
  | .absent => True
  | .pointer decl => decl.Fits
  | .arrays dims => ProductsFit 1 (dims.ideal env)
  | .function => True
  | .pointerTo decl _ => decl.Fits
  | .pointerToFunction decl => decl.Fits

end Ideal

section Meaning
variable (env : ExprEnv) (exprSize : Expr → ℤ)

/-- The size in C of what a type name is an array of, if that is complete and can be
relied on. -/
def cElementSize (base : TypeBase) (pointer_flag : Bool) : Option ℤ :=
  if pointer_flag then some (loadSize env.pLP.ptr_size env.arch.ptr_size)
  else
    match base with
    | .specifier type =>
      if (env.typeInfo type).noStructDecl ∨ (env.typeInfo type).riskyVal then none
      else some (env.typeInfo type).size
    | .qualifiers => some (loadSize env.pLP.int_size env.arch.int_size)

def UnaryOp.cValue (op : UnaryOp) (a : ℤ) : Option ℤ :=
  match op with
  | .minus => if IsLong (-a) then some (-a) else none
  | .complement => some (-a - 1)
  | .not => some (truth (a = 0))
  | .plus => some a
  | .indirection => none
  | .address => none

def BinaryOp.cValue (op : BinaryOp) (a b : ℤ) : Option ℤ :=
  if op.Defined a b then some (op.exact a b) else none

/-- A dimension of an array type is not negative. -/
def cDimension (d : ℤ) : Option ℤ := if 0 ≤ d then some d else none

mutual

/-- The value of an expression in long arithmetic. There is none if C defines none, or
if it depends on an operand that is undefined or unsafe. `exprSize` gives the sizes of
the types of expressions. -/
def Expr.cValue : Expr → Option ℤ
  | .ident name => do
    let v ← env.enumerators name
    if v.clear then some v.iv else none
  | .constant iv => some iv
  | .postfixed _ _ => none
  | .apply _ _ _ => none
  | .unary op e => do
    let a ← e.cValue
    op.cValue a
  | .sizeofExpr e => do
    let _ ← e.cValue
    some (exprSize e)
  | .sizeofType base decl => do
    let (pointer_flag, n) ← decl.cElements
    let size ← cElementSize env base pointer_flag
    some (size * n)
  | .cast _ _ _ => none
  | .binary op e e' => do
    let a ← e.cValue
    let b ← e'.cValue
    op.cValue a b
  | .conditional c t e => do
    let a ← c.cValue
    if a ≠ 0 then t.cValue else e.cValue
  | .comma _ e' => e'.cValue

/-- Whether a type name is about pointers, and about how many of them. A function has no
size. -/
def AbstractDeclarator.cElements : AbstractDeclarator → Option (Bool × ℤ)
  | .absent => some (false, 1)
  | .pointer decl => do
    let (_, n) ← decl.cElements
    some (true, n)
  | .arrays dims => do
    let n ← dims.cElements
    some (false, n)
  | .function => none
  | .pointerTo decl _ => do
    let (_, n) ← decl.cElements
    some (true, n)
  | .pointerToFunction decl => do
    let (_, n) ← decl.cElements
    some (true, n)

/-- The number of elements of an array whose dimensions are all known. -/
def Dimensions.cElements : Dimensions → Option ℤ
  | .first e => do
    let d ← e.cValue
    cDimension d
  | .unspecified => none
  | .star => none
  | .next dims e => do
    let n ← dims.cElements
    let d ← e.cValue
    let d ← cDimension d
    some (n * d)
  | .nextStar _ => none

end

/-- The code does what C says: it performs no undefined operation, and a value without
flags is the one of C. So a value that depends on an operand that is undefined or unsafe
has a flag. -/
def Expr.Meets (e : Expr) : Prop :=
  ∃ v, e.eval env = .ok v ∧ (v.clear = true → e.cValue env exprSize = some v.iv)

/-- The size of a type name is known to C, it fits an unsigned, and no size that is
configured as native is read as zero. -/
def SizeFits (base : TypeBase) (decl : AbstractDeclarator) : Prop :=
  ∃ size, (Expr.sizeofType base decl).cValue env exprSize = some size ∧ 0 ≤ size ∧
    size < 4294967296 ∧ (elementSize env base (decl.ideal env).1 = 0 → size = 0)

/-- The condition for one operator to do what C says: operations do not overflow or shift
too far, an expression under sizeof has its own size as its value, and the size of a type
name is known. -/
def Expr.Sound : Expr → Prop
  | .unary .minus e => IsLong (-(e.ideal env).iv)
  | .binary op e e' => op.Allowed (e.ideal env).iv (e'.ideal env).iv
  | .sizeofExpr e => (e.ideal env).clear = true → exprSize e = (e.ideal env).iv
  | .sizeofType base decl => decl.Fits env ∧
      (elementRisky env base (decl.ideal env).1 = true ∨ SizeFits env exprSize base decl)
  | .cast _ decl _ => decl.Fits env
  | _ => True

end Meaning

section All
variable (P : Expr → Prop)

mutual

/-- A property of an expression and of all expressions in it. -/
def Expr.All : Expr → Prop
  | .ident name => P (.ident name)
  | .constant iv => P (.constant iv)
  | .postfixed op e => P (.postfixed op e) ∧ e.All
  | .apply op e e' => P (.apply op e e') ∧ e.All ∧ e'.All
  | .unary op e => P (.unary op e) ∧ e.All
  | .sizeofExpr e => P (.sizeofExpr e) ∧ e.All
  | .sizeofType base decl => P (.sizeofType base decl) ∧ decl.All
  | .cast base decl e => P (.cast base decl e) ∧ decl.All ∧ e.All
  | .binary op e e' => P (.binary op e e') ∧ e.All ∧ e'.All
  | .conditional c t e => P (.conditional c t e) ∧ c.All ∧ t.All ∧ e.All
  | .comma e e' => P (.comma e e') ∧ e.All ∧ e'.All

def AbstractDeclarator.All : AbstractDeclarator → Prop
  | .absent => True
  | .pointer decl => decl.All
  | .arrays dims => dims.All
  | .function => True
  | .pointerTo decl dims => decl.All ∧ dims.All
  | .pointerToFunction decl => decl.All

def Dimensions.All : Dimensions → Prop
  | .first e => e.All
  | .unspecified => True
  | .star => True
  | .next dims e => dims.All ∧ e.All
  | .nextStar dims => dims.All

end

end All

section Operators

/-- A unary minus is the only unary operator that can overflow. -/
theorem unaryOp_ok_iff {op : UnaryOp} {v r : Value} :
    unaryOp op v = .ok r ↔ (op = .minus → IsLong (-v.iv)) ∧ r = op.ideal v := by
  cases op with
  | minus =>
    unfold unaryOp long
    by_cases hlong : IsLong (-v.iv)
    · simp [hlong, UnaryOp.ideal, eq_comm]
    · simp [hlong]
  | complement => simp [unaryOp, UnaryOp.ideal, eq_comm]
  | not => simp [unaryOp, UnaryOp.ideal, eq_comm]
  | plus => simp [unaryOp, UnaryOp.ideal, eq_comm]
  | indirection => simp [unaryOp, UnaryOp.ideal, eq_comm]
  | address => simp [unaryOp, UnaryOp.ideal, eq_comm]

theorem binaryOp_ok_iff {op : BinaryOp} {v w r : Value} :
    binaryOp op v w = .ok r ↔ op.Defined v.iv w.iv ∧ r = op.merged v w := by
  unfold binaryOp
  by_cases hdef : op.Defined v.iv w.iv
  · rw [if_pos hdef, Except.ok.injEq]
    exact ⟨fun h => ⟨hdef, h.symm⟩, fun h => h.2.symm⟩
  · rw [if_neg hdef]
    exact ⟨fun h => (nomatch h), fun h => absurd h.1 hdef⟩

theorem evalBinary_ok_iff {op : BinaryOp} {v w r : Value} :
    evalBinary op v w = .ok r ↔ op.Allowed v.iv w.iv ∧ r = op.ideal v w := by
  have hdivision (op : BinaryOp) (hop : op.Defined v.iv w.iv ↔ w.iv ≠ 0 ∧ IsLong (v.iv.tdiv w.iv)) :
      (if w.iv = 0 then .ok undefVal else binaryOp op v w : Call Value) = .ok r ↔
        (w.iv ≠ 0 → IsLong (v.iv.tdiv w.iv)) ∧
          r = if w.iv = 0 then undefVal else op.merged v w := by
    by_cases hzero : w.iv = 0
    · rw [if_pos hzero, if_pos hzero, Except.ok.injEq]
      exact ⟨fun h => ⟨fun hne => absurd hzero hne, h.symm⟩, fun h => h.2.symm⟩
    · rw [if_neg hzero, if_neg hzero, binaryOp_ok_iff, hop]
      exact and_congr_left' ⟨fun h _ => h.2, fun h => ⟨hzero, h hzero⟩⟩
  cases op with
  | div => exact hdivision .div Iff.rfl
  | mod => exact hdivision .mod Iff.rfl
  | _ => exact binaryOp_ok_iff

theorem multiplicator_ok_iff {dims : List Value} {m : ℤ} :
    multiplicator dims = .ok m ↔ ProductsFit 1 dims ∧ m = product 1 dims := timesDims_ok_iff

end Operators

/-- The value, if it has no flag. -/
def Value.known (v : Value) : Option ℤ := if v.clear then some v.iv else none

section Known

variable (v w : Value)

@[simp] theorem undefVal_known : undefVal.known = none := rfl

@[simp] theorem known_risky : ({ v with risky := true } : Value).known = none := by
  simp [Value.known, Value.clear]

theorem known_withFlags : (v.withFlags w).known = w.known.bind fun _ => v.known := by
  obtain ⟨iv, undef, risky⟩ := v
  obtain ⟨iv', undef', risky'⟩ := w
  cases undef <;> cases risky <;> cases undef' <;> cases risky' <;> rfl

theorem known_merged (op : BinaryOp) : (op.merged v w).known =
    v.known.bind fun a => w.known.bind fun b => some (op.exact a b) := by
  obtain ⟨iv, undef, risky⟩ := v
  obtain ⟨iv', undef', risky'⟩ := w
  cases undef <;> cases risky <;> cases undef' <;> cases risky' <;> rfl

theorem Value.known_eq_some {v : Value} {a : ℤ} (h : v.known = some a) :
    v.clear = true ∧ v.iv = a := by
  unfold known at h
  split_ifs at h with hclear
  exact ⟨hclear, Option.some.inj h⟩

theorem known_unary (op : UnaryOp) (h : op = .minus → IsLong (-v.iv)) :
    (op.ideal v).known = v.known.bind op.cValue := by
  obtain ⟨iv, undef, risky⟩ := v
  cases op with
  | minus =>
    have hlong : IsLong (-iv) := h rfl
    cases undef <;> cases risky <;> simp [Value.known, Value.clear, UnaryOp.ideal, UnaryOp.cValue, hlong]
  | complement => cases undef <;> cases risky <;> rfl
  | not => cases undef <;> cases risky <;> rfl
  | plus => cases undef <;> cases risky <;> rfl
  | indirection => cases undef <;> cases risky <;> rfl
  | address => cases undef <;> cases risky <;> rfl

theorem known_binary (op : BinaryOp) (h : op.Allowed v.iv w.iv) :
    (op.ideal v w).known = v.known.bind fun a => w.known.bind fun b => op.cValue a b := by
  have hdefined (op : BinaryOp) (hop : op.Defined v.iv w.iv) : (op.merged v w).known =
      v.known.bind fun a => w.known.bind fun b => op.cValue a b := by
    rw [known_merged]
    cases hv : v.known with
    | none => rfl
    | some a =>
      cases hw : w.known with
      | none => rfl
      | some b =>
        obtain ⟨-, rfl⟩ := Value.known_eq_some hv
        obtain ⟨-, rfl⟩ := Value.known_eq_some hw
        exact (if_pos hop).symm
  have hdivision (op : BinaryOp) (hop : ∀ a b, op.Defined a b ↔ b ≠ 0 ∧ IsLong (a.tdiv b))
      (hquot : w.iv ≠ 0 → IsLong (v.iv.tdiv w.iv)) :
      (if w.iv = 0 then undefVal else op.merged v w).known =
        v.known.bind fun a => w.known.bind fun b => op.cValue a b := by
    by_cases hzero : w.iv = 0
    · rw [if_pos hzero, undefVal_known]
      cases hv : v.known with
      | none => rfl
      | some a =>
        cases hw : w.known with
        | none => rfl
        | some b =>
          -- C has no value for a division by zero either
          obtain ⟨-, rfl⟩ := Value.known_eq_some hw
          exact (if_neg fun hdef => ((hop _ _).mp hdef).1 hzero).symm
    · rw [if_neg hzero]
      exact hdefined op ((hop _ _).mpr ⟨hzero, hquot hzero⟩)
  cases op with
  | div => exact hdivision .div (fun _ _ => Iff.rfl) h
  | mod => exact hdivision .mod (fun _ _ => Iff.rfl) h
  | _ => exact hdefined _ h

end Known

section TypeName
variable {env : ExprEnv} {base : TypeBase} {pointer_flag : Bool}

theorem cElementSize_eq {size : ℤ} (h : cElementSize env base pointer_flag = some size)
    (hne : elementSize env base pointer_flag ≠ 0) :
    size = elementSize env base pointer_flag := by
  unfold cElementSize at h
  unfold elementSize at hne ⊢
  by_cases hptr : pointer_flag = true
  · rw [if_pos hptr] at h hne ⊢
    rw [loadSize, if_pos hne] at h
    exact (Option.some.inj h).symm
  · rw [if_neg hptr] at h hne ⊢
    cases base with
    | specifier type =>
      dsimp only at h ⊢
      split_ifs at h
      exact (Option.some.inj h).symm
    | qualifiers =>
      dsimp only at h hne ⊢
      rw [loadSize, if_pos hne] at h
      exact (Option.some.inj h).symm

theorem cElementSize_risky (h : elementRisky env base pointer_flag = true) :
    cElementSize env base pointer_flag = none := by
  cases base with
  | qualifiers => exact absurd h Bool.noConfusion
  | specifier type =>
    simp only [elementRisky, Bool.and_eq_true, Bool.not_eq_true'] at h
    unfold cElementSize
    rw [if_neg (by rw [h.1]; exact Bool.noConfusion)]
    exact if_pos (Or.inr h.2)

end TypeName

section Sound
variable {env : ExprEnv} {exprSize : Expr → ℤ}

mutual

/-- A sound expression evaluates to its value over the integers. -/
theorem Expr.eval_eq_ideal : ∀ e : Expr, e.All (Expr.Sound env exprSize) →
    e.eval env = .ok (e.ideal env)
  | .ident name, _ => rfl
  | .constant iv, _ => rfl
  | .postfixed op e, h => by
    rw [Expr.eval, Expr.eval_eq_ideal e h.2]
    rfl
  | .apply op e e', h => by
    rw [Expr.eval, Expr.eval_eq_ideal e h.2.1, Expr.eval_eq_ideal e' h.2.2]
    rfl
  | .unary op e, h => by
    rw [Expr.eval, Expr.eval_eq_ideal e h.2, call_bind_apply]
    apply unaryOp_ok_iff.mpr
    refine ⟨?_, rfl⟩
    rintro rfl
    exact h.1
  | .sizeofExpr e, h => by
    rw [Expr.eval]
    exact Expr.eval_eq_ideal e h.2
  | .sizeofType base decl, h => by
    rw [Expr.eval, AbstractDeclarator.eval_eq_ideal decl h.2 h.1.1]
    rfl
  | .cast base decl e, h => by
    rw [Expr.eval, AbstractDeclarator.eval_eq_ideal decl h.2.1 h.1, Expr.eval_eq_ideal e h.2.2]
    rfl
  | .binary op e e', h => by
    rw [Expr.eval, Expr.eval_eq_ideal e h.2.1, Expr.eval_eq_ideal e' h.2.2, call_bind_apply,
      call_bind_apply]
    exact evalBinary_ok_iff.mpr ⟨h.1, rfl⟩
  | .conditional c t e, h => by
    rw [Expr.eval, Expr.eval_eq_ideal c h.2.1, Expr.eval_eq_ideal t h.2.2.1,
      Expr.eval_eq_ideal e h.2.2.2]
    rfl
  | .comma e e', h => by
    rw [Expr.eval, Expr.eval_eq_ideal e h.2.1, Expr.eval_eq_ideal e' h.2.2]
    rfl

theorem AbstractDeclarator.eval_eq_ideal : ∀ decl : AbstractDeclarator,
    decl.All (Expr.Sound env exprSize) → decl.Fits env → decl.eval env = .ok (decl.ideal env)
  | .absent, _, _ => rfl
  | .pointer decl, h, hfits => by
    rw [AbstractDeclarator.eval, AbstractDeclarator.eval_eq_ideal decl h hfits]
    rfl
  | .arrays dims, h, hfits => by
    rw [AbstractDeclarator.eval, Dimensions.eval_eq_ideal dims h, call_bind_apply,
      multiplicator_ok_iff.mpr ⟨hfits, rfl⟩]
    rfl
  | .function, _, _ => rfl
  | .pointerTo decl dims, h, hfits => by
    rw [AbstractDeclarator.eval, AbstractDeclarator.eval_eq_ideal decl h.1 hfits,
      Dimensions.eval_eq_ideal dims h.2]
    rfl
  | .pointerToFunction decl, h, hfits => by
    rw [AbstractDeclarator.eval, AbstractDeclarator.eval_eq_ideal decl h hfits]
    rfl

theorem Dimensions.eval_eq_ideal : ∀ dims : Dimensions, dims.All (Expr.Sound env exprSize) →
    dims.eval env = .ok (dims.ideal env)
  | .first e, h => by
    rw [Dimensions.eval, Expr.eval_eq_ideal e h]
    rfl
  | .unspecified, _ => rfl
  | .star, _ => rfl
  | .next dims e, h => by
    rw [Dimensions.eval, Dimensions.eval_eq_ideal dims h.1, Expr.eval_eq_ideal e h.2]
    rfl
  | .nextStar dims, h => by
    rw [Dimensions.eval, Dimensions.eval_eq_ideal dims h]
    rfl

end

theorem cElements_some {exprSize : Expr → ℤ} {base : TypeBase} {decl : AbstractDeclarator}
    {size : ℤ} (h : (Expr.sizeofType base decl).cValue env exprSize = some size) :
    ∃ pointer_flag n c, decl.cElements env exprSize = some (pointer_flag, n) ∧
      cElementSize env base pointer_flag = some c ∧ size = c * n := by
  rw [Expr.cValue] at h
  obtain ⟨⟨pointer_flag, n⟩, hdecl, h⟩ := Option.bind_eq_some_iff.mp h
  obtain ⟨c, hc, h⟩ := Option.bind_eq_some_iff.mp h
  exact ⟨pointer_flag, n, c, hdecl, hc, (Option.some.inj h).symm⟩

mutual

/-- The value in C of a sound expression is the one without flags. -/
theorem Expr.cValue_eq_known : ∀ e : Expr, e.All (Expr.Sound env exprSize) →
    e.cValue env exprSize = (e.ideal env).known
  | .ident name, _ => by
    rw [Expr.cValue, Expr.ideal]
    cases env.enumerators name with
    | none => rfl
    | some v => rfl
  | .constant iv, _ => rfl
  | .postfixed op e, _ => rfl
  | .apply op e e', _ => rfl
  | .unary op e, h => by
    rw [Expr.cValue, Expr.ideal, Expr.cValue_eq_known e h.2]
    refine (known_unary _ op ?_).symm
    rintro rfl
    exact h.1
  | .sizeofExpr e, h => by
    rw [Expr.cValue, Expr.ideal, Expr.cValue_eq_known e h.2]
    cases hknown : (e.ideal env).known with
    | none => rfl
    | some a =>
      obtain ⟨hclear, rfl⟩ := Value.known_eq_some hknown
      exact congrArg some (h.1 hclear)
  | .sizeofType base decl, h => by
    by_cases hrisky : elementRisky env base (decl.ideal env).1 = true
    · -- the element type cannot be relied on
      have hknown : ((Expr.sizeofType base decl).ideal env).known = none := by
        rw [Expr.ideal, typeName, hrisky]
        rfl
      rw [hknown, Option.eq_none_iff_forall_ne_some]
      intro size hsize
      obtain ⟨pointer_flag, n, c, hdecl, hc, -⟩ := cElements_some hsize
      obtain ⟨rfl, -⟩ := AbstractDeclarator.cElements_ideal decl h.2 hdecl
      rw [cElementSize_risky hrisky] at hc
      cases hc
    · obtain ⟨size, hsize, hpos, hlt, hzero⟩ := h.1.2.resolve_left hrisky
      have hknown : ((Expr.sizeofType base decl).ideal env).known =
          some (u32 (elementSize env base (decl.ideal env).1 * (decl.ideal env).2)) := by
        rw [Bool.not_eq_true] at hrisky
        rw [Expr.ideal, typeName, hrisky]
        rfl
      rw [hsize, hknown]
      congr 1
      obtain ⟨pointer_flag, n, c, hdecl, hc, rfl⟩ := cElements_some hsize
      obtain ⟨rfl, hn⟩ := AbstractDeclarator.cElements_ideal decl h.2 hdecl
      by_cases hraw : elementSize env base (decl.ideal env).1 = 0
      · rw [hzero hraw, hraw, zero_mul]
        rfl
      · rw [← cElementSize_eq hc hraw]
        calc c * n = u32 (c * n) := (u32_of_lt hpos hlt).symm
          _ = u32 (c * (decl.ideal env).2) := (hn.mul_left c).symm
  | .cast base decl e, _ => by
    rw [Expr.cValue, Expr.ideal, known_risky]
  | .binary op e e', h => by
    rw [Expr.cValue, Expr.ideal, Expr.cValue_eq_known e h.2.1, Expr.cValue_eq_known e' h.2.2]
    exact (known_binary _ _ op h.1).symm
  | .conditional c t e, h => by
    rw [Expr.cValue, Expr.ideal, Expr.cValue_eq_known c h.2.1, Expr.cValue_eq_known t h.2.2.1,
      Expr.cValue_eq_known e h.2.2.2, known_withFlags]
    cases hc : (c.ideal env).known with
    | none => rfl
    | some a =>
      obtain ⟨-, rfl⟩ := Value.known_eq_some hc
      show (if (c.ideal env).iv ≠ 0 then _ else _) = Value.known (if _ then _ else _)
      split_ifs <;> rfl
  | .comma e e', h => by
    rw [Expr.cValue, Expr.ideal, Expr.cValue_eq_known e' h.2.2]

/-- What a sound abstract declarator declares in C, up to the width of an int. -/
theorem AbstractDeclarator.cElements_ideal : ∀ (decl : AbstractDeclarator) {pointer_flag : Bool}
    {n : ℤ}, decl.All (Expr.Sound env exprSize) →
    decl.cElements env exprSize = some (pointer_flag, n) →
    pointer_flag = (decl.ideal env).1 ∧ (decl.ideal env).2 ≡ n [ZMOD 4294967296]
  | .absent, _, _, _, hn => by
    cases hn
    exact ⟨rfl, rfl⟩
  | .pointer decl, _, _, h, hn => by
    rw [AbstractDeclarator.cElements] at hn
    obtain ⟨⟨_, m⟩, hdecl, hn⟩ := Option.bind_eq_some_iff.mp hn
    cases hn
    exact ⟨rfl, (AbstractDeclarator.cElements_ideal decl h hdecl).2⟩
  | .arrays dims, _, _, h, hn => by
    rw [AbstractDeclarator.cElements] at hn
    obtain ⟨m, hdims, hn⟩ := Option.bind_eq_some_iff.mp hn
    cases hn
    exact ⟨rfl, Dimensions.cElements_ideal dims h hdims⟩
  | .function, _, _, _, hn => nomatch hn
  | .pointerTo decl dims, _, _, h, hn => by
    rw [AbstractDeclarator.cElements] at hn
    obtain ⟨⟨_, m⟩, hdecl, hn⟩ := Option.bind_eq_some_iff.mp hn
    cases hn
    exact ⟨rfl, (AbstractDeclarator.cElements_ideal decl h.1 hdecl).2⟩
  | .pointerToFunction decl, _, _, h, hn => by
    rw [AbstractDeclarator.cElements] at hn
    obtain ⟨⟨_, m⟩, hdecl, hn⟩ := Option.bind_eq_some_iff.mp hn
    cases hn
    exact ⟨rfl, (AbstractDeclarator.cElements_ideal decl h hdecl).2⟩

theorem Dimensions.cElements_ideal : ∀ (dims : Dimensions) {n : ℤ},
    dims.All (Expr.Sound env exprSize) → dims.cElements env exprSize = some n →
    product 1 (dims.ideal env) ≡ n [ZMOD 4294967296]
  | .first e, n, h, hn => by
    rw [Dimensions.cElements, Expr.cValue_eq_known e h] at hn
    obtain ⟨d, hd, hn⟩ := Option.bind_eq_some_iff.mp hn
    obtain ⟨-, rfl⟩ := Value.known_eq_some hd
    unfold cDimension at hn
    split_ifs at hn
    cases hn
    rw [Dimensions.ideal]
    simpa using @product_append_modEq [] (e.ideal env) 1 rfl
  | .unspecified, _, _, hn => nomatch hn
  | .star, _, _, hn => nomatch hn
  | .next dims e, n, h, hn => by
    rw [Dimensions.cElements, Expr.cValue_eq_known e h.2] at hn
    obtain ⟨m, hm, hn⟩ := Option.bind_eq_some_iff.mp hn
    obtain ⟨d, hd, hn⟩ := Option.bind_eq_some_iff.mp hn
    obtain ⟨-, rfl⟩ := Value.known_eq_some hd
    obtain ⟨d', hd', hn⟩ := Option.bind_eq_some_iff.mp hn
    unfold cDimension at hd'
    split_ifs at hd'
    cases hd'
    cases hn
    rw [Dimensions.ideal]
    exact product_append_modEq (Dimensions.cElements_ideal dims h.1 hm)
  | .nextStar dims, _, _, hn => nomatch hn

end

theorem Value.known_of_clear {v : Value} (h : v.clear = true) : v.known = some v.iv := if_pos h

theorem Expr.meets_of_all {e : Expr} (h : e.All (Expr.Sound env exprSize)) :
    e.Meets env exprSize := by
  refine ⟨e.ideal env, e.eval_eq_ideal h, fun hclear => ?_⟩
  rw [e.cValue_eq_known h]
  exact Value.known_of_clear hclear

/-- The dimensions of an abstract declarator are multiplied while it is evaluated. -/
theorem AbstractDeclarator.fits_of_eval : ∀ (decl : AbstractDeclarator) {d : Bool × ℤ},
    decl.All (Expr.Sound env exprSize) → decl.eval env = .ok d → decl.Fits env
  | .absent, _, _, _ => trivial
  | .pointer decl, _, h, hd => by
    rw [AbstractDeclarator.eval] at hd
    obtain ⟨d', hd', -⟩ := bind_ok hd
    exact AbstractDeclarator.fits_of_eval decl h hd'
  | .arrays dims, _, h, hd => by
    rw [AbstractDeclarator.eval, Dimensions.eval_eq_ideal dims h, call_bind_apply] at hd
    obtain ⟨m, hm, -⟩ := bind_ok hd
    exact (multiplicator_ok_iff.mp hm).1
  | .function, _, _, _ => trivial
  | .pointerTo decl dims, _, h, hd => by
    rw [AbstractDeclarator.eval] at hd
    obtain ⟨d', hd', -⟩ := bind_ok hd
    exact AbstractDeclarator.fits_of_eval decl h.1 hd'
  | .pointerToFunction decl, _, h, hd => by
    rw [AbstractDeclarator.eval] at hd
    obtain ⟨d', hd', -⟩ := bind_ok hd
    exact AbstractDeclarator.fits_of_eval decl h hd'

/-- One operator over sound operands that does what C says is sound. -/
theorem sound_unary {op : UnaryOp} {e : Expr} (h : e.All (Expr.Sound env exprSize))
    (hmeets : (Expr.unary op e).Meets env exprSize) :
    (Expr.unary op e).Sound env exprSize := by
  obtain ⟨v, heval, -⟩ := hmeets
  rw [Expr.eval, e.eval_eq_ideal h, call_bind_apply, unaryOp_ok_iff] at heval
  cases op with
  | minus => exact heval.1 rfl
  | _ => exact trivial

theorem sound_binary {op : BinaryOp} {e e' : Expr} (h : e.All (Expr.Sound env exprSize))
    (h' : e'.All (Expr.Sound env exprSize)) (hmeets : (Expr.binary op e e').Meets env exprSize) :
    (Expr.binary op e e').Sound env exprSize := by
  obtain ⟨v, heval, -⟩ := hmeets
  rw [Expr.eval, e.eval_eq_ideal h, e'.eval_eq_ideal h', call_bind_apply, call_bind_apply,
    evalBinary_ok_iff] at heval
  exact heval.1

theorem sound_sizeofExpr {e : Expr} (h : e.All (Expr.Sound env exprSize))
    (hmeets : (Expr.sizeofExpr e).Meets env exprSize) :
    (Expr.sizeofExpr e).Sound env exprSize := by
  obtain ⟨v, heval, hvalue⟩ := hmeets
  rw [Expr.eval, e.eval_eq_ideal h] at heval
  cases heval
  intro hclear
  have hsize := hvalue hclear
  rw [Expr.cValue, e.cValue_eq_known h, Value.known_of_clear hclear] at hsize
  exact Option.some.inj hsize

theorem sound_sizeofType {base : TypeBase} {decl : AbstractDeclarator}
    (h : decl.All (Expr.Sound env exprSize))
    (hmeets : (Expr.sizeofType base decl).Meets env exprSize) :
    (Expr.sizeofType base decl).Sound env exprSize := by
  obtain ⟨v, heval, hvalue⟩ := hmeets
  rw [Expr.eval] at heval
  obtain ⟨d, hd, hv⟩ := bind_ok heval
  have hfits := decl.fits_of_eval h hd
  rw [decl.eval_eq_ideal h hfits] at hd
  cases hd
  cases hv
  refine ⟨hfits, ?_⟩
  by_cases hrisky : elementRisky env base (decl.ideal env).1 = true
  · exact Or.inl hrisky
  · right
    have hclear : (typeName env base (decl.ideal env)).clear = true := by
      rw [Bool.not_eq_true] at hrisky
      rw [typeName, Value.clear, hrisky]
      rfl
    refine ⟨_, hvalue hclear, u32_nonneg _, u32_lt _, fun hzero => ?_⟩
    rw [typeName, hzero, zero_mul]
    rfl

theorem sound_cast {base : TypeBase} {decl : AbstractDeclarator} {e : Expr}
    (h : decl.All (Expr.Sound env exprSize)) (hmeets : (Expr.cast base decl e).Meets env exprSize) :
    (Expr.cast base decl e).Sound env exprSize := by
  obtain ⟨v, heval, -⟩ := hmeets
  rw [Expr.eval] at heval
  obtain ⟨d, hd, -⟩ := bind_ok heval
  exact decl.fits_of_eval h hd

mutual

/-- An expression and all expressions in it do what C says if and only if each operator
is sound. -/
theorem Expr.all_meets_iff : ∀ e : Expr,
    e.All (Expr.Meets env exprSize) ↔ e.All (Expr.Sound env exprSize)
  | .ident name => ⟨fun _ => trivial, fun h => Expr.meets_of_all h⟩
  | .constant iv => ⟨fun _ => trivial, fun h => Expr.meets_of_all h⟩
  | .postfixed op e => by
    rw [Expr.All, Expr.All, Expr.all_meets_iff e]
    exact and_congr_left fun he => ⟨fun _ => trivial, fun h => Expr.meets_of_all ⟨h, he⟩⟩
  | .apply op e e' => by
    rw [Expr.All, Expr.All, Expr.all_meets_iff e, Expr.all_meets_iff e']
    exact and_congr_left fun he => ⟨fun _ => trivial, fun h => Expr.meets_of_all ⟨h, he⟩⟩
  | .unary op e => by
    rw [Expr.All, Expr.All, Expr.all_meets_iff e]
    exact and_congr_left fun he => ⟨sound_unary he, fun h => Expr.meets_of_all ⟨h, he⟩⟩
  | .sizeofExpr e => by
    rw [Expr.All, Expr.All, Expr.all_meets_iff e]
    exact and_congr_left fun he => ⟨sound_sizeofExpr he, fun h => Expr.meets_of_all ⟨h, he⟩⟩
  | .sizeofType base decl => by
    rw [Expr.All, Expr.All, AbstractDeclarator.all_meets_iff decl]
    exact and_congr_left fun he => ⟨sound_sizeofType he, fun h => Expr.meets_of_all ⟨h, he⟩⟩
  | .cast base decl e => by
    rw [Expr.All, Expr.All, AbstractDeclarator.all_meets_iff decl, Expr.all_meets_iff e]
    exact and_congr_left fun he => ⟨sound_cast he.1, fun h => Expr.meets_of_all ⟨h, he⟩⟩
  | .binary op e e' => by
    rw [Expr.All, Expr.All, Expr.all_meets_iff e, Expr.all_meets_iff e']
    exact and_congr_left fun he => ⟨sound_binary he.1 he.2, fun h => Expr.meets_of_all ⟨h, he⟩⟩
  | .conditional c t e => by
    rw [Expr.All, Expr.All, Expr.all_meets_iff c, Expr.all_meets_iff t, Expr.all_meets_iff e]
    exact and_congr_left fun he => ⟨fun _ => trivial, fun h => Expr.meets_of_all ⟨h, he⟩⟩
  | .comma e e' => by
    rw [Expr.All, Expr.All, Expr.all_meets_iff e, Expr.all_meets_iff e']
    exact and_congr_left fun he => ⟨fun _ => trivial, fun h => Expr.meets_of_all ⟨h, he⟩⟩

theorem AbstractDeclarator.all_meets_iff : ∀ decl : AbstractDeclarator,
    decl.All (Expr.Meets env exprSize) ↔ decl.All (Expr.Sound env exprSize)
  | .absent => Iff.rfl
  | .pointer decl => AbstractDeclarator.all_meets_iff decl
  | .arrays dims => Dimensions.all_meets_iff dims
  | .function => Iff.rfl
  | .pointerTo decl dims =>
    and_congr (AbstractDeclarator.all_meets_iff decl) (Dimensions.all_meets_iff dims)
  | .pointerToFunction decl => AbstractDeclarator.all_meets_iff decl

theorem Dimensions.all_meets_iff : ∀ dims : Dimensions,
    dims.All (Expr.Meets env exprSize) ↔ dims.All (Expr.Sound env exprSize)
  | .first e => Expr.all_meets_iff e
  | .unspecified => Iff.rfl
  | .star => Iff.rfl
  | .next dims e => and_congr (Dimensions.all_meets_iff dims) (Expr.all_meets_iff e)
  | .nextStar dims => Dimensions.all_meets_iff dims

end

end Sound

/-- The parser agrees with C on an expression and on everything in it if and only if no
operation in it overflows or shifts too far, every known expression under sizeof is as
large as its value, and every type name under sizeof has a size that C knows and that
fits an unsigned. -/
theorem expression_meets_iff (env : ExprEnv) (exprSize : Expr → ℤ) (e : Expr) :
    e.All (Expr.Meets env exprSize) ↔ e.All (Expr.Sound env exprSize) := e.all_meets_iff

/-- A machine on which nothing is declared. -/
def emptyEnv : ExprEnv where
  arch := ⟨1, 4, 2, 8, 8, 8, 4, 8, 16, 8, 1⟩
  pLP := ⟨0, 0, 0, 0, 0, 0, 0, 0, 0, 0, 0, 0, .littleEndian⟩
  enumerators _ := none
  typeInfo _ := TypeInfo.scalar 4

theorem not_meets_of_error {env : ExprEnv} {exprSize : Expr → ℤ} {e : Expr} {fault : Fault}
    (h : e.eval env = .error fault) : ¬e.Meets env exprSize := by
  rintro ⟨v, hv, -⟩
  rw [h] at hv
  cases hv

theorem not_meets_of_value {env : ExprEnv} {exprSize : Expr → ℤ} {e : Expr} {v : Value}
    (h : e.eval env = .ok v) (hclear : v.clear = true)
    (hvalue : e.cValue env exprSize ≠ some v.iv) : ¬e.Meets env exprSize := by
  rintro ⟨w, hw, hmeets⟩
  rw [h] at hw
  cases hw
  exact hvalue (hmeets hclear)

/-- `9223372036854775807 + 1` overflows, `(-9223372036854775807 - 1) / -1` traps, and
`1 << 64` shifts too far; `sizeof 5` is 5, also where an int has 4 bytes; and
`sizeof (int [n])` is 0 without a flag, although `n` is not known. -/
theorem expressions_off_C :
    ¬(Expr.binary .add (.constant 9223372036854775807) (.constant 1)).Meets emptyEnv (fun _ => 4) ∧
    ¬(Expr.binary .div (.binary .sub (.unary .minus (.constant 9223372036854775807)) (.constant 1))
      (.unary .minus (.constant 1))).Meets emptyEnv (fun _ => 4) ∧
    ¬(Expr.binary .left (.constant 1) (.constant 64)).Meets emptyEnv (fun _ => 4) ∧
    ¬(Expr.sizeofExpr (.constant 5)).Meets emptyEnv (fun _ => 4) ∧
    ¬(Expr.sizeofType (.specifier (.basic T_INT)) (.arrays (.first (.ident "n")))).Meets emptyEnv
      (fun _ => 4) := by
  refine ⟨?_, ?_, ?_, ?_, ?_⟩
  · exact @not_meets_of_error _ _ _ .undefinedBehaviour (by decide +kernel)
  · exact @not_meets_of_error _ _ _ .undefinedBehaviour (by decide +kernel)
  · exact @not_meets_of_error _ _ _ .undefinedBehaviour (by decide +kernel)
  · exact not_meets_of_value (v := ⟨5, false, false⟩) rfl rfl (by decide +kernel)
  · exact not_meets_of_value (v := ⟨0, false, false⟩) (by decide +kernel) rfl (by decide +kernel)

end ConvertBinaryC
