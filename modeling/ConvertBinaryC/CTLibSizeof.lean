import ConvertBinaryC.CTLibDeclarators
import ConvertBinaryC.CTLibTypeInfo

/-! The size of a type name. The grammar computes it from the multiplicator of an abstract
declarator (`type_name` in `ctlib/parser.y`), `get_type_info` (`ctlib/layout.c`) from the
dimensions of a declarator. -/
namespace ConvertBinaryC
open FoldRules

/-- The type of an object that is declared like a type name; without a specifier it is
an int. -/
def TypeBase.type : TypeBase → TypeSpec
  | .specifier type => type
  | .qualifiers => .basic T_INT

/-- The declarator with a name where the abstract declarator has none. -/
def AbstractDeclarator.named (identifier : String) : AbstractDeclarator → DeclaratorTree
  | .absent => .name identifier
  | .pointer decl => .pointer (decl.named identifier)
  | .arrays dims => .arrays (.name identifier) dims
  | .function => .function (.name identifier)
  | .pointerTo decl dims => .arrays (.paren (.pointer (decl.named identifier))) dims
  | .pointerToFunction decl => .function (.paren (.pointer (decl.named identifier)))

/-- The two reductions of a declarator agree. -/
theorem AbstractDeclarator.eval_of_named {env : ExprEnv} {identifier : String} :
    ∀ (decl : AbstractDeclarator) {d : Declarator},
      (decl.named identifier).reduce env = .ok d →
      decl.eval env = (multiplicator d.dims >>= fun m => .ok (d.pointer_flag, m))
  | .absent, d, h => by
    cases h
    rfl
  | .pointer decl, d, h => by
    rw [AbstractDeclarator.named, DeclaratorTree.reduce] at h
    obtain ⟨d', hd', hd⟩ := bind_ok h
    cases hd
    rw [AbstractDeclarator.eval, AbstractDeclarator.eval_of_named decl hd']
    show _ = (multiplicator d'.dims >>= fun m => _)
    cases multiplicator d'.dims <;> rfl
  | .arrays dims, d, h => by
    rw [AbstractDeclarator.named, DeclaratorTree.reduce] at h
    obtain ⟨d', hd', hnext⟩ := bind_ok h
    obtain ⟨values, hvalues, hd⟩ := bind_ok hnext
    cases hd'
    cases hd
    have hplain : (declNew identifier).isBitfield = false := rfl
    obtain ⟨hdims, -, hflag⟩ := postfixDecl_dims hplain rfl values
    rw [show (declNew identifier).dims = [] from rfl, List.append_nil] at hdims
    rw [AbstractDeclarator.eval, hvalues, hdims, hflag]
    rfl
  | .function, d, h => by
    cases h
    rfl
  | .pointerTo decl dims, d, h => by
    rw [AbstractDeclarator.named, DeclaratorTree.reduce, DeclaratorTree.reduce,
      DeclaratorTree.reduce] at h
    obtain ⟨d', hd', hnext⟩ := bind_ok h
    obtain ⟨values, hvalues, hd⟩ := bind_ok hnext
    obtain ⟨d'', hd'', hpointer⟩ := bind_ok hd'
    cases hpointer
    -- a suffix behind a pointer changes nothing
    have hkept : postfixDecl { d'' with pointer_flag := true } values =
        { d'' with pointer_flag := true } := by
      unfold postfixDecl
      rw [if_pos rfl]
      exact ite_self _
    rw [hkept] at hd
    cases hd
    rw [AbstractDeclarator.eval, AbstractDeclarator.eval_of_named decl hd'', hvalues]
    show _ = (multiplicator d''.dims >>= fun m => _)
    cases multiplicator d''.dims <;> rfl
  | .pointerToFunction decl, d, h => by
    rw [AbstractDeclarator.named, DeclaratorTree.reduce, DeclaratorTree.reduce,
      DeclaratorTree.reduce] at h
    obtain ⟨d', hd', hd⟩ := bind_ok h
    obtain ⟨d'', hd'', hpointer⟩ := bind_ok hd'
    cases hpointer
    cases hd
    rw [AbstractDeclarator.eval, AbstractDeclarator.eval_of_named decl hd'']
    show _ = (multiplicator d''.dims >>= fun m => _)
    cases multiplicator d''.dims <;> rfl

/-- The values of an unsigned. -/
def IsUnsigned (x : ℤ) : Prop := 0 ≤ x ∧ x < 4294967296

/-- The size of an array is the product of its dimensions, as an unsigned. -/
theorem unsignedProduct_eq {size : ℤ} (hsize : IsUnsigned size) (dims : List Value) :
    unsignedProduct size dims = u32 (size * (dims.map Value.iv).prod) := by
  obtain ⟨hnonneg, hlt⟩ := unsignedProduct_range hsize.1 hsize.2 dims
  calc unsignedProduct size dims = u32 (unsignedProduct size dims) := (u32_of_lt hnonneg hlt).symm
    _ = u32 (size * (dims.map Value.iv).prod) := unsignedProduct_modEq size dims

/-- The multiplicator as an int and the dimensions give the same size. -/
theorem u32_mul_product (size : ℤ) (dims : List Value) :
    u32 (size * product 1 dims) = u32 (size * (dims.map Value.iv).prod) := by
  have hproduct := product_modEq 1 dims
  rw [one_mul] at hproduct
  exact hproduct.mul_left size

/-- A size that is configured as 0 is taken as it is, and the native size of as many
elements is a multiple of 2^32. -/
def NativeVanishes (configured native count : ℤ) : Prop :=
  configured = 0 → 4294967296 ∣ native * count

/-- The number of elements of a declarator. -/
def Declarator.elements (d : Declarator) : ℤ := (d.dims.map Value.iv).prod

/-- The declarator of one element. -/
def Declarator.element (d : Declarator) : Declarator := { d with ext := .array [] }

/-- The condition for the size of a type name to be the one of an object: the dimensions
are multiplied without an overflow, from 1 on and from the size of an element on, and sizes
that the action takes from the configuration itself are not configured as native. -/
structure SizeofAgrees (env : ExprEnv) (base : TypeBase) (d : Declarator) (size : ℤ) : Prop where
  fits : ProductsFit 1 d.dims
  size_fits : FitsAs u32 size d.dims
  pointer : d.pointer_flag = true →
    NativeVanishes env.pLP.ptr_size env.arch.ptr_size d.elements
  implicit : d.pointer_flag = false → base = .qualifiers →
    NativeVanishes env.pLP.int_size env.arch.int_size d.elements

theorem u32_loadSize_iff (configured native count : ℤ) :
    u32 (configured * count) = u32 (loadSize configured native * count) ↔
      NativeVanishes configured native count := by
  unfold NativeVanishes loadSize
  by_cases h : configured = 0
  · rw [if_neg (not_not.mpr h), h, zero_mul, Int.dvd_iff_emod_eq_zero]
    exact ⟨fun heq _ => heq.symm, fun hdvd => (hdvd rfl).symm⟩
  · rw [if_pos h]
    exact ⟨fun _ h' => absurd h' h, fun _ => rfl⟩

section Agree
variable {env : ExprEnv} {base : TypeBase} {d : Declarator} {fuel : ℕ} {st st' : LayoutState}
  {element : TypeInfo}

/-- The dimensions are applied to what is reported about an element. -/
theorem getTypeInfo_element (fuel : ℕ) (st : LayoutState) (type : TypeSpec) (d : Declarator) :
    getTypeInfo env.arch env.pLP fuel st type (some d) =
      (getTypeInfo env.arch env.pLP fuel st type (some d.element) >>= fun r =>
        r.2.declare d.dims >>= fun info => .ok (r.1, info)) := by
  cases fuel with
  | zero => rfl
  | succ fuel =>
    have hflag : (some d.element).any Declarator.pointer_flag =
      (some d).any Declarator.pointer_flag := rfl
    have hdims : ((some d.element).map Declarator.dims).getD [] = [] := rfl
    unfold getTypeInfo
    rw [hflag, hdims, bind_assoc]
    congr 1
    funext r
    obtain ⟨st', info⟩ := r
    dsimp only
    rw [TypeInfo.declare_nil]
    rfl

/-- The size of one element, as `get_type_info` reports it. -/
theorem element_pointer (hflag : d.pointer_flag = true)
    (helement : getTypeInfo env.arch env.pLP fuel st base.type (some d.element) =
      .ok (st', element)) :
    element.size = loadSize env.pLP.ptr_size env.arch.ptr_size := by
  cases fuel with
  | zero => exact nomatch helement
  | succ fuel =>
    have hany : (some d.element).any Declarator.pointer_flag = true := hflag
    unfold getTypeInfo at helement
    rw [if_pos hany] at helement
    cases helement
    rfl

theorem element_implicit (hflag : d.pointer_flag = false)
    (helement : getTypeInfo env.arch env.pLP fuel st (TypeBase.qualifiers).type
      (some d.element) = .ok (st', element)) :
    element.size = loadSize env.pLP.int_size env.arch.int_size := by
  rw [getTypeInfo_declare fuel st _ (d := d.element) hflag] at helement
  obtain ⟨r, hr, helement⟩ := bind_ok helement
  cases helement
  cases fuel with
  | zero => exact nomatch hr
  | succ fuel =>
    cases hr
    rfl

theorem element_specifier {type : TypeSpec} (hflag : d.pointer_flag = false)
    {st'' : LayoutState}
    (hanswer : getTypeInfo env.arch env.pLP fuel st type none = .ok (st'', env.typeInfo type))
    (helement : getTypeInfo env.arch env.pLP fuel st (TypeBase.specifier type).type
      (some d.element) = .ok (st', element)) :
    element.size = (env.typeInfo type).size := by
  rw [getTypeInfo_declare fuel st _ (d := d.element) hflag] at helement
  obtain ⟨r, hr, helement⟩ := bind_ok helement
  have hsame : .ok (st'', env.typeInfo type) = Except.ok r := hanswer.symm.trans hr
  cases hsame
  cases helement
  rfl

/-- Both sizes are the same multiple, of what the action takes as the size of an element
and of what `get_type_info` does. -/
theorem elementSize_agrees_iff
    (helement : getTypeInfo env.arch env.pLP fuel st base.type (some d.element) =
      .ok (st', element))
    (hanswer : ∀ type, base = .specifier type → d.pointer_flag = false → ∃ st'',
      getTypeInfo env.arch env.pLP fuel st type none = .ok (st'', env.typeInfo type)) :
    u32 (elementSize env base d.pointer_flag * d.elements) = u32 (element.size * d.elements) ↔
      (d.pointer_flag = true → NativeVanishes env.pLP.ptr_size env.arch.ptr_size d.elements) ∧
      (d.pointer_flag = false → base = .qualifiers →
        NativeVanishes env.pLP.int_size env.arch.int_size d.elements) := by
  cases hflag : d.pointer_flag with
  | true =>
    have hpointer : elementSize env base true = env.pLP.ptr_size := rfl
    rw [element_pointer hflag helement, hpointer, u32_loadSize_iff]
    exact ⟨fun h => ⟨fun _ => h, fun h' => absurd h' Bool.noConfusion⟩, fun h => h.1 rfl⟩
  | false =>
    cases base with
    | specifier type =>
      obtain ⟨st'', htype⟩ := hanswer type rfl hflag
      have hsame : elementSize env (.specifier type) false = (env.typeInfo type).size := rfl
      rw [element_specifier hflag htype helement, hsame]
      exact iff_of_true rfl
        ⟨fun h => absurd h Bool.noConfusion, fun _ h => TypeBase.noConfusion h⟩
    | qualifiers =>
      have hint : elementSize env .qualifiers false = env.pLP.int_size := rfl
      rw [element_implicit hflag helement, hint, u32_loadSize_iff]
      exact ⟨fun h => ⟨fun h' => absurd h' Bool.noConfusion, fun _ _ => h⟩, fun h => h.2 rfl rfl⟩

end Agree

/-- The value of a type name is the size of an object of that type exactly when the
dimensions are multiplied without an overflow and the size of pointers, or of the int
that only has qualifiers, is not configured as native. -/
theorem sizeof_agrees_iff {env : ExprEnv} {base : TypeBase} {decl : AbstractDeclarator}
    {identifier : String} {d : Declarator} (hd : (decl.named identifier).reduce env = .ok d)
    {fuel : ℕ} {st st' : LayoutState} {element : TypeInfo}
    (helement : getTypeInfo env.arch env.pLP fuel st base.type (some d.element) =
      .ok (st', element))
    (hanswer : ∀ type, base = .specifier type → d.pointer_flag = false → ∃ st'',
      getTypeInfo env.arch env.pLP fuel st type none = .ok (st'', env.typeInfo type))
    (hunsigned : IsUnsigned element.size) :
    (∃ v info, (Expr.sizeofType base decl).eval env = .ok v ∧
        getTypeInfo env.arch env.pLP fuel st base.type (some d) = .ok (st', info) ∧
        v.iv = info.size) ↔
      SizeofAgrees env base d element.size := by
  have heval : (Expr.sizeofType base decl).eval env =
      (multiplicator d.dims >>= fun m => .ok (typeName env base (d.pointer_flag, m))) := by
    rw [Expr.eval, decl.eval_of_named hd]
    cases multiplicator d.dims <;> rfl
  have hask : getTypeInfo env.arch env.pLP fuel st base.type (some d) =
      (element.declare d.dims >>= fun info => .ok (st', info)) := by
    rw [getTypeInfo_element, helement, call_bind_apply]
  have hsize : unsignedProduct element.size d.dims = u32 (element.size * d.elements) :=
    unsignedProduct_eq hunsigned d.dims
  have hagrees := elementSize_agrees_iff helement hanswer
  have hvalue : (typeName env base (d.pointer_flag, product 1 d.dims)).iv =
      u32 (elementSize env base d.pointer_flag * d.elements) := u32_mul_product _ _
  rw [heval, hask]
  constructor
  · rintro ⟨v, info, hv, hinfo, hequal⟩
    obtain ⟨m, hm, hv⟩ := bind_ok hv
    obtain ⟨hfits, rfl⟩ := timesDims_ok_iff.mp hm
    obtain ⟨declared, hdeclare, hinfo⟩ := bind_ok hinfo
    obtain ⟨hsize_fits, rfl⟩ := TypeInfo.declare_ok_iff.mp hdeclare
    cases hv
    cases hinfo
    dsimp only at hequal
    rw [hvalue, hsize] at hequal
    exact ⟨hfits, hsize_fits, (hagrees.mp hequal).1, (hagrees.mp hequal).2⟩
  · rintro ⟨hfits, hsize_fits, hpointer, himplicit⟩
    have hm : multiplicator d.dims = .ok (product 1 d.dims) := timesDims_ok_iff.mpr ⟨hfits, rfl⟩
    rw [hm, TypeInfo.declare_ok_iff.mpr ⟨hsize_fits, rfl⟩]
    refine ⟨_, _, rfl, rfl, ?_⟩
    dsimp only
    rw [hvalue, hsize]
    exact hagrees.mpr ⟨hpointer, himplicit⟩

/-- Nothing is laid out yet. -/
def emptyState : LayoutState where
  heap := ⟨fun _ => structNew "" .struct 0 ⟨"size.h", 1⟩ none,
    fun _ => ⟨0, false, false, 0, 0, ⟨"size.h", 1⟩, none, .empty, ""⟩, fun _ => ⟨.basic T_INT, declNew ""⟩⟩
  bl := blCreateGeneric

/-- `sizeof(int [3])` -/
theorem sizeof_agrees_iff_threeInts :
    ∃ d element,
      ((AbstractDeclarator.arrays (constantDimension 3)).named "x").reduce emptyEnv = .ok d ∧
      getTypeInfo emptyEnv.arch emptyEnv.pLP 1 emptyState (.basic T_INT) (some d.element) =
        .ok (emptyState, element) ∧
      ((∃ v info, (Expr.sizeofType (.specifier (.basic T_INT))
          (.arrays (constantDimension 3))).eval emptyEnv = .ok v ∧
          getTypeInfo emptyEnv.arch emptyEnv.pLP 1 emptyState (.basic T_INT) (some d) =
            .ok (emptyState, info) ∧ v.iv = info.size) ↔
        SizeofAgrees emptyEnv (.specifier (.basic T_INT)) d element.size) := by
  have hd : ((AbstractDeclarator.arrays (constantDimension 3)).named "x").reduce emptyEnv =
      .ok { declNew "x" with ext := .array [⟨3, false, false⟩] } := rfl
  have helement : getTypeInfo emptyEnv.arch emptyEnv.pLP 1 emptyState
      (TypeBase.specifier (.basic T_INT)).type
      (some (Declarator.element { declNew "x" with ext := .array [⟨3, false, false⟩] })) =
      .ok (emptyState, ⟨4, 4, 4, false, false, false⟩) := rfl
  refine ⟨_, _, hd, helement, ?_⟩
  apply sizeof_agrees_iff hd helement
  · rintro type ⟨⟩ _
    exact ⟨emptyState, rfl⟩
  · exact ⟨by decide, by decide⟩

/-- `sizeof(int *)` is zero when the size of pointers is configured as native. -/
theorem sizeof_pointer_vanishes :
    ∃ d st' info,
      ((AbstractDeclarator.pointer .absent).named "x").reduce emptyEnv = .ok d ∧
      getTypeInfo emptyEnv.arch emptyEnv.pLP 1 emptyState (.basic T_INT) (some d) =
        .ok (st', info) ∧ info.size = 8 ∧
      ¬ ∃ v, (Expr.sizeofType (.specifier (.basic T_INT)) (.pointer .absent)).eval emptyEnv =
        .ok v ∧ v.iv = info.size := by
  refine ⟨_, _, _, rfl, rfl, rfl, ?_⟩
  rintro ⟨v, hv, hequal⟩
  cases hv
  revert hequal
  decide

end ConvertBinaryC
