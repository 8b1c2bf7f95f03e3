import ConvertBinaryC.FoldRules
import ConvertBinaryC.CTLibExpressionMeaning

/-! Declarators. The actions of the grammar (`ctlib/parser.y`) reduce a declarator to a
list of dimensions and a pointer flag, and an abstract declarator to a multiplicator and
a pointer flag. -/
namespace ConvertBinaryC
open FoldRules

/-- The declarators of the grammar, for identifiers and for typedef names that are
redeclared; the grammar has a suffix only next to a name or a closing parenthesis. -/
inductive DeclaratorTree where
  | name (identifier : String)
  | paren (d : DeclaratorTree)
  | pointer (d : DeclaratorTree)
  | arrays (d : DeclaratorTree) (dims : Dimensions)
  | function (d : DeclaratorTree)

/-- `POSTFIX_DECL`; the empty list stands for the null pointer. -/
def postfixDecl (decl : Declarator) (dims : List Value) : Declarator :=
  if dims = [] then decl
  else if decl.pointer_flag then decl
  else match decl.ext with
    | .array array => { decl with ext := .array (dims ++ array) }
    | _ => { decl with ext := .array dims }

/-- How a part of a declarator derives the type of what is declared, from the type of
what is left without the part. A dimension that is a star has no value. -/
inductive DeclaratorPart where
  | arrays (bounds : List (Option Value))
  | pointer
  | function
  deriving DecidableEq, Repr

section Reduce
variable (env : ExprEnv)

def DeclaratorTree.reduce : DeclaratorTree → Call Declarator
  | .name identifier => .ok (declNew identifier)
  | .paren d => d.reduce
  | .pointer d => do
    let decl ← d.reduce
    .ok { decl with pointer_flag := true }
  | .arrays d dims => do
    let decl ← d.reduce
    let values ← dims.eval env
    .ok (postfixDecl decl values)
  | .function d => do
    let decl ← d.reduce
    .ok (postfixDecl decl [])

/-- The bounds in brackets, from left to right. -/
def Dimensions.bounds : Dimensions → Call (List (Option Value))
  | .first e => do
    let v ← e.eval env
    .ok [some v]
  | .unspecified => .ok [some undefVal]
  | .star => .ok [none]
  | .next dims e => do
    let bounds ← dims.bounds
    let v ← e.eval env
    .ok (bounds ++ [some v])
  | .nextStar dims => do
    let bounds ← dims.bounds
    .ok (bounds ++ [none])

/-- The parts of a declarator from the name outward, which is the order in which C
derives the type of the name. -/
def DeclaratorTree.parts : DeclaratorTree → Call (List DeclaratorPart)
  | .name _ => .ok []
  | .paren d => d.parts
  | .pointer d => do
    let parts ← d.parts
    .ok (parts ++ [.pointer])
  | .arrays d dims => do
    let parts ← d.parts
    let bounds ← dims.bounds env
    .ok (parts ++ [.arrays bounds])
  | .function d => do
    let parts ← d.parts
    .ok (parts ++ [.function])

/-- The same for an abstract declarator, from where its name would be. -/
def AbstractDeclarator.parts : AbstractDeclarator → Call (List DeclaratorPart)
  | .absent => .ok []
  | .pointer decl => do
    let parts ← decl.parts
    .ok (parts ++ [.pointer])
  | .arrays dims => do
    let bounds ← dims.bounds env
    .ok [.arrays bounds]
  | .function => .ok [.function]
  | .pointerTo decl dims => do
    let parts ← decl.parts
    let bounds ← dims.bounds env
    .ok (parts ++ [.pointer, .arrays bounds])
  | .pointerToFunction decl => do
    let parts ← decl.parts
    .ok (parts ++ [.pointer, .function])

end Reduce

/-- The suffixes with brackets that come before anything else, from the name outward. -/
def leadingArrays : List DeclaratorPart → List (List (Option Value))
  | .arrays bounds :: parts => bounds :: leadingArrays parts
  | _ => []

/-- The bounds of what is declared, the outermost dimension first, up to the first
derivation that is not an array. -/
def arrayBounds (parts : List DeclaratorPart) : List (Option Value) := (leadingArrays parts).flatten

/-- What the elements of these dimensions are, if not of the type without the declarator. -/
def elementPart : List DeclaratorPart → Option DeclaratorPart
  | .arrays _ :: parts => elementPart parts
  | parts => parts.head?

/-- Neither a function nor an array of functions is declared. -/
def IsObject (parts : List DeclaratorPart) : Prop := elementPart parts ≠ some .function

instance : DecidablePred IsObject := fun parts =>
  inferInstanceAs (Decidable (elementPart parts ≠ some .function))

/-- What is recorded are the dimensions of what is declared, and whether their element is
a pointer. -/
structure RecordsParts (parts : List DeclaratorPart) (decl : Declarator) : Prop where
  dims : decl.dims.map some = arrayBounds parts
  pointer : decl.pointer_flag = true ↔ elementPart parts = some .pointer

/-- The same of a pointer flag and a multiplicator. -/
structure CountsParts (parts : List DeclaratorPart) (decl : Bool × ℤ) : Prop where
  product : ∃ dims : List Value, dims.map some = arrayBounds parts ∧
    decl.2 = (dims.map Value.iv).prod
  pointer : decl.1 = true ↔ elementPart parts = some .pointer

/-- There is no star among the leading arrays, and it does not matter in which order
their suffixes are taken: in most cases there is only one. -/
structure OrderFree (parts : List DeclaratorPart) : Prop where
  bound : none ∉ arrayBounds parts
  reversed : (leadingArrays parts).reverse.flatten = arrayBounds parts

/-- There is no star among the leading arrays, and the product of their bounds is an int
that is computed without an overflow. -/
structure ProductFits (parts : List DeclaratorPart) : Prop where
  bound : none ∉ arrayBounds parts
  fits : ProductsFit 1 (arrayBounds parts).reduceOption
  int : IsInt ((arrayBounds parts).reduceOption.map Value.iv).prod

/-- The list that the actions make of brackets: a star in the first ones leaves none,
later it counts as zero. -/
def recordedBounds (bounds : List (Option Value)) : List Value :=
  match bounds with
  | none :: bounds => bounds.map fun bound => bound.getD ⟨0, false, false⟩
  | bounds => bounds.map fun bound => bound.getD ⟨0, false, false⟩

theorem recordedBounds_append {bounds : List (Option Value)} (h : bounds ≠ [])
    (bound : Option Value) :
    recordedBounds (bounds ++ [bound]) =
      recordedBounds bounds ++ [bound.getD ⟨0, false, false⟩] := by
  cases bounds with
  | nil => exact absurd rfl h
  | cons first bounds => cases first <;> simp [recordedBounds]

/-- Without a star the values are the bounds. -/
theorem map_recordedBounds {bounds : List (Option Value)} (h : none ∉ bounds) :
    (recordedBounds bounds).map some = bounds := by
  have hvalues : ∀ bs : List (Option Value), none ∉ bs →
      (bs.map fun bound => bound.getD ⟨0, false, false⟩).map some = bs := by
    intro bs hbs
    rw [List.map_map]
    calc bs.map (some ∘ fun bound => bound.getD ⟨0, false, false⟩) = bs.map id := by
          apply List.map_congr_left
          intro bound hmem
          cases bound with
          | none => exact absurd hmem hbs
          | some v => rfl
      _ = bs := List.map_id bs
  cases bounds with
  | nil => rfl
  | cons first rest =>
    cases first with
    | none => exact absurd List.mem_cons_self h
    | some v => exact hvalues (some v :: rest) h

section Env
variable {env : ExprEnv}

theorem Dimensions.eval_of_bounds : ∀ (dims : Dimensions) {bounds : List (Option Value)},
    dims.bounds env = .ok bounds → bounds ≠ [] ∧ dims.eval env = .ok (recordedBounds bounds)
  | .first e, bounds, h => by
    rw [Dimensions.bounds] at h
    obtain ⟨v, hv, hbounds⟩ := bind_ok h
    cases hbounds
    rw [Dimensions.eval, hv]
    exact ⟨List.cons_ne_nil _ _, rfl⟩
  | .unspecified, _, h => by
    cases h
    exact ⟨List.cons_ne_nil _ _, rfl⟩
  | .star, _, h => by
    cases h
    exact ⟨List.cons_ne_nil _ _, rfl⟩
  | .next dims e, bounds, h => by
    rw [Dimensions.bounds] at h
    obtain ⟨before, hbefore, hnext⟩ := bind_ok h
    obtain ⟨v, hv, hbounds⟩ := bind_ok hnext
    cases hbounds
    obtain ⟨hne, heval⟩ := Dimensions.eval_of_bounds dims hbefore
    rw [Dimensions.eval, heval, hv, recordedBounds_append hne]
    exact ⟨List.append_ne_nil_of_left_ne_nil hne _, rfl⟩
  | .nextStar dims, bounds, h => by
    rw [Dimensions.bounds] at h
    obtain ⟨before, hbefore, hbounds⟩ := bind_ok h
    cases hbounds
    obtain ⟨hne, heval⟩ := Dimensions.eval_of_bounds dims hbefore
    rw [Dimensions.eval, heval, recordedBounds_append hne]
    exact ⟨List.append_ne_nil_of_left_ne_nil hne _, rfl⟩

/-- What the actions do for one part. -/
def applyPart (decl : Declarator) (part : DeclaratorPart) : Declarator :=
  match part with
  | .arrays bounds => postfixDecl decl (recordedBounds bounds)
  | .pointer => { decl with pointer_flag := true }
  | .function => decl

/-- The actions run from the name outward. -/
theorem DeclaratorTree.reduce_of_parts (t : DeclaratorTree) {parts : List DeclaratorPart}
    (h : t.parts env = .ok parts) :
    ∃ identifier, t.reduce env = .ok (parts.foldl applyPart (declNew identifier)) := by
  induction t generalizing parts with
  | name identifier =>
    cases h
    exact ⟨identifier, rfl⟩
  | paren d ih => exact ih h
  | pointer d ih =>
    rw [DeclaratorTree.parts] at h
    obtain ⟨inner, hinner, hparts⟩ := bind_ok h
    cases hparts
    obtain ⟨identifier, hreduce⟩ := ih hinner
    refine ⟨identifier, ?_⟩
    rw [DeclaratorTree.reduce, hreduce, List.foldl_append]
    rfl
  | arrays d dims ih =>
    rw [DeclaratorTree.parts] at h
    obtain ⟨inner, hinner, hnext⟩ := bind_ok h
    obtain ⟨bounds, hbounds, hparts⟩ := bind_ok hnext
    cases hparts
    obtain ⟨identifier, hreduce⟩ := ih hinner
    refine ⟨identifier, ?_⟩
    rw [DeclaratorTree.reduce, hreduce, (dims.eval_of_bounds hbounds).2, List.foldl_append]
    rfl
  | function d ih =>
    rw [DeclaratorTree.parts] at h
    obtain ⟨inner, hinner, hparts⟩ := bind_ok h
    cases hparts
    obtain ⟨identifier, hreduce⟩ := ih hinner
    refine ⟨identifier, ?_⟩
    rw [DeclaratorTree.reduce, hreduce, List.foldl_append]
    rfl

end Env

/-- Behind the first pointer the dimensions stay. -/
theorem foldl_pointer (parts : List DeclaratorPart) {decl : Declarator}
    (h : decl.pointer_flag = true) : parts.foldl applyPart decl = decl := by
  induction parts with
  | nil => rfl
  | cons part parts ih =>
    have hstep : applyPart decl part = decl := by
      cases part with
      | arrays bounds =>
        show postfixDecl decl (recordedBounds bounds) = decl
        unfold postfixDecl
        rw [if_pos h]
        exact ite_self decl
      | pointer =>
        unfold applyPart
        rw [← h]
      | function => rfl
    rw [List.foldl_cons, hstep, ih]

/-- A suffix is put in front of the dimensions that are there. -/
theorem postfixDecl_dims {decl : Declarator} (hplain : decl.isBitfield = false)
    (hpointer : decl.pointer_flag = false) (dims : List Value) :
    (postfixDecl decl dims).dims = dims ++ decl.dims ∧
      (postfixDecl decl dims).isBitfield = false ∧
      (postfixDecl decl dims).pointer_flag = false := by
  unfold postfixDecl
  by_cases hdims : dims = []
  · rw [if_pos hdims, hdims]
    exact ⟨rfl, hplain, hpointer⟩
  · have hflag : ¬ decl.pointer_flag = true := by
      rw [hpointer]
      exact Bool.false_ne_true
    rw [if_neg hdims, if_neg hflag]
    cases hext : decl.ext with
    | plain =>
      have hnone : decl.dims = [] := by rw [Declarator.dims, hext]
      rw [hnone, List.append_nil]
      exact ⟨rfl, rfl, hpointer⟩
    | array array =>
      have hdecl : decl.dims = array := by rw [Declarator.dims, hext]
      rw [hdecl]
      exact ⟨rfl, rfl, hpointer⟩
    | bitfield bit =>
      rw [Declarator.isBitfield, hext] at hplain
      exact absurd hplain Bool.noConfusion

/-- Where no function is declared, the suffixes before the first pointer are collected
from the outermost to the innermost one. -/
theorem foldl_applyPart (parts : List DeclaratorPart) (hobject : IsObject parts)
    {decl : Declarator} (hplain : decl.isBitfield = false) (hpointer : decl.pointer_flag = false) :
    (parts.foldl applyPart decl).dims =
        ((leadingArrays parts).map recordedBounds).reverse.flatten ++ decl.dims ∧
      ((parts.foldl applyPart decl).pointer_flag = true ↔
        elementPart parts = some .pointer) := by
  induction parts generalizing decl with
  | nil =>
    rw [List.foldl_nil, hpointer]
    exact ⟨rfl, iff_of_false Bool.false_ne_true (by simp [elementPart])⟩
  | cons part parts ih =>
    rw [List.foldl_cons]
    cases part with
    | arrays bounds =>
      obtain ⟨hdims, hbitfield, hflag⟩ :=
        postfixDecl_dims hplain hpointer (recordedBounds bounds)
      obtain ⟨hrest, hiff⟩ := ih hobject hbitfield hflag
      refine ⟨?_, hiff⟩
      show (parts.foldl applyPart (postfixDecl decl (recordedBounds bounds))).dims = _
      rw [hrest, hdims, leadingArrays, List.map_cons, List.reverse_cons, List.flatten_append,
        List.flatten_singleton, List.append_assoc]
    | pointer =>
      have hset : parts.foldl applyPart (applyPart decl .pointer) = applyPart decl .pointer :=
        foldl_pointer parts rfl
      rw [hset]
      exact ⟨rfl, iff_of_true rfl rfl⟩
    | function => exact absurd rfl hobject

/-- The recorded dimensions are right exactly when the order of the suffixes is free. -/
theorem recorded_iff (gs : List (List (Option Value))) :
    (gs.map recordedBounds).reverse.flatten.map some = gs.flatten ↔
      none ∉ gs.flatten ∧ gs.reverse.flatten = gs.flatten := by
  have hmap : none ∉ gs.flatten →
      (gs.map recordedBounds).reverse.flatten.map some = gs.reverse.flatten := by
    intro hbound
    have hsome : gs.map (fun bounds => (recordedBounds bounds).map some) = gs := by
      calc gs.map (fun bounds => (recordedBounds bounds).map some) = gs.map id := by
            apply List.map_congr_left
            intro bounds hmem
            exact map_recordedBounds fun h => hbound (List.mem_flatten.mpr ⟨bounds, hmem, h⟩)
        _ = gs := List.map_id gs
    rw [List.map_flatten, List.map_reverse, List.map_map]
    show (gs.map fun bounds => (recordedBounds bounds).map some).reverse.flatten = _
    rw [hsome]
  constructor
  · intro h
    have hbound : none ∉ gs.flatten := by
      rw [← h]
      intro hmem
      obtain ⟨v, _, hv⟩ := List.mem_map.mp hmem
      exact nomatch hv
    exact ⟨hbound, (hmap hbound).symm.trans h⟩
  · rintro ⟨hbound, hreversed⟩
    exact (hmap hbound).trans hreversed

/-- A pointer behind some parts ends the leading arrays. -/
theorem leadingArrays_pointer (parts rest : List DeclaratorPart) :
    leadingArrays (parts ++ .pointer :: rest) = leadingArrays parts := by
  induction parts with
  | nil => rfl
  | cons part parts ih =>
    cases part with
    | arrays bounds =>
      show bounds :: leadingArrays (parts ++ .pointer :: rest) = bounds :: leadingArrays parts
      rw [ih]
    | pointer => rfl
    | function => rfl

theorem pointer_mem_iff {parts : List DeclaratorPart} (hobject : IsObject parts) :
    .pointer ∈ parts ↔ elementPart parts = some .pointer := by
  induction parts with
  | nil => exact iff_of_false List.not_mem_nil (by simp [elementPart])
  | cons part parts ih =>
    cases part with
    | arrays bounds =>
      have hne : DeclaratorPart.pointer ≠ .arrays bounds := DeclaratorPart.noConfusion
      rw [List.mem_cons, or_iff_right hne]
      exact ih hobject
    | pointer => exact iff_of_true List.mem_cons_self rfl
    | function => exact absurd rfl hobject

section Abstract
variable {env : ExprEnv}

/-- The multiplicator of an abstract declarator is that of its leading array, of which
there is at most one. -/
theorem AbstractDeclarator.eval_of_parts : ∀ (decl : AbstractDeclarator)
    {parts : List DeclaratorPart}, decl.parts env = .ok parts →
    (leadingArrays parts).length ≤ 1 ∧
      decl.eval env = (multiplicator ((leadingArrays parts).map recordedBounds).flatten >>= fun m =>
        .ok (decide (.pointer ∈ parts), m))
  | .absent, parts, h => by
    cases h
    exact ⟨Nat.zero_le _, rfl⟩
  | .pointer decl, parts, h => by
    rw [AbstractDeclarator.parts] at h
    obtain ⟨inner, hinner, hparts⟩ := bind_ok h
    cases hparts
    obtain ⟨hlength, heval⟩ := AbstractDeclarator.eval_of_parts decl hinner
    have hmem : DeclaratorPart.pointer ∈ inner ++ [.pointer] :=
      List.mem_append_right _ List.mem_cons_self
    rw [leadingArrays_pointer, decide_eq_true hmem, AbstractDeclarator.eval, heval]
    refine ⟨hlength, ?_⟩
    cases multiplicator ((leadingArrays inner).map recordedBounds).flatten <;> rfl
  | .arrays dims, parts, h => by
    rw [AbstractDeclarator.parts] at h
    obtain ⟨bounds, hbounds, hparts⟩ := bind_ok h
    cases hparts
    rw [AbstractDeclarator.eval, (dims.eval_of_bounds hbounds).2]
    refine ⟨le_rfl, ?_⟩
    show (multiplicator (recordedBounds bounds) >>= fun m => _) =
      (multiplicator (recordedBounds bounds ++ []) >>= fun m => _)
    rw [List.append_nil]
    rfl
  | .function, parts, h => by
    cases h
    exact ⟨Nat.zero_le _, rfl⟩
  | .pointerTo decl dims, parts, h => by
    rw [AbstractDeclarator.parts] at h
    obtain ⟨inner, hinner, hnext⟩ := bind_ok h
    obtain ⟨bounds, hbounds, hparts⟩ := bind_ok hnext
    cases hparts
    obtain ⟨hlength, heval⟩ := AbstractDeclarator.eval_of_parts decl hinner
    have hmem : DeclaratorPart.pointer ∈ inner ++ [.pointer, .arrays bounds] :=
      List.mem_append_right _ List.mem_cons_self
    rw [leadingArrays_pointer, decide_eq_true hmem, AbstractDeclarator.eval, heval,
      (dims.eval_of_bounds hbounds).2]
    refine ⟨hlength, ?_⟩
    cases multiplicator ((leadingArrays inner).map recordedBounds).flatten <;> rfl
  | .pointerToFunction decl, parts, h => by
    rw [AbstractDeclarator.parts] at h
    obtain ⟨inner, hinner, hparts⟩ := bind_ok h
    cases hparts
    obtain ⟨hlength, heval⟩ := AbstractDeclarator.eval_of_parts decl hinner
    have hmem : DeclaratorPart.pointer ∈ inner ++ [.pointer, .function] :=
      List.mem_append_right _ List.mem_cons_self
    rw [leadingArrays_pointer, decide_eq_true hmem, AbstractDeclarator.eval, heval]
    refine ⟨hlength, ?_⟩
    cases multiplicator ((leadingArrays inner).map recordedBounds).flatten <;> rfl

end Abstract

theorem reduceOption_map_some (dims : List Value) : (dims.map some).reduceOption = dims := by
  show (dims.map some).filterMap id = dims
  rw [List.filterMap_map]
  exact List.filterMap_some

/-- A product that ints hold is what the multiplication by ints computes. -/
theorem multiplicator_eq_prod_iff (dims : List Value) :
    multiplicator dims = .ok (dims.map Value.iv).prod ↔
      ProductsFit 1 dims ∧ IsInt (dims.map Value.iv).prod := by
  have hproduct : product 1 dims = i32 (dims.map Value.iv).prod := by
    rw [product_int rfl, one_mul]
  rw [multiplicator, timesDims_ok_iff, hproduct]
  apply and_congr_right
  intro _
  constructor
  · intro h
    rw [h]
    unfold IsInt i32
    have hlow := Int.le_bmod (x := (dims.map Value.iv).prod) (m := 4294967296) (by decide)
    have hhigh := Int.bmod_lt (x := (dims.map Value.iv).prod) (m := 4294967296) (by decide)
    omega
  · intro h
    exact (i32_of_lt h.1 h.2).symm

section Right
variable {env : ExprEnv} {parts : List DeclaratorPart} (hobject : IsObject parts)
include hobject

theorem DeclaratorTree.right_iff {t : DeclaratorTree} (ht : t.parts env = .ok parts) :
    (∃ decl, t.reduce env = .ok decl ∧ RecordsParts parts decl) ↔ OrderFree parts := by
  obtain ⟨identifier, hreduce⟩ := t.reduce_of_parts ht
  have hplain : (declNew identifier).isBitfield = false := rfl
  obtain ⟨hdims, hpointer⟩ := foldl_applyPart parts hobject hplain rfl
  rw [show (declNew identifier).dims = [] from rfl, List.append_nil] at hdims
  have hiff := recorded_iff (leadingArrays parts)
  constructor
  · rintro ⟨decl, hdecl, hrecords⟩
    rw [hreduce] at hdecl
    cases hdecl
    have hrecorded := hrecords.dims
    rw [hdims] at hrecorded
    exact ⟨(hiff.mp hrecorded).1, (hiff.mp hrecorded).2⟩
  · rintro ⟨hbound, hreversed⟩
    refine ⟨_, hreduce, ?_, hpointer⟩
    rw [hdims]
    exact hiff.mpr ⟨hbound, hreversed⟩

theorem AbstractDeclarator.right_iff {decl : AbstractDeclarator}
    (hdecl : decl.parts env = .ok parts) :
    (∃ r, decl.eval env = .ok r ∧ CountsParts parts r) ↔ ProductFits parts := by
  obtain ⟨hlength, heval⟩ := decl.eval_of_parts hdecl
  -- without a star the one leading array is the list of the bounds
  have hdims : none ∉ arrayBounds parts →
      ((leadingArrays parts).map recordedBounds).flatten.map some = arrayBounds parts := by
    intro hbound
    unfold arrayBounds at hbound ⊢
    rcases hgs : leadingArrays parts with _ | ⟨bounds, _ | ⟨bounds', gs⟩⟩
    · rfl
    · rw [hgs, List.flatten_singleton] at hbound
      rw [List.map_singleton, List.flatten_singleton, List.flatten_singleton]
      exact map_recordedBounds hbound
    · rw [hgs, List.length_cons, List.length_cons] at hlength
      omega
  have hreduce : none ∉ arrayBounds parts →
      (arrayBounds parts).reduceOption = ((leadingArrays parts).map recordedBounds).flatten := by
    intro hbound
    rw [← hdims hbound, reduceOption_map_some]
  constructor
  · rintro ⟨⟨flag, m⟩, hr, ⟨dims, hsome, hprod⟩, -⟩
    have hbound : none ∉ arrayBounds parts := by
      rw [← hsome]
      intro hmem
      obtain ⟨v, _, hv⟩ := List.mem_map.mp hmem
      exact nomatch hv
    have hequal : (arrayBounds parts).reduceOption = dims := by
      rw [← hsome, reduceOption_map_some]
    have hm : multiplicator dims = .ok m := by
      rw [heval] at hr
      obtain ⟨m', hm', hmr⟩ := bind_ok hr
      cases hmr
      rwa [← hreduce hbound, hequal] at hm'
    have hvalue : m = (dims.map Value.iv).prod := hprod
    rw [hvalue] at hm
    obtain ⟨hfits, hint⟩ := (multiplicator_eq_prod_iff dims).mp hm
    refine ⟨hbound, ?_, ?_⟩
    · rw [hequal]
      exact hfits
    · rw [hequal]
      exact hint
  · rintro ⟨hbound, hfits, hint⟩
    rw [hreduce hbound] at hfits hint
    have hm := (multiplicator_eq_prod_iff _).mpr ⟨hfits, hint⟩
    have hpointer : decide (.pointer ∈ parts) = true ↔ elementPart parts = some .pointer := by
      rw [decide_eq_true_iff]
      exact pointer_mem_iff hobject
    rw [heval, hm]
    exact ⟨_, rfl, ⟨_, hdims hbound, rfl⟩, hpointer⟩

end Right

/-- The reduction of an object declarator is right exactly when it does not matter in
which order its suffixes before the first pointer are taken, and the reduction of an
abstract declarator exactly when the product of its bounds fits an int. -/
theorem declarators_right_iff (env : ExprEnv) {parts : List DeclaratorPart}
    (hobject : IsObject parts) :
    (∀ t : DeclaratorTree, t.parts env = .ok parts →
      ((∃ decl, t.reduce env = .ok decl ∧ RecordsParts parts decl) ↔ OrderFree parts)) ∧
    ∀ decl : AbstractDeclarator, decl.parts env = .ok parts →
      ((∃ r, decl.eval env = .ok r ∧ CountsParts parts r) ↔ ProductFits parts) :=
  ⟨fun _ ht => DeclaratorTree.right_iff hobject ht,
    fun _ hdecl => AbstractDeclarator.right_iff hobject hdecl⟩

def constantDimension (iv : ℤ) : Dimensions := .first (.constant iv)

def constantBound (iv : ℤ) : Option Value := some ⟨iv, false, false⟩

/-- The parts of `(*x[2])[3]` and of `(*[2])[3]`. -/
def pointerTableParts : List DeclaratorPart :=
  [.arrays [constantBound 2], .pointer, .arrays [constantBound 3]]

theorem declarators_right_iff_pointerTable :
    ((∃ decl, (DeclaratorTree.arrays (.paren (.pointer (.arrays (.name "x") (constantDimension 2))))
          (constantDimension 3)).reduce emptyEnv = .ok decl ∧
        RecordsParts pointerTableParts decl) ↔ OrderFree pointerTableParts) ∧
      ((∃ r, (AbstractDeclarator.pointerTo (.arrays (constantDimension 2))
          (constantDimension 3)).eval emptyEnv = .ok r ∧ CountsParts pointerTableParts r) ↔
        ProductFits pointerTableParts) := by
  have hobject : IsObject pointerTableParts := by decide
  have hright := declarators_right_iff emptyEnv hobject
  exact ⟨hright.1 _ rfl, hright.2 _ rfl⟩

/-- In `int (x[2])[3]` the suffixes change places: `x` is recorded as an array of three
arrays of two. -/
theorem grouped_suffix_first :
    (DeclaratorTree.arrays (.paren (.arrays (.name "x") (constantDimension 2)))
        (constantDimension 3)).parts emptyEnv =
      .ok [.arrays [constantBound 2], .arrays [constantBound 3]] ∧
    IsObject [.arrays [constantBound 2], .arrays [constantBound 3]] ∧
    (DeclaratorTree.arrays (.paren (.arrays (.name "x") (constantDimension 2)))
        (constantDimension 3)).reduce emptyEnv =
      .ok { declNew "x" with ext := .array [⟨3, false, false⟩, ⟨2, false, false⟩] } ∧
    ¬ RecordsParts [.arrays [constantBound 2], .arrays [constantBound 3]]
      { declNew "x" with ext := .array [⟨3, false, false⟩, ⟨2, false, false⟩] } := by
  refine ⟨rfl, by decide, rfl, ?_⟩
  intro hrecords
  have hdims := hrecords.dims
  revert hdims
  decide

end ConvertBinaryC
