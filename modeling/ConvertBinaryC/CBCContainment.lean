import ConvertBinaryC.CBCUnpack
import ConvertBinaryC.CBCMemberStrings
import ConvertBinaryC.CBCInitializer
import ConvertBinaryC.DescentRules

/-! What a type contains by value, and the recursions over types: where containment is well-founded
some depth is enough for each of them. -/
namespace ConvertBinaryC

open DescentRules Filter Relation

/-- An object that can contain others. `unnamed` is a typedef that stands for an unnamed member,
whose compound `FOLLOW_AND_CHECK_TSPTR` looks for behind a pointer or an array, too. -/
inductive TypeObject where
  | compound (s : ℕ)
  | typedef (t : ℕ)
  | unnamed (t : ℕ)
  deriving DecidableEq, Repr

def TypeSpec.objects : TypeSpec → List TypeObject
  | .compound _ s => [.compound s]
  | .typedef t => [.typedef t]
  | _ => []

def TypeSpec.unnamedObjects : TypeSpec → List TypeObject
  | .compound _ s => [.compound s]
  | .typedef t => [.unnamed t]
  | _ => []

/-- A declaration contains its type unless all of its declarators are pointers. -/
def StructDeclaration.parts (sd : StructDeclaration) : List TypeObject :=
  match sd.declarators with
  | some ds => if ds.any fun d => !d.pointer_flag then sd.type.objects else []
  | none => sd.type.unnamedObjects

def declaredParts (declarations : Option (List StructDeclaration)) : List TypeObject :=
  (declarations.getD []).flatMap StructDeclaration.parts

def Typedef.parts (td : Typedef) : List TypeObject :=
  if td.decl.pointer_flag then [] else td.type.objects

def Typedef.unnamedParts (td : Typedef) : List TypeObject :=
  match td.type with
  | .typedef t => if td.decl.pointer_flag = false ∧ td.decl.isArray = false then [.unnamed t] else []
  | type => type.objects

def Heap.parts (heap : Heap) : TypeObject → List TypeObject
  | .compound s => declaredParts (heap.structAt s).declarations
  | .typedef t => (heap.typedefAt t).parts
  | .unnamed t => (heap.typedefAt t).unnamedParts

/-- By-value containment: `part` is a member, an element or the meaning of `whole`. -/
def Heap.Contains (heap : Heap) (part whole : TypeObject) : Prop := part ∈ heap.parts whole

/-- A recursion over types with a bounded depth: `type n` and `struct n` say that a depth of `n` is
enough. -/
structure TypeRecursion (heap : Heap) where
  type : ℕ → TypeSpec → Option Declarator → ℕ → Prop
  struct : ℕ → ℕ → Prop
  element : ∀ {n pTS d dimension}, dimension < d.dims.length →
    type n pTS (some d) (dimension + 1) → type (n + 1) pTS (some d) dimension
  pointer : ∀ {n pTS d dimension}, d.dims.length ≤ dimension → d.pointer_flag = true →
    type (n + 1) pTS (some d) dimension
  typedef : ∀ {n t pDecl dimension},
    (∀ d ∈ pDecl, d.dims.length ≤ dimension ∧ d.pointer_flag = false) →
    type n (heap.typedefAt t).type (some (heap.typedefAt t).decl) 0 →
      type (n + 1) (.typedef t) pDecl dimension
  compound : ∀ {n kind s pDecl dimension},
    (∀ d ∈ pDecl, d.dims.length ≤ dimension ∧ d.pointer_flag = false) →
    struct n s → type (n + 1) (.compound kind s) pDecl dimension
  leaf : ∀ {n pTS pDecl dimension}, pTS.objects = [] →
    (∀ d ∈ pDecl, d.dims.length ≤ dimension ∧ d.pointer_flag = false) →
    type (n + 1) pTS pDecl dimension
  members : ∀ {n s},
    (∀ sd ∈ (heap.structAt s).declarations.getD [], ∀ ds, sd.declarators = some ds →
      ∀ d ∈ ds, type n sd.type (some d) 0) →
    (∀ sd ∈ (heap.structAt s).declarations.getD [], sd.declarators = none →
      followTsptr heap n sd.type ≠ .error .outOfFuel ∧
        ∀ s', followTsptr heap n sd.type = .ok s' → struct n s') → struct (n + 1) s

namespace TypeRecursion
variable {heap : Heap} (R : TypeRecursion heap)

/-- Some depth is enough for an object. -/
def Ready : TypeObject → Prop
  | .compound s => ∀ᶠ n in atTop, R.struct n s
  | .typedef t =>
    ∀ᶠ n in atTop, R.type n (heap.typedefAt t).type (some (heap.typedefAt t).decl) 0
  | .unnamed t => ∃ type, (∀ᶠ n in atTop, followTypedef heap n t = .ok type) ∧
    ∀ kind s, type = .compound kind s → ∀ᶠ n in atTop, R.struct n s

variable {R} {pTS : TypeSpec}

/-- Some depth is enough for a type behind all dimensions. -/
theorem ready_object {pDecl : Option Declarator} {dimension : ℕ}
    (hover : ∀ d ∈ pDecl, d.dims.length ≤ dimension)
    (hready : (∀ d ∈ pDecl, d.pointer_flag = false) → ∀ o ∈ pTS.objects, R.Ready o) :
    ∀ᶠ n in atTop, R.type n pTS pDecl dimension := by
  by_cases hpointer : ∀ d ∈ pDecl, d.pointer_flag = false
  · have hplain : ∀ d ∈ pDecl, d.dims.length ≤ dimension ∧ d.pointer_flag = false :=
      fun d hd => ⟨hover d hd, hpointer d hd⟩
    have hobjects := hready hpointer
    cases pTS with
    | typedef t =>
      have ht : R.Ready (.typedef t) := hobjects _ List.mem_cons_self
      exact eventually_succ ht fun n hn => R.typedef hplain hn
    | compound kind s =>
      have hs : R.Ready (.compound s) := hobjects _ List.mem_cons_self
      exact eventually_succ hs fun n hn => R.compound hplain hn
    | basic tflags =>
      exact eventually_succ (Eventually.of_forall fun _ => trivial) fun n _ => R.leaf rfl hplain
    | enum pES =>
      exact eventually_succ (Eventually.of_forall fun _ => trivial) fun n _ => R.leaf rfl hplain
  · push Not at hpointer
    obtain ⟨d, hd, hflag⟩ := hpointer
    have hdecl : pDecl = some d := hd
    subst hdecl
    have hpointer : d.pointer_flag = true := by simpa using hflag
    exact eventually_succ (Eventually.of_forall fun _ => trivial) fun n _ =>
      R.pointer (hover d rfl) hpointer

/-- Some depth is enough for a declarator, from any of its dimensions on. -/
theorem ready_declarator {d : Declarator} (hready : d.pointer_flag = false →
    ∀ o ∈ pTS.objects, R.Ready o) (dimension : ℕ) :
    ∀ᶠ n in atTop, R.type n pTS (some d) dimension := by
  -- on the number of dimensions that are left
  induction hleft : d.dims.length - dimension generalizing dimension with
  | zero =>
    apply ready_object
    · intro d' hd'
      cases hd'
      omega
    · exact fun hflag => hready (hflag d rfl)
  | succ left ih =>
    have hnext := ih (dimension + 1) (by omega)
    exact eventually_succ hnext fun n hn => R.element (by omega) hn

theorem ready_followTsptr {sd : StructDeclaration}
    (hready : ∀ o ∈ sd.type.unnamedObjects, R.Ready o) :
    ∀ᶠ n in atTop, followTsptr heap n sd.type ≠ .error .outOfFuel ∧
      ∀ s, followTsptr heap n sd.type = .ok s → R.struct n s := by
  cases htype : sd.type with
  | compound kind s =>
    rw [htype] at hready
    have hs : R.Ready (.compound s) := hready _ List.mem_cons_self
    filter_upwards [hs] with n hn
    refine ⟨by simp [followTsptr], ?_⟩
    intro s' hs'
    cases hs'
    exact hn
  | typedef t =>
    rw [htype] at hready
    obtain ⟨type, hfollow, hstruct⟩ : R.Ready (.unnamed t) := hready _ List.mem_cons_self
    cases type with
    | compound kind s =>
      filter_upwards [hfollow, hstruct kind s rfl] with n hn hs
      have hend : followTsptr heap n (.typedef t) = .ok s := by
        unfold followTsptr
        dsimp only
        rw [hn]
        rfl
      rw [hend]
      refine ⟨by simp, ?_⟩
      intro s' hs'
      cases hs'
      exact hs
    | _ =>
      filter_upwards [hfollow] with n hn
      have hend : followTsptr heap n (.typedef t) =
          .error (.fatal "Unnamed member was not struct or union") := by
        unfold followTsptr
        dsimp only
        rw [hn]
        rfl
      rw [hend]
      exact ⟨by simp, by simp⟩
  | _ => exact Eventually.of_forall fun n => ⟨by simp [followTsptr], by simp [followTsptr]⟩

theorem ready_unnamed {t : ℕ} (hready : ∀ o ∈ (heap.typedefAt t).unnamedParts, R.Ready o) :
    R.Ready (.unnamed t) := by
  unfold Typedef.unnamedParts at hready
  cases htype : (heap.typedefAt t).type with
  | typedef u =>
    simp only [htype] at hready
    by_cases hgoes : (heap.typedefAt t).decl.pointer_flag = false ∧
        (heap.typedefAt t).decl.isArray = false
    · rw [if_pos hgoes] at hready
      obtain ⟨type, hfollow, hstruct⟩ := hready _ List.mem_cons_self
      refine ⟨type, ?_, hstruct⟩
      apply eventually_succ hfollow
      intro n hn
      simp only [followTypedef, htype, if_pos hgoes, hn]
    · refine ⟨.typedef u, ?_, fun _ _ h => by cases h⟩
      apply eventually_succ (Eventually.of_forall fun _ => trivial)
      intro n _
      simp only [followTypedef, htype, if_neg hgoes]
  | compound kind s =>
    simp only [htype] at hready
    refine ⟨.compound kind s, ?_, ?_⟩
    · apply eventually_succ (Eventually.of_forall fun _ => trivial)
      intro n _
      simp only [followTypedef, htype]
    · intro kind' s' hcompound
      cases hcompound
      exact hready (.compound s) List.mem_cons_self
  | basic tflags =>
    refine ⟨.basic tflags, ?_, fun _ _ h => by cases h⟩
    apply eventually_succ (Eventually.of_forall fun _ => trivial)
    intro n _
    simp only [followTypedef, htype]
  | enum pES =>
    refine ⟨.enum pES, ?_, fun _ _ h => by cases h⟩
    apply eventually_succ (Eventually.of_forall fun _ => trivial)
    intro n _
    simp only [followTypedef, htype]

theorem ready_compound {s : ℕ}
    (hready : ∀ o ∈ declaredParts (heap.structAt s).declarations, R.Ready o) :
    R.Ready (.compound s) := by
  have hparts (sd : StructDeclaration) (hsd : sd ∈ (heap.structAt s).declarations.getD []) :
      ∀ o ∈ sd.parts, R.Ready o :=
    fun o ho => hready o (List.mem_flatMap.mpr ⟨sd, hsd, ho⟩)
  have hnamed : ∀ᶠ n in atTop, ∀ sd ∈ (heap.structAt s).declarations.getD [],
      ∀ d ∈ sd.declarators.getD [], R.type n sd.type (some d) 0 := by
    apply eventually_forall_mem
    intro sd hsd
    apply eventually_forall_mem
    intro d hd
    apply ready_declarator
    intro hflag o ho
    apply hparts sd hsd
    unfold StructDeclaration.parts
    cases hds : sd.declarators with
    | none =>
      rw [hds] at hd
      exact absurd hd List.not_mem_nil
    | some ds =>
      rw [hds] at hd
      have hany : (ds.any fun d => !d.pointer_flag) = true :=
        List.any_eq_true.mpr ⟨d, hd, by rw [hflag]; rfl⟩
      dsimp only
      rwa [if_pos hany]
  have hunnamed : ∀ᶠ n in atTop, ∀ sd ∈ (heap.structAt s).declarations.getD [],
      sd.declarators = none → followTsptr heap n sd.type ≠ .error .outOfFuel ∧
        ∀ s', followTsptr heap n sd.type = .ok s' → R.struct n s' := by
    apply eventually_forall_mem
    intro sd hsd
    cases hds : sd.declarators with
    | some ds => exact Eventually.of_forall fun n hnone => by cases hnone
    | none =>
      have hfollow : ∀ o ∈ sd.type.unnamedObjects, R.Ready o := by
        intro o ho
        apply hparts sd hsd
        unfold StructDeclaration.parts
        rwa [hds]
      filter_upwards [ready_followTsptr hfollow] with n hn
      exact fun _ => hn
  apply eventually_succ (hnamed.and hunnamed)
  intro n hn
  apply R.members
  · intro sd hsd ds hds d hd
    apply hn.1 sd hsd d
    rwa [hds]
  · exact hn.2

/-- Where containment is well-founded, some depth is enough for every object. -/
theorem ready (R : TypeRecursion heap) (hwf : WellFounded heap.Contains) (o : TypeObject) :
    R.Ready o := by
  induction o using hwf.induction with
  | h o ih =>
    cases o with
    | compound s => exact ready_compound fun o ho => ih o ho
    | unnamed t => exact ready_unnamed fun o ho => ih o ho
    | typedef t =>
      apply ready_declarator
      intro hflag o ho
      apply ih
      show o ∈ (heap.typedefAt t).parts
      rwa [Typedef.parts, hflag, if_neg Bool.false_ne_true]

/-- Where containment is well-founded, some depth is enough for every type. -/
theorem ends (R : TypeRecursion heap) (hwf : WellFounded heap.Contains) (pTS : TypeSpec)
    (pDecl : Option Declarator) (dimension : ℕ) :
    ∀ᶠ n in atTop, R.type n pTS pDecl dimension := by
  cases pDecl with
  | some d => exact ready_declarator (fun _ o _ => R.ready hwf o) dimension
  | none =>
    apply ready_object
    · exact fun d hd => by cases hd
    · exact fun _ o _ => R.ready hwf o

end TypeRecursion
end ConvertBinaryC
