import ConvertBinaryC.CBCSourcify

/-! The pack pragmas of the emitted source: which compound bodies are written
inside which, and the pack value that a parser of the text has in force at the
closing brace of each of them. -/
namespace ConvertBinaryC

/-- A compound body as it stands in the text, with the bodies written inside it. -/
inductive Expansion where
  | body (pStruct : ℕ) (inner : List Expansion)

/-- What a parser of the emitted text keeps: its pack stack, and the pack values
it gave to the compounds it completed. -/
structure Reparse where
  pragma : PragmaState
  packs : List (ℕ × ℤ)

def Reparse.read (r : Reparse) : Piece → Reparse
  | .packPush n => { r with pragma := pragmaPack r.pragma (.push n) }
  | .packPop => { r with pragma := pragmaPack r.pragma .pop }
  | .bodyClose id => { r with packs := r.packs ++ [(id, r.pragma.current)] }
  | _ => r

def readText (r : Reparse) (pieces : List Piece) : Reparse := pieces.foldl Reparse.read r

def packInside (pack : ℕ → ℤ) (p : ℤ) (id : ℕ) : ℤ :=
  if pack id ≠ 0 then pack id else p

mutual

/-- The compounds an expansion completes and the pack value in force there, when
`p` is in force where it starts. -/
def Expansion.closings (pack : ℕ → ℤ) (p : ℤ) : Expansion → List (ℕ × ℤ)
  | .body id inner =>
    closingsOf pack (packInside pack p id) inner ++ [(id, packInside pack p id)]

def closingsOf (pack : ℕ → ℤ) (p : ℤ) : List Expansion → List (ℕ × ℤ)
  | [] => []
  | e :: es => e.closings pack p ++ closingsOf pack p es

end

mutual

/-- No compound of the default packing is written out inside a packed one. -/
def Expansion.PackNested (pack : ℕ → ℤ) (packed : Prop) : Expansion → Prop
  | .body id inner => (packed → pack id ≠ 0) ∧ PackNestedAll pack (packed ∨ pack id ≠ 0) inner

def PackNestedAll (pack : ℕ → ℤ) (packed : Prop) : List Expansion → Prop
  | [] => True
  | e :: es => e.PackNested pack packed ∧ PackNestedAll pack packed es

end

theorem closingsOf_append (pack : ℕ → ℤ) (p : ℤ) (es fs : List Expansion) :
    closingsOf pack p (es ++ fs) = closingsOf pack p es ++ closingsOf pack p fs := by
  induction es with
  | nil => rfl
  | cons e es ih => simp only [List.cons_append, closingsOf, ih, List.append_assoc]

mutual

theorem closings_preserve_iff (pack : ℕ → ℤ) (p : ℤ) (packed : Prop)
    (hp : packed ↔ p ≠ 0) : (e : Expansion) →
    ((∀ c ∈ e.closings pack p, c.2 = pack c.1) ↔ e.PackNested pack packed)
  | .body id inner => by
    have hin : (packed ∨ pack id ≠ 0) ↔ packInside pack p id ≠ 0 := by
      unfold packInside
      split_ifs with h <;> simp [h, hp]
    have hhere : packInside pack p id = pack id ↔ (packed → pack id ≠ 0) := by
      unfold packInside
      split_ifs with h
      · simp [h]
      · rw [not_not.mp h, hp]
        tauto
    simp only [Expansion.closings, Expansion.PackNested, List.forall_mem_append,
      List.forall_mem_singleton, hhere,
      closingsOf_preserve_iff pack (packInside pack p id) (packed ∨ pack id ≠ 0) hin inner]
    exact and_comm

theorem closingsOf_preserve_iff (pack : ℕ → ℤ) (p : ℤ) (packed : Prop)
    (hp : packed ↔ p ≠ 0) : (es : List Expansion) →
    ((∀ c ∈ closingsOf pack p es, c.2 = pack c.1) ↔ PackNestedAll pack packed es)
  | [] => by simp [closingsOf, PackNestedAll]
  | e :: es => by
    simp only [closingsOf, PackNestedAll, List.forall_mem_append,
      closings_preserve_iff pack p packed hp e, closingsOf_preserve_iff pack p packed hp es]

end

/-! The expansions of a type database, found by following the marks alone. -/

structure Walk where
  tops : List Expansion
  inner : List Expansion
  structDumped : ℕ → Bool

section

variable (heap : Heap) (tfuel : ℕ) (rec : Walk → ℕ → Call Walk)

def walkTop (w : Walk) (id : ℕ) : Call Walk := do
  let r ← rec { w with inner := [] } id
  .ok { r with tops := r.tops ++ r.inner, inner := w.inner }

def walkDefine (w : Walk) (pTS : TypeSpec) : Call Walk := do
  match ← definedType heap tfuel pTS with
  | some (.compound _ id) => if w.structDumped id then .ok w else walkTop rec w id
  | _ => .ok w

def walkType (w : Walk) (dontExpand : Bool) : TypeSpec → Call Walk
  | .compound _ id =>
    if (heap.structAt id).identifier ≠ "" ∧ (w.structDumped id = true ∨ dontExpand = true) then
      .ok w
    else rec w id
  | _ => .ok w

def walkDecl (w : Walk) (sd : StructDeclaration) : Call Walk := do
  let w ← walkType heap rec w (!sd.needDef) sd.type
  if sd.needDef then walkDefine heap tfuel rec w sd.type else .ok w

def walkBody (w : Walk) (id : ℕ) : Call Walk :=
  let marked : Walk := { w with structDumped := Function.update w.structDumped id true }
  match (heap.structAt id).declarations with
  | none => .ok marked
  | some sds => do
    let r ← sds.foldlM (walkDecl heap tfuel rec) { marked with inner := [] }
    .ok { r with inner := w.inner ++ [.body id r.inner] }

end

def walkStruct (heap : Heap) (tfuel : ℕ) : ℕ → Walk → ℕ → Call Walk
  | 0 => fun _ _ => .error .outOfFuel
  | fuel + 1 => walkBody heap tfuel (walkStruct heap tfuel fuel)

section

variable (heap : Heap) (rec : Walk → ℕ → Call Walk)

def walkTypedefList (w : Walk) (pTDL : TypedefList) : Call Walk :=
  match pTDL.type with
  | .compound _ id => if (heap.structAt id).identifier = "" then walkTop rec w id else .ok w
  | _ => .ok w

def walkDefined (w : Walk) (id : ℕ) : Call Walk :=
  let pStruct := heap.structAt id
  if pStruct.declarations.isSome && pStruct.identifier != "" && !w.structDumped id then
    walkTop rec w id
  else .ok w

def walkUndefined (w : Walk) (id : ℕ) : Call Walk := do
  let pStruct := heap.structAt id
  let w ← (if !w.structDumped id && pStruct.refcount == 0 &&
      (pStruct.declarations.isSome || pStruct.identifier != "") then walkTop rec w id
    else .ok w : Call Walk)
  .ok { w with structDumped := Function.update w.structDumped id false }

end

/-- The outermost bodies of the text of a type database, in their order. -/
def expansions (fuel : ℕ) (pCPI : CParseInfo) (structDumped : ℕ → Bool) :
    Call (List Expansion) := do
  let expand := walkStruct pCPI.heap fuel fuel
  let w ← pCPI.typedef_lists.foldlM (walkTypedefList pCPI.heap expand) ⟨[], [], structDumped⟩
  let w ← pCPI.structs.foldlM (walkDefined pCPI.heap expand) w
  let w ← pCPI.structs.foldlM (walkUndefined pCPI.heap expand) w
  .ok w.tops

end ConvertBinaryC
