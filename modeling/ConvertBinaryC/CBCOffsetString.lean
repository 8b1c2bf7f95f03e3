import ConvertBinaryC.CBCMember

/-! The member at an offset of a type: `append_member_string_rec`, `get_member_string_rec` and
`get_member_string` of `cbc/member.c`. -/
namespace ConvertBinaryC

inductive GMSRV where
  | none
  | pad
  | hitOff
  | hit
  deriving DecidableEq, Repr

/-- The values are compared as the enumeration orders them. -/
def GMSRV.rank : GMSRV → ℕ
  | .none => 0
  | .pad => 1
  | .hitOff => 2
  | .hit => 3

/-- The strings found, with the keys of the table of those in padding. -/
structure GMSInfo where
  hit : List String
  off : List String
  pad : List String
  htpad : List String
  deriving DecidableEq, Repr

def GMSInfo.empty : GMSInfo := ⟨[], [], [], []⟩

def GMSInfo.pushHit (info : GMSInfo) (sv : String) : GMSInfo := { info with hit := info.hit ++ [sv] }

def GMSInfo.pushOff (info : GMSInfo) (sv : String) : GMSInfo := { info with off := info.off ++ [sv] }

/-- Only what `HT_store` finds to be new is pushed. -/
def GMSInfo.pushPad (info : GMSInfo) (sv : String) : GMSInfo :=
  if sv ∈ info.htpad then info
  else { info with htpad := info.htpad ++ [sv], pad := info.pad ++ [sv] }

/-- A return value with `*sv` and `*pInfo` as they are then. -/
structure GmsFound where
  rval : GMSRV
  sv : String
  pInfo : Option GMSInfo
  deriving DecidableEq, Repr

/-- `GMS_HANDLE_PAD_REGION` -/
def gmsPadRegion (realoffset : ℤ) (sv : String) (pInfo : Option GMSInfo) : GmsFound :=
  let sv := sv ++ ("+" ++ toString realoffset)
  ⟨.pad, sv, pInfo.map fun info => info.pushPad sv⟩

/-- What is neither searched nor padding; an offset into it is written behind it. -/
def gmsHit (offset : ℤ) (sv : String) (pInfo : Option GMSInfo) : GmsFound :=
  if 0 < offset then
    let sv := sv ++ ("+" ++ toString offset)
    ⟨.hitOff, sv, pInfo.map fun info => info.pushOff sv⟩
  else ⟨.hit, sv, pInfo.map fun info => info.pushHit sv⟩

/-- What has been found in a union. -/
structure GmsBest where
  best : GMSRV
  bestSV : Option String
  deriving DecidableEq, Repr

def GmsBest.start : GmsBest := ⟨.none, none⟩

/-- `GMS_HANDLE_BEST_MEMBER` up to its jump. -/
def GmsBest.take (b : GmsBest) (rval : GMSRV) (tmpSV : String) : GmsBest :=
  if b.best.rank < rval.rank then ⟨rval, some tmpSV⟩ else b

/-- How a turn or a loop ends: at its end, with a return or at `handle_union_end`. -/
inductive GmsLoop where
  | next (b : GmsBest) (pInfo : Option GMSInfo)
  | leave (found : GmsFound)
  | unionEnd (b : GmsBest) (pInfo : Option GMSInfo)
  deriving DecidableEq, Repr

abbrev GmsLoopFn := GmsBest → Option GMSInfo → Call GmsLoop

/-- A loop that is not left goes on with its `rest`. -/
def GmsLoop.andThen (loop : GmsLoop) (rest : GmsLoopFn) : Call GmsLoop :=
  match loop with
  | .next b pInfo => rest b pInfo
  | loop => .ok loop

abbrev GmsStructFn := ℕ → ℤ → ℤ → String → Option GMSInfo → Call GmsFound

/-- The indices that lead to an offset, and what is left of it behind them. -/
def gmsDims : List Value → ℤ → ℤ → String → Call (ℤ × String)
  | [], _, offset, sv => .ok (offset, sv)
  | pValue :: dims, size, offset, sv => do
    let size ← divideInt size pValue.iv
    let index ← divideInt offset size
    gmsDims dims size (offset - index * size) (sv ++ ("[" ++ toString index ++ "]"))

section Append
variable (heap : Heap)

/-- The loop over a declarator and the typedefs behind it. -/
def gmsChain (follow : ℕ) :
    ℕ → TypeSpec → Declarator → ℤ → String → Call (TypeSpec × Declarator × ℤ × String)
  | 0, _, _, _, _ => .error .outOfFuel
  | fuel + 1, pType, pDecl, offset, sv =>
    if pDecl.size < 0 then
      .error (.fatal "pDecl->size is not initialized in append_member_string_rec()")
    else do
      let (offset, sv) ← gmsDims pDecl.dims pDecl.size offset sv
      if pDecl.pointer_flag then .ok (pType, pDecl, offset, sv)
      else match pType with
        | .typedef t => do
          let (pType, pDecl) ← gmTypedefs heap follow t
          gmsChain follow fuel pType pDecl offset sv
        | _ => .ok (pType, pDecl, offset, sv)

/-- A turn of the loop writes the indices, and then ends or goes on with a typedef. -/
theorem gmsChain_ok {follow fuel : ℕ} {pType : TypeSpec} {pDecl : Declarator} {offset : ℤ}
    {sv : String} {result : TypeSpec × Declarator × ℤ × String}
    (h : gmsChain heap follow (fuel + 1) pType pDecl offset sv = .ok result) :
    0 ≤ pDecl.size ∧ ∃ rest text,
      gmsDims pDecl.dims pDecl.size offset sv = .ok (rest, text) ∧
      (((pDecl.pointer_flag = true ∨ ∀ t, pType ≠ .typedef t) ∧ result = (pType, pDecl, rest, text)) ∨
        (pDecl.pointer_flag = false ∧ ∃ t, pType = .typedef t ∧ ∃ next,
          gmTypedefs heap follow t = .ok next ∧
          gmsChain heap follow fuel next.1 next.2 rest text = .ok result)) := by
  unfold gmsChain at h
  by_cases hsize : pDecl.size < 0
  · rw [if_pos hsize] at h
    exact nomatch h
  rw [if_neg hsize] at h
  obtain ⟨⟨rest, text⟩, hdims, h⟩ := FoldRules.bind_ok h
  refine ⟨not_lt.mp hsize, rest, text, hdims, ?_⟩
  dsimp only at h
  by_cases hpointer : pDecl.pointer_flag = true
  · rw [if_pos hpointer] at h
    cases h
    exact .inl ⟨.inl hpointer, rfl⟩
  rw [if_neg hpointer] at h
  cases pType with
  | typedef t =>
    obtain ⟨next, hnext, h⟩ := FoldRules.bind_ok h
    exact .inr ⟨Bool.eq_false_of_not_eq_true hpointer, t, rfl, next, hnext, h⟩
  | _ =>
    cases h
    exact .inl ⟨.inr fun t ht => (nomatch ht), rfl⟩

variable (fuel : ℕ) (structRec : GmsStructFn)

/-- The end of `append_member_string_rec`: a compound is searched, and anything else is hit. -/
def gmsTarget (pType : TypeSpec) (pointer : Bool) (offset : ℤ) (sv : String)
    (pInfo : Option GMSInfo) : Call GmsFound :=
  match pointer, pType with
  | false, .compound _ s => structRec s offset offset sv pInfo
  | _, _ => .ok (gmsHit offset sv pInfo)

/-- The part behind the first two conditions, with a declarator. -/
def gmsDeclared (pType : TypeSpec) (pDecl : Declarator) (offset : ℤ) (sv : String)
    (pInfo : Option GMSInfo) : Call GmsFound := do
  let offset := if 0 < pDecl.offset then offset - pDecl.offset else offset
  let (pType, pDecl, offset, sv) ← gmsChain heap fuel fuel pType pDecl offset sv
  gmsTarget structRec pType pDecl.pointer_flag offset sv pInfo

def appendMemberString (pType : TypeSpec) (pDecl : Option Declarator) (offset : ℤ) (sv : String)
    (pInfo : Option GMSInfo) : Call GmsFound :=
  match pDecl, pType with
  | some pDecl, pType =>
    let sv := if pDecl.identifier = "" then sv else sv ++ ("." ++ pDecl.identifier)
    gmsDeclared heap fuel structRec pType pDecl offset sv pInfo
  | none, .typedef t =>
    gmsDeclared heap fuel structRec (heap.typedefAt t).type (heap.typedefAt t).decl offset sv pInfo
  | none, pType => gmsTarget structRec pType false offset sv pInfo

end Append

section Struct
variable (heap : Heap) (fuel : ℕ) (structRec : GmsStructFn) (isUnion : Bool)
  (offset realoffset : ℤ) (sv : String)

/-- What a member that may be the one gives: in a struct it is returned, in a union it is ranked. -/
def gmsMember (found : GmsFound) (b : GmsBest) : GmsLoop :=
  if isUnion then
    let b := b.take found.rval found.sv
    if b.best = .hit ∧ found.pInfo = none then .unionEnd b found.pInfo else .next b found.pInfo
  else .leave found

/-- Does a part at this place contain the offset? -/
def gmsCovers (start size : ℤ) : Call Bool := do
  let last ← int (start + size)
  .ok (decide (start ≤ offset ∧ offset < last))

/-- A turn of a loop, at a declaration or a declarator, and the `rest` of the loop. -/
def gmsTurn (start size : ℤ) (visit rest : GmsLoopFn) : GmsLoopFn := fun b pInfo =>
  if offset < start then .ok (.leave (gmsPadRegion realoffset sv pInfo))
  else do
    if ← gmsCovers offset start size then do
      let loop ← visit b pInfo
      loop.andThen rest
    else rest b pInfo

def gmsDeclarator (pType : TypeSpec) (pDecl : Declarator) : GmsLoopFn := fun b pInfo => do
  let found ← appendMemberString heap fuel structRec pType (some pDecl) offset sv pInfo
  .ok (gmsMember isUnion found b)

def gmsDeclarators (pType : TypeSpec) : List Declarator → GmsLoopFn
  | [] => fun b pInfo => .ok (.next b pInfo)
  | pDecl :: declarators =>
    gmsTurn offset realoffset sv pDecl.offset pDecl.size
      (gmsDeclarator heap fuel structRec isUnion offset sv pType pDecl)
      (gmsDeclarators pType declarators)

/-- The compound of an unnamed member. -/
def gmsUnnamed (pStructDecl : StructDeclaration) : GmsLoopFn := fun b pInfo => do
  let s ← followTsptr heap fuel pStructDecl.type
  let inner := if isUnion then offset else offset - pStructDecl.offset
  let found ← structRec s inner realoffset sv pInfo
  .ok (gmsMember isUnion found b)

def gmsDeclaration (pStructDecl : StructDeclaration) : GmsLoopFn :=
  match pStructDecl.declarators with
  | none => gmsUnnamed heap fuel structRec isUnion offset realoffset sv pStructDecl
  | some declarators =>
    gmsDeclarators heap fuel structRec isUnion offset realoffset sv pStructDecl.type declarators

def gmsDeclarations : List StructDeclaration → GmsLoopFn
  | [] => fun b pInfo => .ok (.next b pInfo)
  | pStructDecl :: declarations =>
    gmsTurn offset realoffset sv pStructDecl.offset pStructDecl.size
      (gmsDeclaration heap fuel structRec isUnion offset realoffset sv pStructDecl)
      (gmsDeclarations declarations)

/-- The end of `get_member_string_rec`. -/
def gmsFinish : GmsLoop → Call GmsFound
  | .leave found => .ok found
  | .next b pInfo =>
    match isUnion, b.bestSV with
    | true, some bestSV => .ok ⟨b.best, bestSV, pInfo⟩
    | _, _ => .ok (gmsPadRegion realoffset sv pInfo)
  | .unionEnd b pInfo =>
    if isUnion = false then .error (.fatal "not a union!")
    else match b.bestSV with
      | some bestSV => .ok ⟨b.best, bestSV, pInfo⟩
      | none => .error (.fatal "bestSV not set!")

end Struct

section Strings
variable (heap : Heap)

/-- `get_member_string_rec`; a compound without a body has no members. -/
def getMemberStringRec : ℕ → GmsStructFn
  | 0 => fun _ _ _ _ _ => .error .outOfFuel
  | fuel + 1 => fun s offset realoffset sv pInfo =>
    let isUnion := decide ((heap.structAt s).kind = .union)
    match (heap.structAt s).declarations with
    | none => .ok ⟨.none, sv, pInfo⟩
    | some declarations => do
      let loop ← gmsDeclarations heap fuel (getMemberStringRec fuel) isUnion offset realoffset sv
        declarations .start pInfo
      gmsFinish isUnion realoffset sv loop

/-- The dimensions of the type that are not indexed yet. -/
def gmsRemainder (pMI : MemberInfo) (offset : ℤ) : Call (ℤ × String) :=
  match pMI.pDecl with
  | some pDecl => gmsDims (pDecl.dims.drop pMI.level) (i32 pMI.size) offset ""
  | none => .ok (offset, "")

/-- `get_member_string`; the string is undefined if nothing has been found. -/
def getMemberString (fuel : ℕ) (pMI : MemberInfo) (offset : ℤ) (pInfo : Option GMSInfo) :
    Call (Option String × Option GMSInfo) := do
  let (offset, sv) ← gmsRemainder pMI offset
  let found ← appendMemberString heap fuel (getMemberStringRec heap fuel) pMI.type none offset sv pInfo
  .ok (if found.rval = .none then none else some found.sv, found.pInfo)

end Strings

end ConvertBinaryC
