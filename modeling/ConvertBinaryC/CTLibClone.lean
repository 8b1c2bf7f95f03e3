import ConvertBinaryC.ArenaRules
import ConvertBinaryC.CTLibParserContainment

/-! `clone_parse_info` (`ctlib/ctparse.c`). All objects are copied first, with the pointers of the
source in their type specifiers, while a table collects where the copy of each object is. The last
loops look these pointers up. -/
namespace ConvertBinaryC
open ArenaRules FoldRules

/-- The type objects in memory, by kind. -/
structure TypeMemory where
  enumerators : Arena Enumerator
  enums : Arena EnumObject
  structs : Arena Struct
  typedefs : Arena Typedef

/-- The lists and tables of a `CParseInfo`. -/
structure ParseTables where
  enums : List ℕ
  structs : List ℕ
  typedef_lists : List TypedefList
  htEnumerators : String → Option ℕ
  htEnums : String → Option ℕ
  htStructs : String → Option ℕ
  htTypedefs : String → Option ℕ

def ParseTables.empty : ParseTables where
  enums := []
  structs := []
  typedef_lists := []
  htEnumerators := fun _ => none
  htEnums := fun _ => none
  htStructs := fun _ => none
  htTypedefs := fun _ => none

/-- All typedefs of the typedef lists. -/
def ParseTables.typedefs (cpi : ParseTables) : List ℕ := cpi.typedef_lists.flatMap TypedefList.typedefs

/-- `ptrmap`: where the clone of an object is. -/
abbrev PtrMap := ParserObject → Option ℕ

structure CloneState where
  mem : TypeMemory
  dest : ParseTables
  ptrmap : PtrMap

/-- Tagless objects are in no table. -/
def storeTag (ht : String → Option ℕ) (identifier : String) (v : ℕ) : String → Option ℕ :=
  if identifier = "" then ht else store ht identifier v

section Clone

/-- `enumspec_clone` with the body of the loop over the enums. -/
def cloneEnum (st : CloneState) (pES : ℕ) : CloneState :=
  let d := st.mem.enums.get pES
  let pClone := st.mem.enums.count
  let enumerators := d.ids.map st.mem.enumerators.get
  let ids := st.mem.enumerators.fresh enumerators.length
  { mem := { st.mem with
      enumerators := st.mem.enumerators.allocs enumerators
      enums := st.mem.enums.alloc { d with ids := ids } }
    dest := { st.dest with
      enums := st.dest.enums ++ [pClone]
      htEnums := storeTag st.dest.htEnums d.spec.identifier pClone
      htEnumerators := stores st.dest.htEnumerators
        ((enumerators.map Enumerator.identifier).zip ids) }
    ptrmap := store st.ptrmap (.enumSpecifier pES) pClone }

/-- `struct_clone` with the body of the loop over the compounds. The declarations are copied with the
pointers that they hold. -/
def cloneStruct (st : CloneState) (pStruct : ℕ) : CloneState :=
  let s := st.mem.structs.get pStruct
  let pClone := st.mem.structs.count
  { mem := { st.mem with structs := st.mem.structs.alloc s }
    dest := { st.dest with
      structs := st.dest.structs ++ [pClone]
      htStructs := storeTag st.dest.htStructs s.identifier pClone }
    ptrmap := store st.ptrmap (.struct pStruct) pClone }

/-- `typedef_list_clone` with the body of the loop over the typedef lists. A new typedef refers to
the type of its own list. -/
def cloneTypedefList (st : CloneState) (pTDL : TypedefList) : CloneState :=
  let typedefs := pTDL.typedefs.map fun t => { st.mem.typedefs.get t with type := pTDL.type }
  let new := st.mem.typedefs.fresh typedefs.length
  { mem := { st.mem with typedefs := st.mem.typedefs.allocs typedefs }
    dest := { st.dest with
      typedef_lists := st.dest.typedef_lists ++ [⟨pTDL.type, new⟩]
      htTypedefs := stores st.dest.htTypedefs
        ((typedefs.map fun td => td.decl.identifier).zip new) }
    ptrmap := stores st.ptrmap ((pTDL.typedefs.map ParserObject.typedef).zip new) }

/-- `PTR_NOT_FOUND`; the address and the place in the source are left out of the text. -/
def ptrNotFound (ptr : String) : Fault := .fatal ("FATAL: pointer (void *) " ++ ptr ++ " not found!")

/-- `REMAP_PTR`, for `type.ptr`. It is null for a basic type. -/
def remapPtr (ptrmap : PtrMap) (target : String) : TypeSpec → Call TypeSpec
  | .basic tflags => .ok (.basic tflags)
  | .enum pES =>
    match ptrmap (.enumSpecifier pES) with
    | some ptr => .ok (.enum ptr)
    | none => .error (ptrNotFound target)
  | .compound kind pStruct =>
    match ptrmap (.struct pStruct) with
    | some ptr => .ok (.compound kind ptr)
    | none => .error (ptrNotFound target)
  | .typedef pTypedef =>
    match ptrmap (.typedef pTypedef) with
    | some ptr => .ok (.typedef ptr)
    | none => .error (ptrNotFound target)

def remapDeclaration (ptrmap : PtrMap) (pStructDecl : StructDeclaration) : Call StructDeclaration := do
  let type ← remapPtr ptrmap "pStructDecl->type.ptr" pStructDecl.type
  .ok { pStructDecl with type := type }

/-- The loop over the declarations, which a compound without members does not have. -/
def remapDeclarations (ptrmap : PtrMap) (pStruct : Struct) : Call Struct :=
  match pStruct.declarations with
  | none => .ok pStruct
  | some list => do
    let list ← list.mapM (remapDeclaration ptrmap)
    .ok { pStruct with declarations := some list }

def remapStruct (ptrmap : PtrMap) (structs : Arena Struct) (pStruct : ℕ) : Call (Arena Struct) := do
  let s ← remapDeclarations ptrmap (structs.get pStruct)
  .ok (structs.set pStruct s)

/-- The typedefs of the list refer to its type. -/
def remapTypedefList (ptrmap : PtrMap) (typedefs : Arena Typedef) (pTDL : TypedefList) :
    Call (Arena Typedef × TypedefList) := do
  let type ← remapPtr ptrmap "pTDL->type.ptr" pTDL.type
  .ok (pTDL.typedefs.foldl (fun tds t => tds.set t { tds.get t with type := type }) typedefs,
    { pTDL with type := type })

def cloneParseInfo (mem : TypeMemory) (pSrc : ParseTables) : Call (TypeMemory × ParseTables) := do
  let st : CloneState := ⟨mem, .empty, fun _ => none⟩
  let st := pSrc.enums.foldl cloneEnum st
  let st := pSrc.structs.foldl cloneStruct st
  let st := pSrc.typedef_lists.foldl cloneTypedefList st
  let structs ← st.dest.structs.foldlM (remapStruct st.ptrmap) st.mem.structs
  let (typedefs, typedef_lists) ←
    mapAccumM (remapTypedefList st.ptrmap) st.mem.typedefs st.dest.typedef_lists
  .ok ({ st.mem with structs := structs, typedefs := typedefs },
    { st.dest with typedef_lists := typedef_lists })

end Clone

section Rename
variable (ρ : ParserObject → ℕ)

/-! What a clone should be: every pointer is renamed, and nothing else changes. -/

def TypeSpec.rename : TypeSpec → TypeSpec
  | .basic tflags => .basic tflags
  | .enum pES => .enum (ρ (.enumSpecifier pES))
  | .compound kind pStruct => .compound kind (ρ (.struct pStruct))
  | .typedef pTypedef => .typedef (ρ (.typedef pTypedef))

def StructDeclaration.rename (sd : StructDeclaration) : StructDeclaration :=
  { sd with type := sd.type.rename ρ }

def Struct.rename (s : Struct) : Struct :=
  { s with declarations := s.declarations.map (List.map (StructDeclaration.rename ρ)) }

def EnumObject.rename (d : EnumObject) : EnumObject :=
  { d with ids := d.ids.map fun e => ρ (.enumerator e) }

def Typedef.rename (td : Typedef) : Typedef := { td with type := td.type.rename ρ }

def TypedefList.rename (l : TypedefList) : TypedefList :=
  ⟨l.type.rename ρ, l.typedefs.map fun t => ρ (.typedef t)⟩

end Rename

section Source
variable (mem : TypeMemory) (cpi : ParseTables)

/-- The enumerators of the enums of the list. -/
def ParseTables.enumerators : List ℕ := cpi.enums.flatMap fun i => (mem.enums.get i).ids

/-- Is the object in the list for its kind? -/
def ParseTables.Lists : ParserObject → Prop
  | .enumerator e => e ∈ cpi.enumerators mem
  | .enumSpecifier i => i ∈ cpi.enums
  | .struct s => s ∈ cpi.structs
  | .typedef t => t ∈ cpi.typedefs

def TypeMemory.count : ParserObject → ℕ
  | .enumerator _ => mem.enumerators.count
  | .enumSpecifier _ => mem.enums.count
  | .struct _ => mem.structs.count
  | .typedef _ => mem.typedefs.count

/-- The address of an object, whatever its kind. -/
def ParserObject.address : ParserObject → ℕ
  | .enumerator e => e
  | .enumSpecifier i => i
  | .struct s => s
  | .typedef t => t

/-- The object that a type specifier points to. -/
def TypeSpec.object : TypeSpec → Option ParserObject
  | .basic _ => none
  | .enum pES => some (.enumSpecifier pES)
  | .compound _ pStruct => some (.struct pStruct)
  | .typedef pTypedef => some (.typedef pTypedef)

/-- The lists hold each object once, and all that their objects point to. -/
structure ParseTables.Sound : Prop where
  made : ∀ o, cpi.Lists mem o → o.address < mem.count o
  enums_nodup : cpi.enums.Nodup
  enumerators_nodup : (cpi.enumerators mem).Nodup
  structs_nodup : cpi.structs.Nodup
  typedefs_nodup : cpi.typedefs.Nodup
  list_type : ∀ l ∈ cpi.typedef_lists, ∀ t ∈ l.typedefs, (mem.typedefs.get t).type = l.type
  list_object : ∀ l ∈ cpi.typedef_lists, ∀ o, l.type.object = some o → cpi.Lists mem o
  member_object : ∀ s ∈ cpi.structs, ∀ list, (mem.structs.get s).declarations = some list →
    ∀ sd ∈ list, ∀ o, sd.type.object = some o → cpi.Lists mem o

end Source

/-- A clone holds the objects of the source at other addresses, with every pointer renamed, and its
tables find the first object of a list that has the name. -/
structure IsClone (mem mem' : TypeMemory) (src dest : ParseTables) (ρ : ParserObject → ℕ) : Prop where
  sound : dest.Sound mem'
  apart : ∀ o, src.Lists mem o → mem.count o ≤ ρ o
  kept_enum : ∀ i < mem.enums.count, mem'.enums.get i = mem.enums.get i
  kept_enumerator : ∀ e < mem.enumerators.count, mem'.enumerators.get e = mem.enumerators.get e
  kept_struct : ∀ s < mem.structs.count, mem'.structs.get s = mem.structs.get s
  kept_typedef : ∀ t < mem.typedefs.count, mem'.typedefs.get t = mem.typedefs.get t
  enums : dest.enums = src.enums.map fun i => ρ (.enumSpecifier i)
  structs : dest.structs = src.structs.map fun s => ρ (.struct s)
  typedef_lists : dest.typedef_lists = src.typedef_lists.map (TypedefList.rename ρ)
  enum_get : ∀ i ∈ src.enums, mem'.enums.get (ρ (.enumSpecifier i)) = (mem.enums.get i).rename ρ
  enumerator_get : ∀ e ∈ src.enumerators mem,
    mem'.enumerators.get (ρ (.enumerator e)) = mem.enumerators.get e
  struct_get : ∀ s ∈ src.structs, mem'.structs.get (ρ (.struct s)) = (mem.structs.get s).rename ρ
  typedef_get : ∀ t ∈ src.typedefs, mem'.typedefs.get (ρ (.typedef t)) = (mem.typedefs.get t).rename ρ
  htEnums : ∀ n, n ≠ "" → dest.htEnums n =
    (src.enums.find? fun i => (mem.enums.get i).spec.identifier = n).map fun i => ρ (.enumSpecifier i)
  htStructs : ∀ n, n ≠ "" → dest.htStructs n =
    (src.structs.find? fun s => (mem.structs.get s).identifier = n).map fun s => ρ (.struct s)
  htTypedefs : ∀ n, dest.htTypedefs n =
    (src.typedefs.find? fun t => (mem.typedefs.get t).decl.identifier = n).map fun t => ρ (.typedef t)
  htEnumerators : ∀ n, dest.htEnumerators n =
    ((src.enumerators mem).find? fun e => (mem.enumerators.get e).identifier = n).map
      fun e => ρ (.enumerator e)

end ConvertBinaryC
