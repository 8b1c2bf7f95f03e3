import ConvertBinaryC.CBCCloneUnpack
import ConvertBinaryC.CBCShapeUnpack

/-! Packing with a clone, and what this means for the strings and values that come out. -/
namespace ConvertBinaryC
open CarryRules

variable {ρ : ParserObject → ℕ}

section Leaves
variable (perl : Perl) (cbc : CBC)

theorem growBuffer_carries (size : ℤ) :
    Carries (PackInfo.rename ρ) (growBuffer perl size) (growBuffer perl size) := by
  unfold growBuffer
  apply carries_get_bind
  intro s
  apply (emit_carries (.grow s.path (u64 (s.pos + size)))).bind
  intro _
  apply carries_ite
  · apply carries_ite
    · exact carries_throw _
    · apply carries_ite
      · exact carries_throw _
      · exact carries_modify fun _ => rfl
  · exact carries_pure _

theorem storeBytes_carries (n : ℕ) (bytes : ℕ → Byte) :
    Carries (PackInfo.rename ρ) (storeBytes n bytes) (storeBytes n bytes) := by
  unfold storeBytes
  apply carries_get_bind
  intro s
  apply carries_ite
  · exact carries_throw _
  · exact carries_set rfl

theorem storeInt_carries (size : ℤ) (pBI : Option BitfieldInfo) (iv : IntValue) :
    Carries (PackInfo.rename ρ) (storeInt cbc size pBI iv) (storeInt cbc size pBI iv) := by
  unfold storeInt
  apply carries_get_bind
  intro s
  apply (emit_carries (.access s.path pBI.isSome (intOrder cbc s pBI) s.pos size)).bind
  intro _
  apply carries_ite
  · exact carries_throw _
  · apply (liftCall_carries _).bind
    exact fun buffer => carries_modify fun _ => rfl

theorem storeIntSv_carries (size : ℤ) (sign : Bool) (pBI : Option BitfieldInfo) (s : Scalar) :
    Carries (PackInfo.rename ρ) (storeIntSv perl cbc size sign pBI s)
      (storeIntSv perl cbc size sign pBI s) := storeInt_carries cbc size pBI _

theorem storeFloatSv_carries (size : ℤ) (flags : TFlags) (s : Scalar) :
    Carries (PackInfo.rename ρ) (storeFloatSv perl cbc size flags s)
      (storeFloatSv perl cbc size flags s) := by
  unfold storeFloatSv
  apply carries_ite
  · apply carries_get_bind
    intro st
    apply (emit_carries (.access st.path false st.order st.pos size)).bind
    exact fun _ => storeBytes_carries _ _
  · exact carries_pure _

theorem packPointer_carries (sv : SV) :
    Carries (PackInfo.rename ρ) (packPointer perl cbc sv) (packPointer perl cbc sv) := by
  unfold packPointer
  apply (growBuffer_carries perl _).bind
  intro _
  split
  · exact storeIntSv_carries perl cbc _ false none _
  · exact carries_pure _

theorem packBasic_carries (flags : TFlags) (pBI : Option BitfieldInfo) (sv : SV) :
    Carries (PackInfo.rename ρ) (packBasic perl cbc flags pBI sv) (packBasic perl cbc flags pBI sv) := by
  apply (growBuffer_carries perl (packLoadSize cbc flags pBI).1).bind
  intro _
  split
  · apply carries_ite
    · exact storeFloatSv_carries perl cbc _ _ _
    · exact storeIntSv_carries perl cbc _ _ pBI _
  · exact carries_pure _

theorem copyFormat_carries (format : FormatTag) (size len : ℤ) (p : List Byte) :
    Carries (PackInfo.rename ρ) (copyFormat format size len p) (copyFormat format size len p) := by
  unfold copyFormat
  apply carries_get_bind
  intro s
  apply (emit_carries (.copy s.path s.pos (if len > size then size else len))).bind
  exact fun _ => storeBytes_carries _ _

theorem packFormat_carries (format : FormatTag) (size : ℤ) (flexible : Bool) (sv : SV) :
    Carries (PackInfo.rename ρ) (packFormat perl format size flexible sv)
      (packFormat perl format size flexible sv) := by
  unfold packFormat
  apply carries_ite
  · apply carries_ite
    · apply (liftCall_carries _).bind
      intro (len, size)
      apply (growBuffer_carries perl size).bind
      exact fun _ => copyFormat_carries format size len _
    · exact carries_pure _
  · apply (growBuffer_carries perl size).bind
    intro _
    apply carries_ite
    · exact copyFormat_carries format size _ _
    · exact carries_pure _

theorem packEnum_carries (pES : EnumSpecifier) (pBI : Option BitfieldInfo) (sv : SV) :
    Carries (PackInfo.rename ρ) (packEnum perl cbc pES pBI sv) (packEnum perl cbc pES pBI sv) := by
  unfold packEnum
  apply (hookCall_carries perl _ sv).bind
  intro sv
  cases pES.tags.format with
  | some format => exact within_carries (.enum pES) (packFormat_carries perl format _ false sv)
  | none =>
    apply inScope_carries (.enum pES) pES.tags
    apply (growBuffer_carries perl _).bind
    intro _
    split
    · exact storeInt_carries cbc _ pBI _
    · exact carries_pure _

theorem packCount_carries (pDecl : Declarator) (dimension : ℕ) (dimtag : Option DimensionTag)
    (size avail : ℤ) : Carries (PackInfo.rename ρ) (packCount perl pDecl dimension dimtag size avail)
      (packCount perl pDecl dimension dimtag size avail) := by
  have hgrow (s : ℤ) : Carries (PackInfo.rename ρ)
      (liftCall (long (s * size)) >>= fun grown => growBuffer perl grown >>= fun _ => pure s)
      (liftCall (long (s * size)) >>= fun grown => growBuffer perl grown >>= fun _ => pure s) := by
    apply (liftCall_carries _).bind
    intro grown
    apply (growBuffer_carries perl grown).bind
    exact fun _ => carries_pure s
  unfold packCount
  cases dimtag with
  | some tag =>
    apply (dimtagEval_carries perl tag avail).bind
    exact hgrow
  | none =>
    cases pDecl.dims[dimension]? with
    | none => exact carries_throw _
    | some v =>
      apply carries_ite
      · exact hgrow avail
      · exact carries_pure _

end Leaves

/-- The call for the type, and the call for its copy. -/
def PackTypeFn.Carries (ρ : ParserObject → ℕ) (Listed : ParserObject → Prop)
    (f f' : PackTypeFn) : Prop :=
  ∀ pTS pDecl dimension pBI sv, (∀ o, pTS.object = some o → Listed o) →
    CarryRules.Carries (PackInfo.rename ρ) (f pTS pDecl dimension pBI sv)
      (f' (pTS.rename ρ) pDecl dimension pBI sv)

def PackStructFn.Carries (ρ : ParserObject → ℕ) (Listed : ParserObject → Prop)
    (f f' : PackStructFn) : Prop :=
  ∀ s sv inlined, Listed (.struct s) →
    CarryRules.Carries (PackInfo.rename ρ) (f s sv inlined) (f' (ρ (.struct s)) sv inlined)

section Steps
variable (perl : Perl) (cbc : CBC) {heap' : Heap} {Listed : ParserObject → Prop}
  {packType packType' : PackTypeFn} {packStruct packStruct' : PackStructFn}
  (hcopies : cbc.heap.Copies ρ heap' Listed)
  (htype : PackTypeFn.Carries ρ Listed packType packType')
  (hstruct : PackStructFn.Carries ρ Listed packStruct packStruct')

include htype in
theorem packElement_carries {pTS : TypeSpec} (hlisted : ∀ o, pTS.object = some o → Listed o)
    (pDecl : Declarator) (dimension : ℕ) (pos size : ℤ) (elem : Option SV × ℕ) :
    Carries (PackInfo.rename ρ) (packElement packType pTS pDecl dimension pos size elem)
      (packElement packType' (pTS.rename ρ) pDecl dimension pos size elem) := by
  obtain ⟨sv, i⟩ := elem
  cases sv with
  | none => exact carries_pure _
  | some sv =>
    apply within_carries (.element i)
    apply (liftCall_carries _).bind
    intro distance
    apply (setPos_carries _).bind
    intro _
    exact htype pTS (some pDecl) (dimension + 1) none sv hlisted

include htype in
theorem packArray_carries {pTS : TypeSpec} (hlisted : ∀ o, pTS.object = some o → Listed o)
    (pDecl : Declarator) (dimension : ℕ) (dimtag : Option DimensionTag) (sv : SV) :
    Carries (PackInfo.rename ρ) (packArray perl packType pTS pDecl dimension dimtag sv)
      (packArray perl packType' (pTS.rename ρ) pDecl dimension dimtag sv) := by
  unfold packArray
  split
  · next elems =>
    apply (liftCall_carries _).bind
    intro size
    apply (packCount_carries perl pDecl dimension dimtag size _).bind
    intro s
    apply carries_get_bind
    intro st
    apply (emit_carries (.elements st.path (isFlexible pDecl dimension dimtag) st.pos st.length size
      s)).bind
    intro _
    have hloop := @carries_forM _ _ _ (PackInfo.rename ρ) id _ _ (elems.take s.toNat).zipIdx
      fun elem _ => packElement_carries htype hlisted pDecl dimension st.pos size elem
    rw [List.map_id] at hloop
    exact hloop
  · apply (liftCall_carries _).bind
    exact fun size => growBuffer_carries perl size

include htype hstruct hcopies in
theorem packUntagged_carries {pTS : TypeSpec} (hlisted : ∀ o, pTS.object = some o → Listed o)
    (pDecl : Option Declarator) (dimension : ℕ) (dimtag : Option DimensionTag)
    (pBI : Option BitfieldInfo) (sv : SV) :
    Carries (PackInfo.rename ρ)
      (packUntagged perl cbc packType packStruct pTS pDecl dimension dimtag pBI sv)
      (packUntagged perl { cbc with heap := heap' } packType' packStruct' (pTS.rename ρ) pDecl
        dimension dimtag pBI sv) := by
  unfold packUntagged
  split
  · exact packArray_carries perl htype hlisted _ dimension dimtag sv
  · apply carries_ite
    · show Carries _ _ (hookCall perl ((typespecHooks heap' (pTS.rename ρ)).bind _) sv >>= _)
      rw [hcopies.typespec_hooks hlisted]
      apply (hookCall_carries perl _ sv).bind
      exact fun sv => packPointer_carries perl cbc sv
    · cases pTS with
      | basic flags => exact packBasic_carries perl cbc flags pBI sv
      | enum e =>
        show Carries _ _ (packEnum perl { cbc with heap := heap' }
          (heap'.enumAt (ρ (.enumSpecifier e))) pBI sv)
        rw [hcopies.enum e (hlisted _ rfl)]
        exact packEnum_carries perl cbc _ pBI sv
      | compound kind s =>
        dsimp only [TypeSpec.rename]
        rw [hcopies.struct s (hlisted _ rfl), Struct.rename]
        dsimp only
        cases (cbc.heap.structAt s).declarations with
        | none => exact carries_pure _
        | some list => exact hstruct s sv false (hlisted _ rfl)
      | typedef t =>
        show Carries _ _ (packType' (heap'.typedefAt (ρ (.typedef t))).type
          (some (heap'.typedefAt (ρ (.typedef t))).decl) 0 pBI sv)
        rw [hcopies.typedef t (hlisted _ rfl)]
        exact htype _ _ 0 pBI sv (hcopies.type_object t (hlisted _ rfl))

include htype hstruct hcopies in
theorem packTypeStep_carries : PackTypeFn.Carries ρ Listed
    (packTypeStep perl cbc packType packStruct)
    (packTypeStep perl { cbc with heap := heap' } packType' packStruct') := by
  intro pTS pDecl dimension pBI sv hlisted
  have huntagged := @packUntagged_carries ρ perl cbc heap' Listed packType packType' packStruct
    packStruct' hcopies htype hstruct pTS hlisted pDecl dimension
  unfold packTypeStep
  split
  · next d =>
    apply (hookCall_carries perl _ sv).bind
    intro sv
    cases d.tags.format with
    | some format =>
      apply within_carries (.declarator d)
      apply (preparePackFormat_carries perl d d.tags.dimension).bind
      intro (size, flexible)
      exact packFormat_carries perl format (u32 size) flexible sv
    | none => exact inScope_carries (.declarator d) d.tags (huntagged d.tags.dimension pBI sv)
  · exact keepByteOrder_carries (huntagged none pBI sv)

include htype in
theorem packMember_carries {type : TypeSpec} (hlisted : ∀ o, type.object = some o → Listed o)
    (h : Hash) (pos : ℤ) (pDecl : Declarator) :
    Carries (PackInfo.rename ρ) (packMember packType h pos type pDecl)
      (packMember packType' h pos (type.rename ρ) pDecl) := by
  unfold packMember
  split
  · next e _ =>
    apply (setPos_carries _).bind
    intro _
    apply (setParent_carries _).bind
    intro _
    apply (htype type (some pDecl) 0 _ e hlisted).bind
    exact fun _ => setParent_carries none
  · exact carries_pure _

include htype hstruct hcopies in
theorem packDeclaration_carries (fuel : ℕ) {sd : StructDeclaration}
    (hlisted : ∀ o, sd.type.object = some o → Listed o) (h : Hash) (pos : ℤ) (sv : SV) :
    Carries (PackInfo.rename ρ) (packDeclaration cbc fuel packType packStruct h pos sv sd)
      (packDeclaration { cbc with heap := heap' } fuel packType' packStruct' h pos sv
        (sd.rename ρ)) := by
  unfold packDeclaration StructDeclaration.rename
  dsimp only
  cases sd.declarators with
  | some declarators =>
    have hloop := @carries_forM _ _ _ (PackInfo.rename ρ) id _ _ declarators
      fun d _ => packMember_carries htype hlisted h pos d
    rw [List.map_id] at hloop
    exact hloop
  | none =>
    apply liftCall_bind (hcopies.follow_tsptr fuel hlisted)
    intro s hs
    apply (setPos_carries _).bind
    exact fun _ => hstruct s sv true hs

include htype hstruct hcopies in
theorem packMembers_carries (fuel : ℕ) {s : ℕ} (hs : Listed (.struct s)) (sv : SV) :
    Carries (PackInfo.rename ρ)
      (packMembers cbc fuel packType packStruct (cbc.heap.structAt s) sv)
      (packMembers { cbc with heap := heap' } fuel packType' packStruct'
        ((cbc.heap.structAt s).rename ρ) sv) := by
  unfold packMembers
  apply carries_get_bind
  intro st
  split
  · next h =>
    rw [declarations_rename]
    apply carries_forM
    intro sd hsd
    exact packDeclaration_carries cbc hcopies htype hstruct fuel (hcopies.member_object s hs sd hsd) h
      _ _
  · exact carries_pure _

include htype hstruct hcopies in
theorem packStructStep_carries (fuel : ℕ) : PackStructFn.Carries ρ Listed
    (packStructStep perl cbc fuel packType packStruct)
    (packStructStep perl { cbc with heap := heap' } fuel packType' packStruct') := by
  intro s sv inlined hs
  have hmembers := @packMembers_carries ρ cbc heap' Listed packType packType' packStruct packStruct'
    hcopies htype hstruct fuel s hs
  unfold packStructStep
  dsimp only
  rw [hcopies.struct s hs]
  apply carries_ite
  · exact inScope_carries (.inlined (cbc.heap.structAt s)) .empty (hmembers sv)
  · apply (hookCall_carries perl _ sv).bind
    intro sv
    have htags : ((cbc.heap.structAt s).rename ρ).tags = (cbc.heap.structAt s).tags := rfl
    rw [htags]
    cases (cbc.heap.structAt s).tags.format with
    | some format =>
      exact within_carries (.compound (cbc.heap.structAt s)) (packFormat_carries perl format _ false sv)
    | none => exact inScope_carries (.compound (cbc.heap.structAt s)) _ (hmembers sv)

end Steps

section Recursion
variable (perl : Perl) (cbc : CBC) {heap' : Heap} {Listed : ParserObject → Prop}
  (hcopies : cbc.heap.Copies ρ heap' Listed)
include hcopies

theorem pack_carries (fuel : ℕ) :
    PackTypeFn.Carries ρ Listed (packType perl cbc fuel)
        (packType perl { cbc with heap := heap' } fuel) ∧
      PackStructFn.Carries ρ Listed (packStruct perl cbc fuel)
        (packStruct perl { cbc with heap := heap' } fuel) := by
  -- For both functions at once, since each calls the other.
  induction fuel with
  | zero =>
    constructor
    · exact fun _ _ _ _ _ _ => carries_throw _
    · exact fun _ _ _ _ => carries_throw _
  | succ fuel ih =>
    constructor
    · exact packTypeStep_carries perl cbc hcopies ih.1 ih.2
    · exact packStructStep_carries perl cbc hcopies ih.1 ih.2 fuel

theorem pkPack_carries (fuel : ℕ) {pTS : TypeSpec} (hlisted : ∀ o, pTS.object = some o → Listed o)
    (pDecl : Option Declarator) (dimension : ℕ) (sv : SV) :
    Carries (PackInfo.rename ρ) (pkPack perl cbc fuel pTS pDecl dimension sv)
      (pkPack perl { cbc with heap := heap' } fuel (pTS.rename ρ) pDecl dimension sv) := by
  unfold pkPack
  apply (restoreByteOrder_carries _).bind
  intro _
  exact (pack_carries perl cbc hcopies fuel).1 pTS pDecl dimension none sv hlisted

end Recursion

section Clone

/-- The types in memory, as far as they are packed. -/
def TypeMemory.heap (mem : TypeMemory) : Heap where
  structAt := mem.structs.get
  enumAt e := (mem.enums.get e).spec
  typedefAt := mem.typedefs.get

def MemberInfo.rename (ρ : ParserObject → ℕ) (mi : MemberInfo) : MemberInfo :=
  { mi with type := mi.type.rename ρ, parent := mi.parent.map fun s => ρ (.struct s) }

variable {mem mem' : TypeMemory} {src dest : ParseTables}

theorem IsClone.copies (hclone : IsClone mem mem' src dest ρ) (hsound : src.Sound mem) :
    mem.heap.Copies ρ mem'.heap (src.Lists mem) where
  enum e he := by
    show (mem'.enums.get (ρ (.enumSpecifier e))).spec = (mem.enums.get e).spec
    rw [hclone.enum_get e he]
    rfl
  struct := hclone.struct_get
  typedef := hclone.typedef_get
  member_object s hs sd hsd o ho := by
    cases hlist : (mem.structs.get s).declarations with
    | none =>
      have hnil : (mem.heap.structAt s).declarations.getD [] = [] := congrArg (·.getD []) hlist
      rw [hnil] at hsd
      exact absurd hsd List.not_mem_nil
    | some list =>
      have hsome : (mem.heap.structAt s).declarations.getD [] = list := congrArg (·.getD []) hlist
      rw [hsome] at hsd
      exact hsound.member_object s hs list hlist sd hsd o ho
  type_object t ht o ho := by
    obtain ⟨l, hl, hmem⟩ := List.mem_flatMap.mp ht
    have htype : (mem.heap.typedefAt t).type = l.type := hsound.list_type l hl t hmem
    rw [htype] at ho
    exact hsound.list_object l hl o ho

theorem ParseTables.Sound.copies (hsound : src.Sound mem)
    (hclone : cloneParseInfo mem src = .ok (mem', dest)) :
    mem.heap.Copies (src.cloneAddress mem) mem'.heap (src.Lists mem) := by
  rw [hsound.cloneParseInfo_eq] at hclone
  cases hclone
  exact hsound.isClone.copies hsound

section Calls
variable (perl : Perl) (cbc : CBC) {heap' : Heap} {Listed : ParserObject → Prop}
  (hcopies : cbc.heap.Copies ρ heap' Listed) (fuel : ℕ) (mi : MemberInfo)
  (hlisted : ∀ o, mi.type.object = some o → Listed o)
include hcopies hlisted

theorem unpack_copy (scalar : Bool) (string : List Byte) :
    unpack perl { cbc with heap := heap' } fuel (mi.rename ρ) scalar string =
      unpack perl cbc fuel mi scalar string := by
  have hturn (i : ℕ) : Carries (PackInfo.rename ρ) (unpackTurn perl cbc fuel mi i)
      (unpackTurn perl { cbc with heap := heap' } fuel (mi.rename ρ) i) := by
    apply (setPos_carries _).bind
    exact fun _ => pkUnpack_carries perl cbc hcopies fuel hlisted mi.pDecl mi.level
  have hrun : (List.range (unpackTimes scalar (mi.rename ρ) string.length)).mapM
        (unpackTurn perl { cbc with heap := heap' } fuel (mi.rename ρ))
        (pkCreate string string.length) =
      carry (PackInfo.rename ρ) ((List.range (unpackTimes scalar mi string.length)).mapM
        (unpackTurn perl cbc fuel mi) (pkCreate string string.length)) :=
    carries_mapM (fun i _ => hturn i) (pkCreate string string.length)
  unfold unpack
  rw [hrun]
  cases (List.range (unpackTimes scalar mi string.length)).mapM (unpackTurn perl cbc fuel mi)
    (pkCreate string string.length) with
  | ok svs s => rfl
  | error e s => rfl

theorem pack_copy (data : SV) (string : List Byte) :
    pack perl { cbc with heap := heap' } fuel (mi.rename ρ) data string =
      (pack perl cbc fuel mi data string).map fun r => (r.1, r.2.map (Event.rename ρ)) := by
  have hrun : pkPack perl { cbc with heap := heap' } fuel (mi.rename ρ).type (mi.rename ρ).pDecl
        (mi.rename ρ).level data (packInto (mi.rename ρ) string) =
      carry (PackInfo.rename ρ) (pkPack perl cbc fuel mi.type mi.pDecl mi.level data
        (packInto mi string)) :=
    pkPack_carries perl cbc hcopies fuel hlisted mi.pDecl mi.level data (packInto mi string)
  unfold pack
  rw [hrun]
  cases pkPack perl cbc fuel mi.type mi.pDecl mi.level data (packInto mi string) with
  | ok u s => rfl
  | error e s => rfl

end Calls

/-- A clone packs and unpacks like its source, with every tag and every hook. The traces name the
compounds of the clone. -/
theorem clone_packs_alike (hsound : src.Sound mem) (hclone : cloneParseInfo mem src = .ok (mem', dest))
    (perl : Perl) (cbc : CBC) (hheap : cbc.heap = mem.heap) (fuel : ℕ) (mi : MemberInfo)
    (hlisted : ∀ o, mi.type.object = some o → src.Lists mem o) :
    (∀ scalar string,
      unpack perl { cbc with heap := mem'.heap } fuel (mi.rename (src.cloneAddress mem)) scalar string =
        unpack perl cbc fuel mi scalar string) ∧
    ∀ data string,
      pack perl { cbc with heap := mem'.heap } fuel (mi.rename (src.cloneAddress mem)) data string =
      (pack perl cbc fuel mi data string).map fun r =>
        (r.1, r.2.map (Event.rename (src.cloneAddress mem))) := by
  have hcopies := hsound.copies hclone
  rw [← hheap] at hcopies
  exact ⟨unpack_copy perl cbc hcopies fuel mi hlisted, pack_copy perl cbc hcopies fuel mi hlisted⟩

/-- An interpreter whose subroutines return what they get. -/
def echoPerl : Perl := { slotPerl with call := fun _ _ arg => .ok (arg.getD .undef) }

/-- `enum colour { RED, GREEN }` -/
def colourEnum : EnumSpecifier :=
  enumspecUpdate (enumspecNew "colour" ⟨"order.h", 1⟩)
    [⟨⟨0, false, false⟩, "RED"⟩, ⟨⟨1, false, false⟩, "GREEN"⟩]

/-- `struct node { struct node *next; colour_t colour; }` with a hook -/
def nodeStruct : Struct :=
  { structOf "node" [declaration (.compound .struct 0)
        [{ memberAt "next" 0 8 8 with pointer_flag := true }],
      declaration (.typedef 0) [memberAt "colour" 8 1 1]] with
    size := 12
    tags := { CtTagList.empty with hooks := some ⟨some 0, some 1, none, none⟩ } }

/-- `struct edge { struct node from; enum colour kind; unsigned short n; }` with a tag for `n` -/
def edgeStruct : Struct :=
  { structOf "edge" [declaration (.compound .struct 0) [memberAt "from" 0 12 12],
      declaration (.enum 0) [memberAt "kind" 12 1 1],
      declaration (.basic (T_UNSIGNED ||| T_SHORT))
        [{ memberAt "n" 14 2 2 with tags := { CtTagList.empty with byteOrder := some .bigEndian } }]] with
    size := 16 }

/-- Both compounds, with the enum and `typedef enum colour colour_t`. -/
def linkedMemory : TypeMemory where
  enumerators := ⟨fun e => if e = 0 then ⟨⟨0, false, false⟩, "RED"⟩ else ⟨⟨1, false, false⟩, "GREEN"⟩, 2⟩
  enums := ⟨fun _ => ⟨colourEnum, [0, 1]⟩, 1⟩
  structs := ⟨fun s => if s = 0 then nodeStruct else edgeStruct, 2⟩
  typedefs := ⟨fun _ => ⟨.enum 0, memberAt "colour_t" 0 1 1⟩, 1⟩

def linkedTables : ParseTables where
  enums := [0]
  structs := [0, 1]
  typedef_lists := [⟨.enum 0, [0]⟩]
  htEnumerators n := if n = "RED" then some 0 else if n = "GREEN" then some 1 else none
  htEnums n := if n = "colour" then some 0 else none
  htStructs n := if n = "node" then some 0 else if n = "edge" then some 1 else none
  htTypedefs n := if n = "colour_t" then some 0 else none

theorem linked_sound : linkedTables.Sound linkedMemory where
  made o ho := by
    cases o with
    | enumerator e =>
      have he : e = 0 ∨ e = 1 := by simpa [linkedTables, linkedMemory, ParseTables.Lists,
        ParseTables.enumerators] using ho
      show e < 2
      omega
    | enumSpecifier i =>
      rw [List.mem_singleton.mp ho]
      exact Nat.zero_lt_one
    | struct s =>
      have hs : s = 0 ∨ s = 1 := by simpa [linkedTables, ParseTables.Lists] using ho
      show s < 2
      omega
    | typedef t =>
      rw [List.mem_singleton.mp (show t ∈ [0] from ho)]
      exact Nat.zero_lt_one
  enums_nodup := by decide
  enumerators_nodup := by decide
  structs_nodup := by decide
  typedefs_nodup := by decide
  list_type l hl t _ := by
    rw [List.mem_singleton.mp hl]
    rfl
  list_object l hl o ho := by
    rw [List.mem_singleton.mp hl] at ho
    cases ho
    exact List.mem_cons_self
  member_object s hs list hlist sd hsd o ho := by
    have hs' : s = 0 ∨ s = 1 := by simpa [linkedTables] using hs
    rcases hs' with rfl | rfl
    · cases hlist
      simp only [List.mem_cons, List.not_mem_nil, or_false] at hsd
      rcases hsd with rfl | rfl <;> cases ho <;> exact List.mem_cons_self
    · cases hlist
      simp only [List.mem_cons, List.not_mem_nil, or_false] at hsd
      rcases hsd with rfl | rfl | rfl <;> cases ho <;> exact List.mem_cons_self

def linkedCbc : CBC := { cbc64 linkedMemory.heap with
  htEnumerators := fun name => if name = textBytes "GREEN" then some ⟨⟨1, false, false⟩, "GREEN"⟩
    else none }

/-- The whole `struct edge` -/
def linkedInfo : MemberInfo := ⟨.compound .struct 1, none, none, 0, 0, 16⟩

theorem linked_listed (o : ParserObject) (ho : linkedInfo.type.object = some o) :
    linkedTables.Lists linkedMemory o := by
  cases ho
  exact List.mem_cons_of_mem 0 (List.mem_singleton_self 1)

def linkedValue : SV :=
  .hv [("from", .hv [("next", newSViv 7), ("colour", newSViv 1)]),
    ("kind", newSVpvn (textBytes "GREEN")), ("n", newSViv 258)]

def linkedBytes : List Byte := [7, 0, 0, 0, 0, 0, 0, 0, 1, 0, 0, 0, 1, 0, 1, 2]

/-- The clone has its `struct edge` at 3. -/
theorem clone_packs_alike_linked :
    (pack echoPerl linkedCbc 10 linkedInfo linkedValue []).toOption.map Prod.fst = some linkedBytes ∧
    ∃ mem' dest, cloneParseInfo linkedMemory linkedTables = .ok (mem', dest) ∧
      unpack echoPerl { linkedCbc with heap := mem'.heap } 10
          ⟨.compound .struct 3, none, none, 0, 0, 16⟩ true linkedBytes =
        unpack echoPerl linkedCbc 10 linkedInfo true linkedBytes ∧
      pack echoPerl { linkedCbc with heap := mem'.heap } 10
          ⟨.compound .struct 3, none, none, 0, 0, 16⟩ linkedValue [] =
        (pack echoPerl linkedCbc 10 linkedInfo linkedValue []).map fun r =>
          (r.1, r.2.map (Event.rename (linkedTables.cloneAddress linkedMemory))) := by
  refine ⟨by decide +kernel, ?_⟩
  have hclone := linked_sound.cloneParseInfo_eq
  obtain ⟨hunpack, hpack⟩ := clone_packs_alike linked_sound hclone echoPerl linkedCbc rfl 10 linkedInfo
    linked_listed
  exact ⟨_, _, hclone, hunpack true linkedBytes, hpack linkedValue []⟩

end Clone
end ConvertBinaryC
