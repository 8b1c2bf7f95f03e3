import ConvertBinaryC.CBCPackInfo
import ConvertBinaryC.CTLibTypeInfo
import ConvertBinaryC.CTLibBitfieldDisjoint

/-! Member declarations without declarators: what the parser accepts (`ctlib/parser.y`), what
the layout takes their size from (`ctlib/layout.c`), and the compound that packing, unpacking
and the lookup of members go on with (`FOLLOW_AND_CHECK_TSPTR`, `cbc/cbc.h`). -/
namespace ConvertBinaryC
open FoldRules

/-- `sut_type_specifier`: a struct or union, or the name of any typedef. -/
inductive SutTypeSpecifier where
  | su (kind : CompoundKind) (pStruct : ℕ)
  | typeName (pTypedef : ℕ)
  deriving DecidableEq, Repr

def SutTypeSpecifier.typeSpec : SutTypeSpecifier → TypeSpec
  | su kind pStruct => .compound kind pStruct
  | typeName pTypedef => .typedef pTypedef

def structdeclNew (type : TypeSpec) (declarators : Option (List Declarator)) :
    StructDeclaration := ⟨type, declarators, 0, 0⟩

def unnamedSuDeclaration (spec : SutTypeSpecifier) : StructDeclaration :=
  structdeclNew spec.typeSpec none

/-- `ANY_TYPE_NAME`, as far as it is about basic types. -/
def anyTypeName : TFlags :=
  T_VOID ||| T_CHAR ||| T_SHORT ||| T_INT ||| T_LONG ||| T_FLOAT ||| T_DOUBLE ||| T_SIGNED |||
    T_UNSIGNED

/-- `member_declaring_list`: without the name of a type the members are of type int. -/
def memberDeclaringList (type : TypeSpec) (declarators : List Declarator) : StructDeclaration :=
  structdeclNew (match type with
    | .basic tflags => .basic (if tflags.test anyTypeName then tflags else tflags ||| T_INT)
    | type => type) (some declarators)

/-- `member_declaration` -/
inductive MemberDeclaration where
  | declaring (type : TypeSpec) (declarators : List Declarator)
  | unnamed (spec : SutTypeSpecifier)

def MemberDeclaration.structDecl : MemberDeclaration → StructDeclaration
  | declaring type declarators => memberDeclaringList type declarators
  | unnamed spec => unnamedSuDeclaration spec

/-- A typedef can only name a typedef that is there already; the objects are numbered in the
order in which the parser makes them. -/
def Heap.TypedefsInOrder (heap : Heap) : Prop :=
  ∀ t u, (heap.typedefAt t).type = .typedef u → u < t

/-- The same types with any layouts of the compounds. -/
structure Heap.Relaid (heap heap' : Heap) : Prop where
  typedefs : heap'.typedefAt = heap.typedefAt
  enums : heap'.enumAt = heap.enumAt
  structs : ∀ s, ∃ align size, 0 < align ∧ align < 65536 ∧ 0 ≤ size ∧ size < 4294967296 ∧
    heap'.structAt s = { heap.structAt s with align := align, size := size }

section Unnamed
variable (arch : NativeArch) (pLP : LayoutParam) (heap : Heap)

/-- The size and alignment that the layout uses for a declaration are those of the compound,
whatever these are. -/
def LayoutUses (type : TypeSpec) (s : ℕ) : Prop :=
  ∀ heap' bl, heap.Relaid heap' → ∃ least, ∀ fuel, least ≤ fuel → ∃ st info,
    getTypeInfo arch pLP fuel ⟨heap', bl⟩ type none = .ok (st, info) ∧
      info.size = (heap'.structAt s).size ∧ info.align = (heap'.structAt s).align

/-- The step ends at a compound, and it is the one that the layout uses. -/
def UnnamedAgrees (fuel : ℕ) (type : TypeSpec) : Prop :=
  ∃ s, followTsptr heap fuel type = .ok s ∧ LayoutUses arch pLP heap type s

variable {arch pLP heap}

/-- The products of any size with the dimensions are longs. -/
def LongForAll (dims : List Value) : Prop :=
  ∀ size, 0 ≤ size → size < 4294967296 → FitsAs u32 size dims

/-- A chain of typedefs to the compound, without pointers. Only the last typedef may be an
array, of one element. -/
inductive UnnamedOf (heap : Heap) : TypeSpec → ℕ → Prop
  | compound (kind : CompoundKind) (s : ℕ) (hbody : (heap.structAt s).declarations.isSome) :
    UnnamedOf heap (.compound kind s) s
  | last (t : ℕ) (kind : CompoundKind) (s : ℕ)
    (htype : (heap.typedefAt t).type = .compound kind s)
    (hplain : (heap.typedefAt t).decl.pointer_flag = false)
    (hlong : LongForAll (heap.typedefAt t).decl.dims)
    (hone : ((heap.typedefAt t).decl.dims.map Value.iv).prod ≡ 1 [ZMOD 4294967296])
    (hbody : (heap.structAt s).declarations.isSome) : UnnamedOf heap (.typedef t) s
  | next (t u s : ℕ) (htype : (heap.typedefAt t).type = .typedef u)
    (hplain : (heap.typedefAt t).decl.pointer_flag = false)
    (harray : (heap.typedefAt t).decl.isArray = false) (h : UnnamedOf heap (.typedef u) s) :
    UnnamedOf heap (.typedef t) s

/-- The chain that the step follows. -/
inductive Reaches (heap : Heap) : ℕ → ℕ → Prop
  | last (t : ℕ) (kind : CompoundKind) (s : ℕ)
    (htype : (heap.typedefAt t).type = .compound kind s) : Reaches heap t s
  | next (t u s : ℕ) (htype : (heap.typedefAt t).type = .typedef u)
    (hplain : (heap.typedefAt t).decl.pointer_flag = false)
    (harray : (heap.typedefAt t).decl.isArray = false) (h : Reaches heap u s) :
    Reaches heap t s

theorem Declarator.dims_of_not_array {d : Declarator} (h : d.isArray = false) : d.dims = [] := by
  unfold isArray at h
  unfold dims
  cases hext : d.ext with
  | plain => rfl
  | bitfield bit => rfl
  | array dims =>
    rw [hext] at h
    exact nomatch h

theorem followTypedef_reaches {fuel t : ℕ} {kind : CompoundKind} {s : ℕ}
    (h : followTypedef heap fuel t = .ok (.compound kind s)) : Reaches heap t s := by
  induction fuel generalizing t with
  | zero => exact nomatch h
  | succ fuel ih =>
    unfold followTypedef at h
    dsimp only at h
    cases htype : (heap.typedefAt t).type with
    | typedef u =>
      rw [htype] at h
      dsimp only at h
      split_ifs at h with hplain
      · exact .next t u s htype hplain.1 hplain.2 (ih h)
      · exact nomatch h
    | compound kind' s' =>
      rw [htype] at h
      cases h
      exact .last t kind s htype
    | basic tflags =>
      rw [htype] at h
      exact nomatch h
    | enum e =>
      rw [htype] at h
      exact nomatch h

theorem Reaches.followTypedef {t s : ℕ} (h : Reaches heap t s) (horder : heap.TypedefsInOrder)
    {fuel : ℕ} (hfuel : t < fuel) :
    ∃ kind, ConvertBinaryC.followTypedef heap fuel t = .ok (.compound kind s) := by
  induction h generalizing fuel with
  | last t kind s htype =>
    obtain ⟨n, rfl⟩ : ∃ n, fuel = n + 1 := ⟨fuel - 1, by omega⟩
    refine ⟨kind, ?_⟩
    unfold ConvertBinaryC.followTypedef
    dsimp only
    rw [htype]
  | next t u s htype hplain harray _ ih =>
    obtain ⟨n, rfl⟩ : ∃ n, fuel = n + 1 := ⟨fuel - 1, by omega⟩
    have hu := horder t u htype
    obtain ⟨kind, hfollow⟩ := @ih n (by omega)
    refine ⟨kind, ?_⟩
    unfold ConvertBinaryC.followTypedef
    dsimp only
    rw [htype]
    dsimp only
    rw [if_pos ⟨hplain, harray⟩, hfollow]

/-- Where the step ends. -/
theorem followTsptr_typedef_iff (horder : heap.TypedefsInOrder) {fuel t : ℕ} (hfuel : t < fuel)
    (s : ℕ) : followTsptr heap fuel (.typedef t) = .ok s ↔ Reaches heap t s := by
  constructor
  · intro h
    obtain ⟨pTS, hfollow, h⟩ := bind_ok h
    cases pTS with
    | compound kind s' =>
      cases h
      exact followTypedef_reaches hfollow
    | basic tflags => exact nomatch h
    | enum e => exact nomatch h
    | typedef u => exact nomatch h
  · intro h
    obtain ⟨kind, hfollow⟩ := h.followTypedef horder hfuel
    show (ConvertBinaryC.followTypedef heap fuel t >>= _) = _
    rw [hfollow]
    rfl

theorem UnnamedOf.reaches {t s : ℕ} (h : UnnamedOf heap (.typedef t) s) : Reaches heap t s := by
  generalize htype : TypeSpec.typedef t = type at h
  induction h generalizing t with
  | compound kind s hbody => exact nomatch htype
  | last t' kind s htype' _ _ _ _ =>
    obtain rfl : t = t' := TypeSpec.typedef.inj htype
    exact .last t kind s htype'
  | next t' u s htype' hplain harray _ ih =>
    obtain rfl : t = t' := TypeSpec.typedef.inj htype
    exact .next t u s htype' hplain harray (ih rfl)

/-- The same types, where every compound has the size. -/
def Heap.relay (heap : Heap) (size : ℤ) : Heap :=
  { heap with structAt := fun s => { heap.structAt s with align := 1, size := size } }

theorem Heap.relay_relaid (heap : Heap) {size : ℤ} (hsize : 0 ≤ size) (hlt : size < 4294967296) :
    heap.Relaid (heap.relay size) :=
  ⟨rfl, rfl, fun _ => ⟨1, size, by decide, by decide, hsize, hlt, rfl⟩⟩

theorem Heap.Relaid.laid {heap heap' : Heap} (h : heap.Relaid heap') (s : ℕ) :
    (heap'.structAt s).align ≠ 0 ∧ 0 ≤ (heap'.structAt s).size ∧
      (heap'.structAt s).size < 4294967296 ∧
      (heap'.structAt s).declarations = (heap.structAt s).declarations := by
  obtain ⟨align, size, hpos, -, hsize, hlt, hs⟩ := h.structs s
  rw [hs]
  exact ⟨hpos.ne', hsize, hlt, rfl⟩

/-- No layout has to be started. -/
theorem getTypeInfo_of_laid (heap : Heap) (fuel : ℕ) (bl : BitfieldLayouter)
    (kind : CompoundKind) (s : ℕ) (halign : (heap.structAt s).align ≠ 0) :
    getTypeInfo arch pLP (fuel + 1) ⟨heap, bl⟩ (.compound kind s) none =
      .ok (⟨heap, bl⟩, { structInfo arch pLP (heap.structAt s) with
        item_size := (structInfo arch pLP (heap.structAt s)).size }) := by
  have hnone : ¬ (none : Option Declarator).any Declarator.pointer_flag = true :=
    Bool.false_ne_true
  unfold getTypeInfo
  dsimp only
  rw [if_neg hnone, if_neg (fun hfresh => halign hfresh.2)]
  dsimp only [call_bind_apply]
  rw [Option.map_none, Option.getD_none, TypeInfo.declare_nil]
  rfl

/-- The type of a typedef is asked for, and its dimensions are applied. -/
theorem getTypeInfo_typedef (fuel : ℕ) (st : LayoutState) (t : ℕ) :
    getTypeInfo arch pLP (fuel + 1) st (.typedef t) none =
      (getTypeInfo arch pLP fuel st (st.heap.typedefAt t).type
        (some (st.heap.typedefAt t).decl) >>= fun r =>
          .ok (r.1, { r.2 with item_size := r.2.size })) := by
  have hnone : ¬ (none : Option Declarator).any Declarator.pointer_flag = true :=
    Bool.false_ne_true
  rw [getTypeInfo, if_neg hnone]
  dsimp only
  cases getTypeInfo arch pLP fuel st (st.heap.typedefAt t).type
      (some (st.heap.typedefAt t).decl) with
  | error e => rfl
  | ok r =>
    dsimp only [call_bind_apply]
    rw [Option.map_none, Option.getD_none, TypeInfo.declare_nil]
    rfl

/-- A size that does not follow the compound's is right for at most one of its layouts. -/
theorem not_layoutUses {type : TypeSpec} {s : ℕ} (fixed : ℤ)
    (hask : ∀ size bl fuel st info,
      getTypeInfo arch pLP fuel ⟨heap.relay size, bl⟩ type none = .ok (st, info) →
      info.size = fixed) : ¬ LayoutUses arch pLP heap type s := by
  intro huses
  have hsize (size : ℤ) (hsize : 0 ≤ size) (hlt : size < 4294967296) : fixed = size := by
    obtain ⟨least, hall⟩ := huses _ blCreateGeneric (heap.relay_relaid hsize hlt)
    obtain ⟨st, info, hok, hinfo, -⟩ := hall least le_rfl
    exact (hask size _ least st info hok).symm.trans hinfo
  have hzero := hsize 0 le_rfl (by norm_num)
  have hone := hsize 1 (by norm_num) (by norm_num)
  omega

theorem structInfo_relay {s : ℕ} (hbody : (heap.structAt s).declarations = none) (size : ℤ) :
    structInfo arch pLP ((heap.relay size).structAt s) = structInfo arch pLP (heap.structAt s) := by
  have hrelay : ((heap.relay size).structAt s).declarations = none := hbody
  unfold structInfo
  rw [hrelay, hbody]
  rfl

theorem structInfo_of_body (arch : NativeArch) (pLP : LayoutParam) {pStruct : Struct}
    (hbody : pStruct.declarations.isSome) :
    (structInfo arch pLP pStruct).size = pStruct.size ∧
      (structInfo arch pLP pStruct).align = pStruct.align := by
  obtain ⟨decls, hdecls⟩ := Option.isSome_iff_exists.mp hbody
  unfold structInfo
  rw [hdecls]
  exact ⟨rfl, rfl⟩

theorem layoutUses_compound_iff (kind : CompoundKind) (s : ℕ) :
    LayoutUses arch pLP heap (.compound kind s) s ↔ (heap.structAt s).declarations.isSome := by
  constructor
  · intro huses
    by_contra hbody
    have hnone : (heap.structAt s).declarations = none := Option.not_isSome_iff_eq_none.mp hbody
    -- without a body the size is that of an int, in every layout
    refine not_layoutUses (structInfo arch pLP (heap.structAt s)).size ?_ huses
    intro size bl fuel st info hask
    cases fuel with
    | zero =>
      rw [getTypeInfo] at hask
      cases hask
    | succ fuel =>
      rw [getTypeInfo_of_laid _ fuel bl kind s one_ne_zero, structInfo_relay hnone size] at hask
      cases hask
      rfl
  · intro hbody heap' bl h
    refine ⟨1, fun fuel hfuel => ?_⟩
    obtain ⟨n, rfl⟩ : ∃ n, fuel = n + 1 := ⟨fuel - 1, by omega⟩
    have hbody' : (heap'.structAt s).declarations.isSome := by rwa [(h.laid s).2.2.2]
    have hinfo := structInfo_of_body arch pLP hbody'
    exact ⟨_, _, getTypeInfo_of_laid heap' n bl kind s (h.laid s).1, hinfo.1, hinfo.2⟩

/-- The typedef of a compound that has been laid out. -/
theorem getTypeInfo_last {heap' : Heap} (fuel : ℕ) (bl : BitfieldLayouter) {t : ℕ}
    {kind : CompoundKind} {s : ℕ} (htype : (heap'.typedefAt t).type = .compound kind s)
    (hplain : (heap'.typedefAt t).decl.pointer_flag = false)
    (halign : (heap'.structAt s).align ≠ 0) {st : LayoutState} {info : TypeInfo} :
    getTypeInfo arch pLP (fuel + 2) ⟨heap', bl⟩ (.typedef t) none = .ok (st, info) ↔
      FitsAs u32 (structInfo arch pLP (heap'.structAt s)).size (heap'.typedefAt t).decl.dims ∧
        st = ⟨heap', bl⟩ ∧ info = { structInfo arch pLP (heap'.structAt s) with
          item_size := unsignedProduct (structInfo arch pLP (heap'.structAt s)).size
            (heap'.typedefAt t).decl.dims
          size := unsignedProduct (structInfo arch pLP (heap'.structAt s)).size
            (heap'.typedefAt t).decl.dims
          riskyVal := (structInfo arch pLP (heap'.structAt s)).riskyVal ||
            (heap'.typedefAt t).decl.dims.any Value.risky } := by
  rw [getTypeInfo_typedef]
  dsimp only
  rw [htype, getTypeInfo_declare (fuel + 1) _ _ hplain,
    getTypeInfo_of_laid heap' fuel bl kind s halign, call_bind_apply]
  constructor
  · intro h
    obtain ⟨⟨st₁, i⟩, h, hend⟩ := bind_ok h
    obtain ⟨i', hdeclare, h⟩ := bind_ok h
    cases h
    cases hend
    obtain ⟨hfits, rfl⟩ := TypeInfo.declare_ok_iff.mp hdeclare
    exact ⟨hfits, rfl, rfl⟩
  · rintro ⟨hfits, rfl, rfl⟩
    exact bind_ok_iff.mpr
      ⟨_, bind_ok_iff.mpr ⟨_, TypeInfo.declare_ok_iff.mpr ⟨hfits, rfl⟩, rfl⟩, rfl⟩

/-- A pointer has a size of its own. -/
theorem getTypeInfo_pointer {heap' : Heap} {fuel : ℕ} {bl : BitfieldLayouter} {t : ℕ}
    (hpointer : (heap'.typedefAt t).decl.pointer_flag = true) {st : LayoutState} {info : TypeInfo}
    (h : getTypeInfo arch pLP fuel ⟨heap', bl⟩ (.typedef t) none = .ok (st, info)) :
    info.size = unsignedProduct (loadSize pLP.ptr_size arch.ptr_size)
      (heap'.typedefAt t).decl.dims := by
  cases fuel with
  | zero =>
    rw [getTypeInfo] at h
    cases h
  | succ fuel =>
    rw [getTypeInfo_typedef] at h
    obtain ⟨⟨st₁, i⟩, hinner, h⟩ := bind_ok h
    cases h
    cases fuel with
    | zero =>
      rw [getTypeInfo] at hinner
      cases hinner
    | succ fuel =>
      have hflag : (some (heap'.typedefAt t).decl).any Declarator.pointer_flag = true := hpointer
      unfold getTypeInfo at hinner
      dsimp only at hinner
      rw [if_pos hflag] at hinner
      rw [call_bind_apply] at hinner
      obtain ⟨i', hdeclare, hinner⟩ := bind_ok hinner
      cases hinner
      obtain ⟨-, rfl⟩ := TypeInfo.declare_ok_iff.mp hdeclare
      rfl

/-- An array has the size of its items, whatever this is, if the dimensions multiply to one
in 32 bits. -/
theorem unsignedProduct_same_iff (dims : List Value) :
    (∀ size, 0 ≤ size → size < 4294967296 → unsignedProduct size dims = size) ↔
      (dims.map Value.iv).prod ≡ 1 [ZMOD 4294967296] := by
  constructor
  · intro h
    have hone := unsignedProduct_modEq 1 dims
    rw [h 1 zero_le_one (by norm_num), one_mul] at hone
    exact hone.symm
  · intro h size hsize hlt
    obtain ⟨hnonneg, hbound⟩ := unsignedProduct_range hsize hlt dims
    have hmod : unsignedProduct size dims ≡ size [ZMOD 4294967296] := by
      calc unsignedProduct size dims
          ≡ size * (dims.map Value.iv).prod [ZMOD 4294967296] := unsignedProduct_modEq size dims
        _ ≡ size * 1 [ZMOD 4294967296] := h.mul_left size
        _ = size := mul_one size
    calc unsignedProduct size dims
        = unsignedProduct size dims % 4294967296 := (Int.emod_eq_of_lt hnonneg hbound).symm
      _ = size % 4294967296 := hmod
      _ = size := Int.emod_eq_of_lt hsize hlt

theorem layoutUses_last_iff {t : ℕ} {kind : CompoundKind} {s : ℕ}
    (htype : (heap.typedefAt t).type = .compound kind s) :
    LayoutUses arch pLP heap (.typedef t) s ↔
      (heap.typedefAt t).decl.pointer_flag = false ∧
      (LongForAll (heap.typedefAt t).decl.dims ∧
        ((heap.typedefAt t).decl.dims.map Value.iv).prod ≡ 1 [ZMOD 4294967296]) ∧
      (heap.structAt s).declarations.isSome := by
  constructor
  · intro huses
    have hplain : (heap.typedefAt t).decl.pointer_flag = false := by
      by_contra hpointer
      have hflag : (heap.typedefAt t).decl.pointer_flag = true := Bool.of_not_eq_false hpointer
      refine not_layoutUses (unsignedProduct (loadSize pLP.ptr_size arch.ptr_size)
        (heap.typedefAt t).decl.dims) ?_ huses
      intro size bl fuel st info hask
      have hflag' : ((heap.relay size).typedefAt t).decl.pointer_flag = true := hflag
      exact getTypeInfo_pointer hflag' hask
    -- what the layout uses is the array of the compound
    have hlast (size : ℤ) (hsize : 0 ≤ size) (hlt : size < 4294967296) :
        FitsAs u32 (structInfo arch pLP ((heap.relay size).structAt s)).size
            (heap.typedefAt t).decl.dims ∧
          unsignedProduct (structInfo arch pLP ((heap.relay size).structAt s)).size
            (heap.typedefAt t).decl.dims = size := by
      obtain ⟨least, hall⟩ := huses _ blCreateGeneric (heap.relay_relaid hsize hlt)
      obtain ⟨st, info, hok, hinfo, -⟩ := hall (least + 2) (by omega)
      have htype' : ((heap.relay size).typedefAt t).type = .compound kind s := htype
      have hplain' : ((heap.relay size).typedefAt t).decl.pointer_flag = false := hplain
      obtain ⟨hfits, -, rfl⟩ := (getTypeInfo_last least blCreateGeneric htype' hplain' one_ne_zero).mp hok
      exact ⟨hfits, hinfo⟩
    have hbody : (heap.structAt s).declarations.isSome := by
      by_contra hbody
      have hnone : (heap.structAt s).declarations = none := Option.not_isSome_iff_eq_none.mp hbody
      have hzero := (hlast 0 le_rfl (by norm_num)).2
      have hone := (hlast 1 (by norm_num) (by norm_num)).2
      rw [structInfo_relay hnone] at hzero hone
      omega
    have hall (size : ℤ) (hsize : 0 ≤ size) (hlt : size < 4294967296) :
        FitsAs u32 size (heap.typedefAt t).decl.dims ∧
          unsignedProduct size (heap.typedefAt t).decl.dims = size := by
      have hrelaid : ((heap.relay size).structAt s).declarations.isSome := hbody
      have hinfo : (structInfo arch pLP ((heap.relay size).structAt s)).size = size :=
        (structInfo_of_body arch pLP hrelaid).1
      have hsame := hlast size hsize hlt
      rwa [hinfo] at hsame
    exact ⟨hplain, ⟨fun size hsize hlt => (hall size hsize hlt).1, (unsignedProduct_same_iff _).mp
      fun size hsize hlt => (hall size hsize hlt).2⟩, hbody⟩
  · intro ⟨hplain, ⟨hlong, hone⟩, hbody⟩ heap' bl h
    obtain ⟨halign, hsize, hlt, hsome⟩ := h.laid s
    rw [← hsome] at hbody
    rw [← h.typedefs] at htype hplain hone hlong
    have hinfo := structInfo_of_body arch pLP hbody
    have hsame := (unsignedProduct_same_iff _).mpr hone _ hsize hlt
    refine ⟨2, fun fuel hfuel => ?_⟩
    obtain ⟨n, rfl⟩ : ∃ n, fuel = n + 2 := ⟨fuel - 2, by omega⟩
    refine ⟨_, _, (getTypeInfo_last n bl htype hplain halign).mpr ⟨?_, rfl, rfl⟩, ?_, hinfo.2⟩
    · rw [hinfo.1]
      exact hlong _ hsize hlt
    · dsimp only
      rw [hinfo.1, hsame]

theorem layoutUses_next_iff {t u s : ℕ} (htype : (heap.typedefAt t).type = .typedef u)
    (hplain : (heap.typedefAt t).decl.pointer_flag = false)
    (harray : (heap.typedefAt t).decl.isArray = false) :
    LayoutUses arch pLP heap (.typedef t) s ↔ LayoutUses arch pLP heap (.typedef u) s := by
  have hstep {heap' : Heap} (h : heap.Relaid heap') (fuel : ℕ) (bl : BitfieldLayouter) :
      getTypeInfo arch pLP (fuel + 1) ⟨heap', bl⟩ (.typedef t) none =
        (getTypeInfo arch pLP fuel ⟨heap', bl⟩ (.typedef u) none >>= fun r =>
          .ok (r.1, { r.2 with item_size := r.2.size })) := by
    rw [getTypeInfo_typedef]
    dsimp only
    rw [h.typedefs, htype, getTypeInfo_declare fuel _ _ hplain, Declarator.dims_of_not_array harray]
    cases getTypeInfo arch pLP fuel ⟨heap', bl⟩ (.typedef u) none with
    | error e => rfl
    | ok r =>
      dsimp only [call_bind_apply]
      rw [TypeInfo.declare_nil]
      rfl
  constructor
  · intro huses heap' bl h
    obtain ⟨least, hall⟩ := huses heap' bl h
    refine ⟨least, fun fuel hfuel => ?_⟩
    obtain ⟨st, info, hok, hsame⟩ := hall (fuel + 1) (by omega)
    rw [hstep h] at hok
    obtain ⟨⟨st', info'⟩, hinner, hok⟩ := bind_ok hok
    cases hok
    exact ⟨_, _, hinner, hsame.1, hsame.2⟩
  · intro huses heap' bl h
    obtain ⟨least, hall⟩ := huses heap' bl h
    refine ⟨least + 1, fun fuel hfuel => ?_⟩
    obtain ⟨n, rfl⟩ : ∃ n, fuel = n + 1 := ⟨fuel - 1, by omega⟩
    obtain ⟨st, info, hok, hsame⟩ := hall n (by omega)
    refine ⟨st, { info with item_size := info.size }, ?_, hsame.1, hsame.2⟩
    rw [hstep h, hok, call_bind_apply]

theorem Reaches.layoutUses_iff {t s : ℕ} (h : Reaches heap t s) :
    LayoutUses arch pLP heap (.typedef t) s ↔ UnnamedOf heap (.typedef t) s := by
  induction h with
  | last t kind s htype =>
    rw [layoutUses_last_iff htype]
    constructor
    · exact fun h => .last t kind s htype h.1 h.2.1.1 h.2.1.2 h.2.2
    · intro h
      cases h with
      | last t kind' s htype' hplain hlong hone hbody => exact ⟨hplain, ⟨hlong, hone⟩, hbody⟩
      | next t u s htype' => exact nomatch htype.symm.trans htype'
  | next t u s htype hplain harray _ ih =>
    rw [layoutUses_next_iff htype hplain harray, ih]
    constructor
    · exact fun h => .next t u s htype hplain harray h
    · intro h
      cases h with
      | last t kind' s htype' => exact nomatch htype.symm.trans htype'
      | next t u' s htype' _ _ h =>
        obtain rfl : u = u' := TypeSpec.typedef.inj (htype.symm.trans htype')
        exact h

/-- Where a member declaration without declarators ends, and what the layout uses for it. -/
theorem unnamedAgrees_iff (horder : heap.TypedefsInOrder) {fuel : ℕ} (spec : SutTypeSpecifier)
    (hfuel : ∀ t, spec.typeSpec = .typedef t → t < fuel) :
    UnnamedAgrees arch pLP heap fuel spec.typeSpec ↔ ∃ s, UnnamedOf heap spec.typeSpec s := by
  refine exists_congr fun s => ?_
  cases spec with
  | su kind pStruct =>
    constructor
    · intro ⟨hfollow, huses⟩
      obtain rfl : pStruct = s := Except.ok.inj hfollow
      exact .compound kind pStruct ((layoutUses_compound_iff kind pStruct).mp huses)
    · intro h
      cases h with
      | compound _ s hbody => exact ⟨rfl, (layoutUses_compound_iff kind s).mpr hbody⟩
  | typeName t =>
    have hstep := followTsptr_typedef_iff horder (hfuel t rfl) s
    constructor
    · intro ⟨hfollow, huses⟩
      have hreaches := hstep.mp hfollow
      exact hreaches.layoutUses_iff.mp huses
    · intro h
      have hreaches := h.reaches
      exact ⟨hstep.mpr hreaches, hreaches.layoutUses_iff.mpr h⟩

theorem MemberDeclaration.declarators_eq_none_iff (m : MemberDeclaration) :
    m.structDecl.declarators = none ↔ ∃ spec, m = .unnamed spec := by
  cases m with
  | declaring type declarators => simp [structDecl, memberDeclaringList, structdeclNew]
  | unnamed spec => simp [structDecl, unnamedSuDeclaration, structdeclNew]

/-- The members without declarators are compounds, and the layout took them for these, if
their typedefs lead to a compound with a body, without pointers and arrays of other than one
element. -/
theorem unnamed_members_are_compounds_iff (horder : heap.TypedefsInOrder)
    (ms : List MemberDeclaration) {fuel : ℕ}
    (hfuel : ∀ m ∈ ms, ∀ t, m.structDecl.type = .typedef t → t < fuel) :
    (∀ m ∈ ms, m.structDecl.declarators = none →
      UnnamedAgrees arch pLP heap fuel m.structDecl.type) ↔
    ∀ m ∈ ms, m.structDecl.declarators = none → ∃ s, UnnamedOf heap m.structDecl.type s := by
  refine forall₂_congr fun m hm => forall_congr' fun hnone => ?_
  obtain ⟨spec, rfl⟩ := m.declarators_eq_none_iff.mp hnone
  exact unnamedAgrees_iff horder spec (hfuel _ hm)

/-- `typedef struct { int x; } A; typedef A B;` -/
def aliasHeap : Heap where
  structAt _ := structOf "" [declaration (.basic T_INT) [declNew "x"]]
  enumAt _ := ⟨0, false, false, 4, 4, ⟨"member.h", 1⟩, none, .empty, ""⟩
  typedefAt t := if t = 0 then ⟨.compound .struct 0, declNew "A"⟩ else ⟨.typedef 0, declNew "B"⟩

theorem aliasHeap_inOrder : aliasHeap.TypedefsInOrder := by
  intro t u h
  match t with
  | 0 => exact nomatch h
  | t + 1 =>
    cases h
    exact t.succ_pos

/-- `struct { B; };` -/
theorem unnamed_members_are_compounds_iff_alias :
    UnnamedAgrees lp64 alignment4 aliasHeap 2
      (MemberDeclaration.unnamed (.typeName 1)).structDecl.type := by
  have hfuel : ∀ m ∈ [MemberDeclaration.unnamed (.typeName 1)],
      ∀ t, m.structDecl.type = .typedef t → t < 2 := by
    intro m hm t htype
    obtain rfl := List.mem_singleton.mp hm
    cases htype
    exact Nat.lt_succ_self 1
  refine (unnamed_members_are_compounds_iff aliasHeap_inOrder _ hfuel).mpr ?_ _ (.head _) rfl
  intro m hm _
  obtain rfl := List.mem_singleton.mp hm
  exact ⟨0, .next 1 0 0 rfl rfl rfl (.last 0 .struct 0 rfl rfl (fun _ _ _ => trivial) rfl rfl)⟩

/-- After `typedef int T;`, the member of `struct { T; }` has no compound to go on with. -/
theorem unnamed_members_not_compounds : ¬ ∀ (arch : NativeArch) (pLP : LayoutParam) (heap : Heap),
    heap.TypedefsInOrder → ∀ (ms : List MemberDeclaration) (fuel : ℕ),
    (∀ m ∈ ms, ∀ t, m.structDecl.type = .typedef t → t < fuel) →
    ∀ m ∈ ms, m.structDecl.declarators = none →
      UnnamedAgrees arch pLP heap fuel m.structDecl.type := by
  intro hall
  let heap := singleHeap (structOf "" [unnamedSuDeclaration (.typeName 0)])
  have horder : heap.TypedefsInOrder := fun t u h => nomatch h
  have hfuel : ∀ m ∈ [MemberDeclaration.unnamed (.typeName 0)],
      ∀ t, m.structDecl.type = .typedef t → t < 1 := by
    intro m hm t htype
    obtain rfl := List.mem_singleton.mp hm
    cases htype
    exact Nat.zero_lt_one
  obtain ⟨s, hfollow, -⟩ := hall lp64 alignment4 heap horder _ 1 hfuel _ (.head _) rfl
  exact nomatch hfollow

end Unnamed

end ConvertBinaryC
