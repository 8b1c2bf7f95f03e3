import ConvertBinaryC.TreeRules
import ConvertBinaryC.CBCUnpack
import ConvertBinaryC.CTLibFetchStore

/-! The shape of a type: where its leaves are and how they are read. A type has a shape when its
size does not depend on the data, no tag but ByteOrder is attached to it, and the names of its
members are distinct. -/
namespace ConvertBinaryC

open TreeRules

/-- The bits of a storage unit that a leaf is stored in; for `bits = 0` the whole unit. -/
structure Window where
  pos : ℕ
  size : ℕ
  bits : ℕ
  shift : ℕ
  order : CByteOrder
  integer : IntegerSize size
  inside : bits + windowShift bits shift ≤ 8 * size

/-- What is read at once. `undefined` is a compound without a definition. -/
inductive Leaf where
  | integer (w : Window) (sign : Bool)
  | enum (w : Window) (pES : EnumSpecifier)
  | float (pos size : ℕ) (order : CByteOrder)
  | unsupported (pos size : ℕ)
  | undefined

abbrev Shape := Tree String Leaf

/-- The memory from an address on. -/
def Memory.from (mem : Memory) (base : ℕ) : Memory := fun a => mem (base + a)

def Window.fetch (w : Window) (sign : Bool) (mem : Memory) : IntValue :=
  match fetchInteger w.size sign w.bits w.shift w.order mem w.pos ⟨0, sign, none⟩ with
  | .ok iv => iv
  | .error _ => ⟨0, sign, none⟩

def bytesAt (mem : Memory) (pos size : ℕ) : List Byte := (List.range size).map fun i => mem (pos + i)

/-- Where the bits of a window are in memory. -/
def Window.footprint (w : Window) : Set (ℕ × ℕ) :=
  {p | ∃ j, windowShift w.bits w.shift ≤ j ∧
    j < windowShift w.bits w.shift + windowWidth w.size w.bits ∧
    p = (w.pos + unitByte w.order w.size j, j % 8)}

def Leaf.footprint : Leaf → Set (ℕ × ℕ)
  | .integer w _ => w.footprint
  | .enum w _ => w.footprint
  | .float pos size _ => {p | pos ≤ p.1 ∧ p.1 < pos + size}
  | _ => ∅

/-- The end of the bytes that have to be there for the leaf. -/
def Leaf.stop : Leaf → ℕ
  | .integer w _ => w.pos + w.size
  | .enum w _ => w.pos + w.size
  | .float pos size _ => pos + size
  | .unsupported pos size => pos + size
  | .undefined => 0

section Read
variable (perl : Perl) (cbc : CBC) (mem : Memory)

def integerSv (sign : Bool) (iv : IntValue) : SV :=
  newSViv (if sign then iv.value.toInt else iv.value.toNat)

/-- The bytes of a floating point value in the order of the machine. -/
def nativeBytes (order : CByteOrder) (bytes : List Byte) : List Byte :=
  if order = cbc.nativeByteorder then bytes else bytes.reverse

def Leaf.read : Leaf → SV
  | .integer w sign => integerSv sign (w.fetch sign mem)
  | .enum w pES => enumSv cbc pES (w.fetch pES.signed mem).value.toInt
  | .float pos size order =>
    newSVnv (perl.floatValue (nativeBytes cbc order (bytesAt mem pos size)))
  | .unsupported _ _ => newSVnv 0
  | .undefined => SV.undef

/-- The value of a type whose object starts at the address 0 of the memory. -/
def Shape.read (shape : Shape) : SV :=
  shape.fold (Leaf.read perl cbc mem) (fun elems => .av (elems.map some)) .hv

/-- The values of members. -/
def readMembers (members : List (String × Shape)) : Hash :=
  members.map fun m => (m.1, Shape.read perl cbc mem m.2)

end Read

@[simp] theorem Shape.read_leaf (perl : Perl) (cbc : CBC) (mem : Memory) (leaf : Leaf) :
    Shape.read perl cbc mem (.leaf leaf) = leaf.read perl cbc mem := rfl

theorem Shape.read_array (perl : Perl) (cbc : CBC) (mem : Memory) (elems : List Shape) :
    Shape.read perl cbc mem (.array elems) = .av ((elems.map (Shape.read perl cbc mem)).map some) :=
  fold_array ..

theorem Shape.read_record (perl : Perl) (cbc : CBC) (mem : Memory) (members : List (String × Shape)) :
    Shape.read perl cbc mem (.record members) = .hv (readMembers perl cbc mem members) :=
  fold_record ..

/-- A member is looked up in the hash of the members before it. -/
theorem lookup_readMembers (perl : Perl) (cbc : CBC) (mem : Memory) (members : List (String × Shape))
    (identifier : String) : ((readMembers perl cbc mem members).lookup identifier).isSome =
      members.any fun m => m.1 = identifier := by
  unfold readMembers
  induction members with
  | nil => rfl
  | cons m members ih =>
    rw [List.map_cons, List.lookup_cons, List.any_cons, ← ih]
    by_cases hname : m.1 = identifier
    · simp [hname]
    · have hne : (identifier == m.1) = false := beq_false_of_ne fun h => hname h.symm
      rw [hne]
      simp [hname]

/-- Are there no tags that packing asks for, apart from ByteOrder? -/
def CtTagList.ordinary (tags : CtTagList) : Bool :=
  tags.format.isNone && tags.dimension.isNone && tags.hooks.isNone

/-- A window at a position, if `fetch_integer` handles its size and its bits. -/
def windowAt (pos size : ℤ) (bits shift : ℕ) (order : CByteOrder) : Option Window :=
  if h : (0 ≤ pos ∧ 0 ≤ size) ∧ IntegerSize size.toNat ∧
      bits + windowShift bits shift ≤ 8 * size.toNat then
    some ⟨pos.toNat, size.toNat, bits, shift, order, h.2.1, h.2.2⟩
  else none

abbrev ShapeTypeFn :=
  TypeSpec → Option Declarator → ℕ → Option BitfieldInfo → ℤ → CByteOrder → Option Shape
abbrev ShapeStructFn :=
  ℕ → List (String × Shape) → Bool → ℤ → CByteOrder → Option (List (String × Shape))

section Leaves
variable (cbc : CBC)

def windowFor (pos size : ℤ) (pBI : Option BitfieldInfo) (order : CByteOrder) : Option Window :=
  windowAt pos size (bitsOf pBI).1 (bitsOf pBI).2 (orderFor cbc pBI order)

def pointerShape (pos : ℤ) (order : CByteOrder) : Option Shape := do
  let w ← windowFor cbc pos (ptrSize cbc) none order
  some (.leaf (.integer w false))

def floatLeaf (flags : TFlags) (pos size : ℤ) (order : CByteOrder) : Leaf :=
  if isFpType flags && isFpSize cbc size then .float pos.toNat size.toNat order
  else .unsupported pos.toNat size.toNat

def basicShape (flags : TFlags) (pBI : Option BitfieldInfo) (pos : ℤ) (order : CByteOrder) :
    Option Shape :=
  let (size, flags) := packLoadSize cbc flags pBI
  if flags.test (T_FLOAT ||| T_DOUBLE) then
    if 0 ≤ pos ∧ 0 ≤ size then some (.leaf (floatLeaf cbc flags pos size order)) else none
  else do
    let w ← windowFor cbc pos size pBI order
    some (.leaf (.integer w (!flags.test T_UNSIGNED)))

def enumShape (pES : EnumSpecifier) (pBI : Option BitfieldInfo) (pos : ℤ) (order : CByteOrder) :
    Option Shape :=
  if pES.tags.ordinary then do
    let w ← windowFor cbc pos (packEnumSize cbc pES pBI) pBI (pES.tags.orderOr order)
    some (.leaf (.enum w pES))
  else none

end Leaves

section Steps
variable (cbc : CBC) (fuel : ℕ) (shapeType : ShapeTypeFn) (shapeStruct : ShapeStructFn)

def elementShape (pTS : TypeSpec) (pDecl : Declarator) (dimension : ℕ) (pos size : ℤ)
    (order : CByteOrder) (i : ℕ) : Option Shape := do
  let distance ← (long (i * size)).toOption
  shapeType pTS (some pDecl) (dimension + 1) none (pos + distance) order

/-- A dimension without a number leaves the number of elements to the data. -/
def arrayShape (pTS : TypeSpec) (pDecl : Declarator) (dimension : ℕ) (pos : ℤ)
    (order : CByteOrder) : Option Shape := do
  let size ← (elementStride pDecl dimension).toOption
  let pValue ← pDecl.dims[dimension]?
  if size = 0 ∨ pValue.undef then none
  else do
    let elems ← (List.range pValue.iv.toNat).mapM
      (elementShape shapeType pTS pDecl dimension pos size order)
    some (.array elems)

def untaggedShape (pTS : TypeSpec) (pDecl : Option Declarator) (dimension : ℕ)
    (pBI : Option BitfieldInfo) (pos : ℤ) (order : CByteOrder) : Option Shape :=
  match pDecl.filter fun d => decide (dimension < d.dims.length) with
  | some d => arrayShape shapeType pTS d dimension pos order
  | none =>
    if pDecl.any Declarator.pointer_flag then
      if (typespecHooks cbc.heap pTS).isNone then pointerShape cbc pos order else none
    else match pTS with
      | .typedef t =>
        let td := cbc.heap.typedefAt t
        shapeType td.type (some td.decl) 0 pBI pos order
      | .compound _ s =>
        match (cbc.heap.structAt s).declarations with
        | none => some (.leaf .undefined)
        | some _ => do
          let members ← shapeStruct s [] false pos order
          some (.record members)
      | .enum e => enumShape cbc (cbc.heap.enumAt e) pBI pos order
      | .basic flags => basicShape cbc flags pBI pos order

def shapeTypeStep : ShapeTypeFn := fun pTS pDecl dimension pBI pos order =>
  match pDecl, dimension with
  | some d, 0 =>
    if d.tags.ordinary then
      untaggedShape cbc shapeType shapeStruct pTS pDecl dimension pBI pos (d.tags.orderOr order)
    else none
  | _, _ => untaggedShape cbc shapeType shapeStruct pTS pDecl dimension pBI pos order

def memberShape (pos : ℤ) (order : CByteOrder) (type : TypeSpec) (members : List (String × Shape))
    (pDecl : Declarator) : Option (List (String × Shape)) :=
  if pDecl.identifier = "" then some members
  else if members.any fun m => m.1 = pDecl.identifier then none
  else do
    let shape ← shapeType type (some pDecl) 0 (match pDecl.ext with
      | .bitfield bit => some bit
      | _ => none) (pos + pDecl.offset) order
    some (members ++ [(pDecl.identifier, shape)])

/-- The members of an unnamed compound count as members of the compound around it. -/
def declarationShape (pos : ℤ) (order : CByteOrder) (members : List (String × Shape))
    (pStructDecl : StructDeclaration) : Option (List (String × Shape)) :=
  match pStructDecl.declarators with
  | some declarators => declarators.foldlM (memberShape shapeType pos order pStructDecl.type) members
  | none => do
    let s ← (followTsptr cbc.heap fuel pStructDecl.type).toOption
    shapeStruct s members true (pos + pStructDecl.offset) order

/-- The tags of an unnamed compound are ignored. -/
def shapeStructStep : ShapeStructFn := fun s members inlined pos order =>
  let pStruct := cbc.heap.structAt s
  if inlined then
    (pStruct.declarations.getD []).foldlM
      (declarationShape cbc fuel shapeType shapeStruct pos order) members
  else if pStruct.tags.ordinary then
    (pStruct.declarations.getD []).foldlM
      (declarationShape cbc fuel shapeType shapeStruct pos (pStruct.tags.orderOr order)) members
  else none

end Steps

section Recursion
variable (cbc : CBC)

mutual

/-- The shape of a type whose object starts at `pos`. -/
def shapeType : ℕ → ShapeTypeFn
  | 0 => fun _ _ _ _ _ _ => none
  | fuel + 1 => shapeTypeStep cbc (shapeType fuel) (shapeStruct fuel)

/-- The given members with those of a compound. -/
def shapeStruct : ℕ → ShapeStructFn
  | 0 => fun _ _ _ _ _ => none
  | fuel + 1 => shapeStructStep cbc fuel (shapeType fuel) (shapeStruct fuel)

end

end Recursion

/-- All leaves of the object lie in the buffer, from `base` on. -/
structure Shape.Fits (shape : Shape) (perl : Perl) (base : ℕ) (length : ℤ) : Prop where
  leaves : ∀ leaf ∈ shape.leaves, (base + leaf.stop : ℤ) ≤ length
  elements : ∀ n ∈ shape.widths, (8 * n : ℤ) ≤ perl.memory

/-- The bits that the value of the type is read from. -/
def Shape.bits (shape : Shape) : Set (ℕ × ℕ) := shape.footprint Leaf.footprint

section Window
variable (w : Window)

/-- A fetch depends on the bits of its window only. -/
theorem Window.fetchInteger_congr (sign : Bool) {mem mem' : Memory} {ptr ptr' : ℕ}
    (h : ∀ j, windowShift w.bits w.shift ≤ j →
      j < windowShift w.bits w.shift + windowWidth w.size w.bits →
      unitBit w.order w.size mem ptr j = unitBit w.order w.size mem' ptr' j) :
    fetchInteger w.size sign w.bits w.shift w.order mem ptr ⟨0, sign, none⟩ =
      fetchInteger w.size sign w.bits w.shift w.order mem' ptr' ⟨0, sign, none⟩ := by
  obtain ⟨f, hf, hbits⟩ := fetchInteger_window w.size w.bits w.shift w.integer w.inside sign w.order
    mem ptr ⟨0, sign, none⟩ rfl
  obtain ⟨f', hf', hbits'⟩ := fetchInteger_window w.size w.bits w.shift w.integer w.inside sign
    w.order mem' ptr' ⟨0, sign, none⟩ rfl
  have hwidth : 0 < windowWidth w.size w.bits := by
    have hpos := w.integer.pos
    unfold windowWidth
    split_ifs
    · omega
    · omega
  have hsame : f = f' := by
    apply BitVec.eq_of_getLsbD_eq
    intro j hj
    -- the bits of the window, and copies of its top bit above them
    rw [hbits j hj, hbits' j hj, h (_ + windowWidth w.size w.bits - 1) (by omega) (by omega)]
    split_ifs with hin
    · exact h _ (by omega) (by omega)
    · rfl
  rw [hf, hf', hsame]

theorem Window.fetch_eq (sign : Bool) (mem : Memory) :
    fetchInteger w.size sign w.bits w.shift w.order mem w.pos ⟨0, sign, none⟩ =
      .ok (w.fetch sign mem) := by
  obtain ⟨f, hf, _⟩ := fetchInteger_window w.size w.bits w.shift w.integer w.inside sign w.order
    mem w.pos ⟨0, sign, none⟩ rfl
  unfold Window.fetch
  rw [hf]

/-- The value is the same for memories that agree where the leaf is. -/
theorem Window.fetch_congr (sign : Bool) {mem mem' : Memory}
    (h : Set.EqOn (bitAt mem) (bitAt mem') w.footprint) : w.fetch sign mem = w.fetch sign mem' := by
  have hsame := @Window.fetchInteger_congr w sign mem mem' w.pos w.pos
    fun j hlow hhigh => by
      have hmem : (w.pos + unitByte w.order w.size j, j % 8) ∈ w.footprint := ⟨j, hlow, hhigh, rfl⟩
      exact h hmem
  rw [w.fetch_eq, w.fetch_eq] at hsame
  exact Except.ok.inj hsame

/-- A fetch behind the base is a fetch from the memory from there on. -/
theorem Window.fetch_from (sign : Bool) (mem : Memory) (base : ℕ) :
    fetchInteger w.size sign w.bits w.shift w.order mem (base + w.pos) ⟨0, sign, none⟩ =
      .ok (w.fetch sign (mem.from base)) := by
  rw [← w.fetch_eq]
  apply w.fetchInteger_congr
  intro j _ _
  show (mem (base + w.pos + _)).getLsbD _ = (mem (base + (w.pos + _))).getLsbD _
  rw [Nat.add_assoc]

end Window

/-- What a window is made of. -/
theorem windowAt_some {pos size : ℤ} {bits shift : ℕ} {order : CByteOrder} {w : Window}
    (h : windowAt pos size bits shift order = some w) :
    (w.pos : ℤ) = pos ∧ (w.size : ℤ) = size ∧ w.bits = bits ∧ w.shift = shift ∧ w.order = order := by
  unfold windowAt at h
  split_ifs at h with hw
  · cases h
    exact ⟨Int.toNat_of_nonneg hw.1.1, Int.toNat_of_nonneg hw.1.2, rfl, rfl, rfl⟩

/-- A leaf is in front of its end. -/
theorem Leaf.lt_stop {leaf : Leaf} {p : ℕ × ℕ} (hp : p ∈ leaf.footprint) : p.1 < leaf.stop := by
  have hwindow (w : Window) (hp : p ∈ w.footprint) : p.1 < w.pos + w.size := by
    obtain ⟨j, _, hhigh, rfl⟩ := hp
    have hpos := w.integer.pos
    have hinside : j < 8 * w.size := by
      have hw := w.inside
      unfold windowWidth windowShift at *
      split_ifs at * <;> omega
    show w.pos + unitByte w.order w.size j < w.pos + w.size
    cases w.order with
    | littleEndian =>
      rw [unitByte]
      omega
    | bigEndian =>
      rw [unitByte]
      omega
  cases leaf with
  | integer w sign => exact hwindow w hp
  | enum w pES => exact hwindow w hp
  | float pos size order => exact hp.2
  | unsupported pos size => exact hp.elim
  | undefined => exact hp.elim

theorem Memory.bytesAt_from (mem : Memory) (base pos size : ℕ) :
    bytesAt (mem.from base) pos size = bytesAt mem (base + pos) size := by
  unfold bytesAt
  apply List.map_congr_left
  intro i _
  show mem (base + (pos + i)) = mem (base + pos + i)
  rw [Nat.add_assoc]

theorem bytesAt_congr {mem mem' : Memory} {pos size : ℕ}
    (h : Set.EqOn (bitAt mem) (bitAt mem') {p | pos ≤ p.1 ∧ p.1 < pos + size}) :
    bytesAt mem pos size = bytesAt mem' pos size := by
  unfold bytesAt
  apply List.map_congr_left
  intro i hi
  have hlt := List.mem_range.mp hi
  apply BitVec.eq_of_getLsbD_eq
  intro j _
  have hin : (pos + i, j) ∈ {p : ℕ × ℕ | pos ≤ p.1 ∧ p.1 < pos + size} := by
    show pos ≤ pos + i ∧ pos + i < pos + size
    omega
  exact h hin

theorem Leaf.read_congr (perl : Perl) (cbc : CBC) (leaf : Leaf) {mem mem' : Memory}
    (h : Set.EqOn (bitAt mem) (bitAt mem') leaf.footprint) :
    leaf.read perl cbc mem = leaf.read perl cbc mem' := by
  cases leaf with
  | integer w sign => rw [Leaf.read, Leaf.read, w.fetch_congr sign h]
  | enum w pES => rw [Leaf.read, Leaf.read, w.fetch_congr pES.signed h]
  | float pos size order => rw [Leaf.read, Leaf.read, bytesAt_congr h]
  | unsupported pos size => rfl
  | undefined => rfl

theorem Shape.bits_leaf (leaf : Leaf) : Shape.bits (.leaf leaf) = leaf.footprint := footprint_leaf leaf

/-- The value of a type depends on the bits of its leaves only. -/
theorem Shape.read_congr (perl : Perl) (cbc : CBC) (shape : Shape) {mem mem' : Memory}
    (h : Set.EqOn (bitAt mem) (bitAt mem') shape.bits) :
    shape.read perl cbc mem = shape.read perl cbc mem' := by
  apply fold_congr
  intro leaf hleaf
  apply leaf.read_congr perl cbc
  exact h.mono fun p hp => mem_footprint hleaf hp

/-- Members that were added, under new names. -/
structure Extends (members members' : List (String × Shape)) : Prop where
  added : members <+: members'
  nodup : (members.map Prod.fst).Nodup → (members'.map Prod.fst).Nodup

theorem Extends.refl (members : List (String × Shape)) : Extends members members :=
  ⟨List.prefix_rfl, id⟩

theorem Extends.trans {members members' members'' : List (String × Shape)}
    (h : Extends members members') (h' : Extends members' members'') : Extends members members'' :=
  ⟨h.added.trans h'.added, fun hnodup => h'.nodup (h.nodup hnodup)⟩

section Extends
variable {cbc : CBC} {fuel : ℕ}

theorem memberShape_extends {shapeType : ShapeTypeFn} {pos : ℤ} {order : CByteOrder} {type : TypeSpec}
    {pDecl : Declarator} {members members' : List (String × Shape)}
    (h : memberShape shapeType pos order type members pDecl = some members') :
    Extends members members' := by
  unfold memberShape at h
  split_ifs at h with _ hknown
  · cases h
    exact Extends.refl members
  · obtain ⟨shape, _, h⟩ := Option.bind_eq_some_iff.mp h
    cases h
    refine ⟨List.prefix_append members _, fun hnodup => ?_⟩
    rw [List.map_append, List.map_singleton]
    apply List.Nodup.append hnodup (List.nodup_singleton _)
    rw [List.disjoint_singleton]
    intro hmem
    obtain ⟨m, hm, hname⟩ := List.mem_map.mp hmem
    exact hknown (List.any_eq_true.mpr ⟨m, hm, decide_eq_true hname⟩)

theorem declarationShape_extends {shapeType : ShapeTypeFn} {shapeStruct : ShapeStructFn}
    (hstruct : ∀ {i members inlined pos order members'},
      shapeStruct i members inlined pos order = some members' → Extends members members')
    {pos : ℤ} {order : CByteOrder} {sd : StructDeclaration} {members members' : List (String × Shape)}
    (h : declarationShape cbc fuel shapeType shapeStruct pos order members sd = some members') :
    Extends members members' := by
  unfold declarationShape at h
  cases hdeclarators : sd.declarators with
  | some declarators =>
    rw [hdeclarators] at h
    exact foldlM_rel Extends.refl Extends.trans (fun _ _ _ _ => memberShape_extends) h
  | none =>
    rw [hdeclarators] at h
    obtain ⟨s, _, h⟩ := Option.bind_eq_some_iff.mp h
    exact hstruct h

/-- The members of a compound are added to those that are there. -/
theorem shapeStruct_extends {i : ℕ} {members members' : List (String × Shape)} {inlined : Bool}
    {pos : ℤ} {order : CByteOrder}
    (h : shapeStruct cbc fuel i members inlined pos order = some members') :
    Extends members members' := by
  induction fuel generalizing i members members' inlined pos order with
  | zero => exact nomatch h
  | succ fuel ih =>
    rw [shapeStruct] at h
    unfold shapeStructStep at h
    dsimp only at h
    split_ifs at h
    · exact foldlM_rel Extends.refl Extends.trans (fun _ _ _ _ => declarationShape_extends ih) h
    · exact foldlM_rel Extends.refl Extends.trans (fun _ _ _ _ => declarationShape_extends ih) h

end Extends

end ConvertBinaryC
