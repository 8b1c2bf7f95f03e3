import ConvertBinaryC.PasteRules
import ConvertBinaryC.CBCShapeUnpack

/-! Packing what was unpacked, for a type that has a shape: the bits of the shape are copied, and no
other bit of the buffer changes. -/
namespace ConvertBinaryC

open StateRules TreeRules PasteRules

/-- What the value of an enumerated or a floating point leaf has to be packed to. An integer is
always packed to itself. -/
def Leaf.Exact (perl : Perl) (cbc : CBC) (src : Memory) : Leaf → Prop
  | .enum w pES => ∀ sc, enumSv cbc pES (w.fetch pES.signed src).value.toInt = .scalar sc →
      enumValue perl cbc sc = (w.fetch pES.signed src).value.toInt
  | .float pos size order =>
    List.ofFn (perl.floatBytes size ⟨none, some (perl.floatValue
      (nativeBytes cbc order (bytesAt src pos size))), none⟩) =
        nativeBytes cbc order (bytesAt src pos size)
  | _ => True

def Shape.Exact (shape : Shape) (perl : Perl) (cbc : CBC) (src : Memory) : Prop :=
  ∀ leaf ∈ shape.leaves, leaf.Exact perl cbc src

/-- Packing copies bits from a memory and keeps the size of the buffer. -/
def pasteEffect (src : Memory) : Graded PackInfo (ℕ × ℕ) where
  returns S s t := Pastes bitAt S src s.buffer t.buffer ∧ t.length = s.length ∧ t.cur = s.cur ∧
    t.order = s.order
  refl s := ⟨Pastes.refl s.buffer, rfl, rfl, rfl⟩
  trans h h' := ⟨h.1.trans h'.1, h'.2.1.trans h.2.1, h'.2.2.1.trans h.2.2.1,
    h'.2.2.2.trans h.2.2.2⟩

section Window
variable (w : Window) {src mem mem' : Memory} {v : BitVec 64} {sign : Bool}

/-- Storing the bits of the window copies the window. -/
theorem Window.store_pastes
    (hv : ∀ j, j < windowWidth w.size w.bits →
      v.getLsbD j = unitBit w.order w.size src w.pos (windowShift w.bits w.shift + j))
    (hstore : storeInteger w.size w.bits w.shift w.order mem w.pos ⟨v, sign, none⟩ = .ok mem') :
    Pastes bitAt w.footprint src mem mem' := by
  obtain ⟨m, hm, hunit, hframe⟩ := storeInteger_window w.size w.bits w.shift w.integer w.inside
    w.order mem w.pos ⟨v, sign, none⟩
  cases hm.symm.trans hstore
  have hfit : windowShift w.bits w.shift + windowWidth w.size w.bits ≤ 8 * w.size := by
    have hw := w.inside
    unfold windowWidth windowShift at *
    split_ifs at * <;> omega
  constructor
  · rintro _ ⟨j, hlow, hhigh, rfl⟩
    show unitBit w.order w.size mem' w.pos j = unitBit w.order w.size src w.pos j
    rw [hunit j (by omega), if_pos ⟨hlow, hhigh⟩]
    show v.getLsbD _ = _
    rw [hv _ (by omega), Nat.add_sub_cancel' hlow]
  · rintro ⟨a, k⟩ hout
    show (mem' a).getLsbD k = (mem a).getLsbD k
    by_cases hin : a < w.pos ∨ w.pos + w.size ≤ a
    · rw [hframe a hin]
    · by_cases hk : 8 ≤ k
      · rw [BitVec.getLsbD_of_ge _ _ hk, BitVec.getLsbD_of_ge _ _ hk]
      · -- the bit of the unit that is at this address
        have hlow : w.pos ≤ a := by omega
        have hhigh : a < w.pos + w.size := by omega
        obtain ⟨j, hj, hbyte, hmod⟩ := exists_unitByte w.order hlow hhigh (not_le.mp hk)
        have hwindow : ¬ (windowShift w.bits w.shift ≤ j ∧
            j < windowShift w.bits w.shift + windowWidth w.size w.bits) := by
          intro h
          apply hout
          exact ⟨j, h.1, h.2, by rw [hbyte, hmod]⟩
        have hsame := hunit j hj
        rw [if_neg hwindow] at hsame
        unfold unitBit at hsame
        rwa [hbyte, hmod] at hsame

/-- The value that was fetched from a window has its bits. -/
theorem Window.fetch_bits (sign : Bool) (src : Memory) (j : ℕ) (hj : j < windowWidth w.size w.bits) :
    (w.fetch sign src).value.getLsbD j =
      unitBit w.order w.size src w.pos (windowShift w.bits w.shift + j) := by
  obtain ⟨f, hf, hbits⟩ := fetchInteger_window w.size w.bits w.shift w.integer w.inside sign w.order
    src w.pos ⟨0, sign, none⟩ rfl
  have hfetch := (w.fetch_eq sign src).symm.trans hf
  have hwide : windowWidth w.size w.bits ≤ 64 := by
    have hle := w.integer.le
    have hw := w.inside
    unfold windowWidth windowShift at *
    split_ifs at * <;> omega
  rw [Except.ok.inj hfetch]
  exact (hbits j (by omega)).trans (if_pos hj)

end Window

theorem growBuffer_fits {perl : Perl} {s : PackInfo} {size : ℤ} (hsize : 0 ≤ s.pos + size)
    (hfits : s.pos + size ≤ s.length) (hshort : s.length < 18446744073709551616) :
    growBuffer perl size s = .ok () (s.emit (.grow s.path (u64 (s.pos + size)))) := by
  have hle : ¬ u64 (s.pos + size) > s.length := by
    rw [u64_of_lt hsize (by omega)]
    omega
  show (if u64 (s.pos + size) > s.length then _ else pure () : Pk Unit) _ = _
  rw [if_neg hle]
  rfl

theorem nativeBytes_nativeBytes (cbc : CBC) (order : CByteOrder) (bytes : List Byte) :
    nativeBytes cbc order (nativeBytes cbc order bytes) = bytes := by
  unfold nativeBytes
  split_ifs
  · rfl
  · exact List.reverse_reverse bytes

theorem length_bytesAt (mem : Memory) (pos size : ℕ) : (bytesAt mem pos size).length = size := by
  unfold bytesAt
  rw [List.length_map, List.length_range]

section Leaves
variable {perl : Perl} {cbc : CBC} {src : Memory} {s : PackInfo} {pos : ℤ} {order : CByteOrder}
  (hat : s.At 0 pos order)
include hat

/-- An integer is stored where its window is. -/
theorem storeInt_window {size : ℤ} {pBI : Option BitfieldInfo} {w : Window} {v : BitVec 64}
    {sign : Bool} (hw : windowFor cbc pos size pBI order = some w)
    (hv : ∀ j, j < windowWidth w.size w.bits →
      v.getLsbD j = unitBit w.order w.size src w.pos (windowShift w.bits w.shift + j))
    (hfits : ((0 : ℕ) + (w.pos + w.size : ℕ) : ℤ) ≤ s.length) :
    growBuffer perl size s = .ok () (s.emit (.grow s.path (u64 (s.pos + size)))) ∧
      (pasteEffect src).Does (storeInt cbc size pBI ⟨v, sign, none⟩) w.footprint s := by
  obtain ⟨hpos, hsize, hbits, hshift, horder⟩ := windowAt_some hw
  push_cast at hfits
  have hplace : s.pos = (0 : ℕ) + pos :=
    @PackInfo.At.pos_of_fits s 0 pos order hat size (by omega) (by omega) (by push_cast; omega)
  push_cast at hplace
  have hinside : ¬ s.pos + size > s.length := by omega
  have hptr : w.pos = s.pos.toNat := by omega
  have hwsize : w.size = size.toNat := by omega
  obtain ⟨mem', hstore, _⟩ := storeInteger_window w.size w.bits w.shift w.integer w.inside w.order
    s.buffer w.pos ⟨v, sign, none⟩
  have hpastes := w.store_pastes hv hstore
  constructor
  · exact growBuffer_fits (by omega) (by omega) hat.short
  · rw [hptr, hbits, hshift, horder, hwsize, ← hat.order_eq, ← intOrder_eq] at hstore
    refine ⟨{ s.emit (.access s.path pBI.isSome (intOrder cbc s pBI) s.pos size) with
      buffer := mem' }, ?_, hpastes, rfl, rfl, rfl⟩
    show (if s.pos + size > s.length then throw .undefinedBehaviour
      else liftCall (storeInteger size.toNat (bitsOf pBI).1 (bitsOf pBI).2 (intOrder cbc s pBI)
        s.buffer s.pos.toNat ⟨v, sign, none⟩) >>= fun buffer =>
          modify fun st => { st with buffer := buffer } : Pk Unit) _ = _
    rw [if_neg hinside, hstore]
    rfl

/-- The value of an integer leaf is stored as what was fetched. -/
theorem storeIntSv_window {size : ℤ} {pBI : Option BitfieldInfo} {w : Window} {sign : Bool}
    (hw : windowFor cbc pos size pBI order = some w)
    (hfits : ((0 : ℕ) + (w.pos + w.size : ℕ) : ℤ) ≤ s.length) :
    ∃ sc, integerSv sign (w.fetch sign src) = .scalar sc ∧
      (pasteEffect src).Does (storeIntSv perl cbc size sign pBI sc) w.footprint s := by
  let iv := w.fetch sign src
  refine ⟨⟨some (if sign then iv.value.toInt else iv.value.toNat), none, none⟩, rfl, ?_⟩
  have hvalue : (if sign then BitVec.ofInt 64 (perl.intOf
      ⟨some (if sign then iv.value.toInt else iv.value.toNat), none, none⟩).1
      else BitVec.ofInt 64 (perl.unsignedOf
        ⟨some (if sign then iv.value.toInt else iv.value.toNat), none, none⟩).1) = iv.value := by
    cases sign with
    | true =>
      have hlong : IsLong iv.value.toInt := by
        have hle := BitVec.le_toInt iv.value
        have hlt := BitVec.toInt_lt (x := iv.value)
        unfold IsLong
        omega
      show BitVec.ofInt 64 (i64 iv.value.toInt) = iv.value
      rw [i64_of_isLong hlong, BitVec.ofInt_toInt]
    | false =>
      show BitVec.ofInt 64 (u64 iv.value.toNat) = iv.value
      rw [u64_of_lt (Int.natCast_nonneg _) (by exact_mod_cast iv.value.isLt), BitVec.ofInt_natCast,
        BitVec.ofNat_toNat, BitVec.setWidth_eq]
  unfold storeIntSv
  dsimp only
  rw [hvalue]
  exact (@storeInt_window perl cbc src s pos order hat _ _ w _ _ hw (w.fetch_bits sign src) hfits).2

omit hat in
/-- Growth is only noted when there is room. -/
theorem PackInfo.At.grown (hat : s.At 0 pos order) (required : ℤ) :
    (s.emit (.grow s.path required)).At 0 pos order :=
  ⟨hat.pos_eq, hat.order_eq, hat.short⟩

theorem packPointer_shape {shape : Shape} (hshape : pointerShape cbc pos order = some shape)
    (hfits : shape.Fits perl 0 s.length) :
    (pasteEffect src).Does (packPointer perl cbc (shape.read perl cbc src)) shape.bits s := by
  obtain ⟨w, hw, hshape⟩ := Option.bind_eq_some_iff.mp hshape
  cases hshape
  have hstop := hfits.leaves (.integer w false) (List.mem_singleton.mpr rfl)
  have hgrow := (@storeInt_window perl cbc src s pos order hat _ _ w _ false hw
    (w.fetch_bits false src) hstop).1
  obtain ⟨sc, hsc, hstore⟩ := @storeIntSv_window perl cbc src _ pos order
    (hat.grown (u64 (s.pos + ptrSize cbc))) _ _ w false hw hstop
  apply Graded.Does.step hgrow ((pasteEffect src).refl s)
  rw [Shape.read_leaf, Leaf.read, hsc, Shape.bits_leaf]
  exact hstore

/-- A floating point value that is stored as the bytes that it was read from. -/
theorem storeFloatSv_leaf {size : ℤ} {flags : TFlags} (hpos : 0 ≤ pos) (hsize : 0 ≤ size)
    (hfits : (pos + size : ℤ) ≤ s.length)
    (hexact : (floatLeaf cbc flags pos size order).Exact perl cbc src) :
    ∃ sc, (floatLeaf cbc flags pos size order).read perl cbc src = .scalar sc ∧
      (pasteEffect src).Does (storeFloatSv perl cbc size flags sc)
        (floatLeaf cbc flags pos size order).footprint s := by
  have hplace : s.pos = (0 : ℕ) + pos := hat.pos_of_fits hpos hsize (by push_cast; omega)
  push_cast at hplace
  unfold floatLeaf storeFloatSv at *
  by_cases hknown : (isFpType flags && isFpSize cbc size) = true
  · rw [if_pos hknown] at hexact
    rw [if_pos hknown]
    refine ⟨_, rfl, ?_⟩
    rw [if_pos hknown]
    have hptr : s.pos.toNat = pos.toNat := by omega
    have hinside : ¬ s.pos + size.toNat > s.length := by omega
    -- in the order of the memory again, these are the bytes there
    have hbytes : nativeBytes cbc s.order (List.ofFn (perl.floatBytes size.toNat ⟨none, some
        (perl.floatValue (nativeBytes cbc order (bytesAt src pos.toNat size.toNat))), none⟩)) =
        bytesAt src pos.toNat size.toNat := by
      rw [hexact, hat.order_eq, nativeBytes_nativeBytes]
    let old := s.emit (.access s.path false s.order s.pos size)
    let new : PackInfo := { old with buffer := fun i =>
      if s.pos.toNat ≤ i ∧ i < s.pos.toNat + size.toNat then
        (bytesAt src pos.toNat size.toNat).getD (i - s.pos.toNat) 0 else s.buffer i }
    have hstore : storeBytes (bytesAt src pos.toNat size.toNat).length
        (fun i => (bytesAt src pos.toNat size.toNat).getD i 0) old = .ok () new := by
      rw [length_bytesAt]
      show (if s.pos + size.toNat > s.length then throw .undefinedBehaviour else _ : Pk Unit) old = _
      rw [if_neg hinside]
      rfl
    refine ⟨new, ?_, ⟨?_, ?_⟩, rfl, rfl, rfl⟩
    · rw [← hbytes] at hstore
      exact hstore.trans rfl
    · rintro ⟨a, k⟩ ⟨hlow, hhigh⟩
      show (if _ then _ else _ : Byte).getLsbD k = (src a).getLsbD k
      dsimp only at hlow hhigh
      rw [if_pos (by omega), hptr]
      unfold bytesAt
      rw [List.getD_eq_getElem?_getD, List.getElem?_map, List.getElem?_range (by omega)]
      show (src (pos.toNat + (a - pos.toNat))).getLsbD k = _
      rw [Nat.add_sub_cancel' hlow]
    · rintro ⟨a, k⟩ hout
      show (if _ then _ else _ : Byte).getLsbD k = (s.buffer a).getLsbD k
      rw [if_neg fun h => hout (by rw [hptr] at h; exact h)]
  · rw [if_neg hknown]
    refine ⟨⟨none, some 0, none⟩, rfl, ?_⟩
    rw [if_neg hknown]
    exact Graded.does_pure s

theorem packBasic_shape {flags : TFlags} {pBI : Option BitfieldInfo} {shape : Shape}
    (hshape : basicShape cbc flags pBI pos order = some shape) (hfits : shape.Fits perl 0 s.length)
    (hexact : shape.Exact perl cbc src) :
    (pasteEffect src).Does (packBasic perl cbc flags pBI (shape.read perl cbc src)) shape.bits s := by
  unfold basicShape at hshape
  unfold packBasic
  generalize packLoadSize cbc flags pBI = load at hshape ⊢
  obtain ⟨size, flags⟩ := load
  dsimp only at hshape ⊢
  by_cases hfloat : flags.test (T_FLOAT ||| T_DOUBLE) = true
  · rw [if_pos hfloat] at hshape
    split_ifs at hshape with hplace
    cases hshape
    have hstop := hfits.leaves (floatLeaf cbc flags pos size order) (List.mem_singleton.mpr rfl)
    rw [floatLeaf_stop] at hstop
    push_cast at hstop
    have hspos : s.pos = (0 : ℕ) + pos := hat.pos_of_fits hplace.1 hplace.2 (by push_cast; omega)
    push_cast at hspos
    have hgrow := @growBuffer_fits perl s size (by omega) (by omega) hat.short
    obtain ⟨sc, hsc, hstore⟩ := storeFloatSv_leaf (hat.grown (u64 (s.pos + size))) hplace.1 hplace.2
      (by show _ ≤ s.length; omega) (hexact _ (List.mem_singleton.mpr rfl))
    apply Graded.Does.step hgrow ((pasteEffect src).refl s)
    rw [Shape.read_leaf, hsc]
    dsimp only
    rw [show T_DOUBLE ||| T_FLOAT = T_FLOAT ||| T_DOUBLE by decide, if_pos hfloat, Shape.bits_leaf]
    exact hstore
  · rw [if_neg hfloat] at hshape
    obtain ⟨w, hw, hshape⟩ := Option.bind_eq_some_iff.mp hshape
    cases hshape
    let sign := !flags.test T_UNSIGNED
    have hstop := hfits.leaves (.integer w sign) (List.mem_singleton.mpr rfl)
    have hgrow := (@storeInt_window perl cbc src s pos order hat _ _ w _ sign hw
      (w.fetch_bits sign src) hstop).1
    obtain ⟨sc, hsc, hstore⟩ := @storeIntSv_window perl cbc src _ pos order
      (hat.grown (u64 (s.pos + size))) _ _ w sign hw hstop
    apply Graded.Does.step hgrow ((pasteEffect src).refl s)
    rw [Shape.read_leaf, Leaf.read, hsc]
    dsimp only
    rw [show T_DOUBLE ||| T_FLOAT = T_FLOAT ||| T_DOUBLE by decide, if_neg hfloat, Shape.bits_leaf]
    exact hstore

end Leaves

section Enum
variable {perl : Perl} {cbc : CBC} {src : Memory} {s : PackInfo} {pos : ℤ} {order : CByteOrder}

/-- The value of an enum is a scalar, whatever EnumType says. -/
theorem enumSv_scalar (cbc : CBC) (pES : EnumSpecifier) (value : ℤ) :
    ∃ sc, enumSv cbc pES value = .scalar sc := by
  unfold enumSv
  cases cbc.enumType with
  | integer => exact ⟨_, rfl⟩
  | both => exact ⟨_, rfl⟩
  | string => exact ⟨_, rfl⟩

/-- Unless enums are unpacked to names only, their values are packed to themselves. -/
theorem Leaf.exact_enum (w : Window) (pES : EnumSpecifier) (h : cbc.enumType ≠ .string) :
    (Leaf.enum w pES).Exact perl cbc src := by
  intro sc hsc
  have hlong : IsLong (w.fetch pES.signed src).value.toInt := by
    have hle := BitVec.le_toInt (w.fetch pES.signed src).value
    have hlt := BitVec.toInt_lt (x := (w.fetch pES.signed src).value)
    unfold IsLong
    omega
  unfold enumSv at hsc
  cases htype : cbc.enumType with
  | string => exact absurd htype h
  | integer =>
    rw [htype] at hsc
    cases hsc
    exact i64_of_isLong hlong
  | both =>
    rw [htype] at hsc
    cases hsc
    exact i64_of_isLong hlong

theorem packEnum_shape {pES : EnumSpecifier} {pBI : Option BitfieldInfo} {shape : Shape}
    (hat : s.At 0 pos order) (hshape : enumShape cbc pES pBI pos order = some shape)
    (hfits : shape.Fits perl 0 s.length) (hexact : shape.Exact perl cbc src) :
    (pasteEffect src).Does (packEnum perl cbc pES pBI (shape.read perl cbc src)) shape.bits s := by
  unfold enumShape at hshape
  split_ifs at hshape with hordinary
  obtain ⟨hformat, -, hhooks⟩ := CtTagList.ordinary_iff.mp hordinary
  obtain ⟨w, hw, hshape⟩ := Option.bind_eq_some_iff.mp hshape
  cases hshape
  have hstop := hfits.leaves (.enum w pES) (List.mem_singleton.mpr rfl)
  obtain ⟨sc, hsc⟩ := enumSv_scalar cbc pES (w.fetch pES.signed src).value.toInt
  have hvalue := hexact (.enum w pES) (List.mem_singleton.mpr rfl) sc hsc
  have hinner : ((s.tagged pES.tags).enter (.enum pES)).At 0 pos (pES.tags.orderOr order) := by
    refine ⟨hat.pos_eq, ?_, hat.short⟩
    show pES.tags.byteOrder.getD s.order = pES.tags.byteOrder.getD order
    rw [hat.order_eq]
  -- the value that is packed has the bits that were unpacked
  have hbits : ∀ j, j < windowWidth w.size w.bits →
      (BitVec.ofInt 64 (enumValue perl cbc sc)).getLsbD j =
        unitBit w.order w.size src w.pos (windowShift w.bits w.shift + j) := by
    intro j hj
    rw [hvalue, BitVec.ofInt_toInt]
    exact w.fetch_bits pES.signed src j hj
  have hgrow := (@storeInt_window perl cbc src _ pos _ hinner _ _ w _
    (decide (enumValue perl cbc sc < 0)) hw hbits hstop).1
  have hplace : s.pos = ((s.tagged pES.tags).enter (.enum pES)).pos := rfl
  have hstore := (@storeInt_window perl cbc src _ pos _
    (hinner.grown (u64 (s.pos + packEnumSize cbc pES pBI))) _ _ w _
    (decide (enumValue perl cbc sc < 0)) hw hbits hstop).2
  rw [hplace] at hstore
  obtain ⟨t, hrun, hpastes, hlength, hcur, horder⟩ := Graded.Does.step (f := fun _ =>
    storeInt cbc (packEnumSize cbc pES pBI) pBI ⟨BitVec.ofInt 64 (enumValue perl cbc sc),
      decide (enumValue perl cbc sc < 0), none⟩) hgrow ((pasteEffect src).refl _) hstore
  refine ⟨{ t.leave with order := s.order }, ?_, ?_, hlength, hcur, rfl⟩
  · unfold packEnum
    rw [hformat, hhooks, Shape.read_leaf, Leaf.read, hsc]
    exact inScope_ok hrun
  · rw [Shape.bits_leaf]
    exact hpastes

end Enum

section Steps
variable (perl : Perl) (cbc : CBC) (src : Memory)

/-- The hash has the values of members. -/
def HasMembers (h : Hash) (members : List (String × Shape)) : Prop :=
  ∀ m ∈ members, h.lookup m.1 = some (Shape.read perl cbc src m.2)

/-- The bits of members. -/
def memberBits (members : List (String × Shape)) : Set (ℕ × ℕ) := {p | ∃ m ∈ members, p ∈ m.2.bits}

/-- What has to hold of members that are packed. -/
structure Packable (h : Hash) (length : ℤ) (members : List (String × Shape)) : Prop where
  values : HasMembers perl cbc src h members
  fits : ∀ m ∈ members, m.2.Fits perl 0 length
  same : ∀ m ∈ members, m.2.Exact perl cbc src

variable {perl cbc src}

theorem Packable.of_extends {h : Hash} {length : ℤ} {members members' : List (String × Shape)}
    (hp : Packable perl cbc src h length members') (hext : Extends members members') :
    Packable perl cbc src h length members where
  values m hm := hp.values m (hext.added.subset hm)
  fits m hm := hp.fits m (hext.added.subset hm)
  same m hm := hp.same m (hext.added.subset hm)

/-- The hash that was unpacked has the values, as the names are distinct. -/
theorem hasMembers_readMembers (perl : Perl) (cbc : CBC) (src : Memory)
    {members : List (String × Shape)} (hnodup : (members.map Prod.fst).Nodup) :
    HasMembers perl cbc src (readMembers perl cbc src members) members := by
  unfold HasMembers readMembers
  induction members with
  | nil => exact fun m hm => absurd hm List.not_mem_nil
  | cons m members ih =>
    rw [List.map_cons, List.nodup_cons] at hnodup
    intro m' hm'
    rw [List.map_cons, List.lookup_cons]
    rcases List.mem_cons.mp hm' with rfl | hmem
    · rw [beq_self_eq_true]
    · have hne : (m'.1 == m.1) = false := by
        apply beq_false_of_ne
        intro heq
        exact hnodup.1 (heq ▸ List.mem_map_of_mem hmem)
      rw [hne]
      exact ih hnodup.2 m' hmem

variable (perl cbc src)

/-- The recursive calls of packing copy the bits of the shapes that the calls for the shape give. -/
structure PackCopies (packType : PackTypeFn) (packStruct : PackStructFn)
    (shapeType : ShapeTypeFn) (shapeStruct : ShapeStructFn) : Prop where
  type : ∀ {pTS pDecl dimension pBI pos order shape s}, PackInfo.At s 0 pos order →
    shapeType pTS pDecl dimension pBI pos order = some shape → Shape.Fits shape perl 0 s.length →
    Shape.Exact shape perl cbc src →
    (pasteEffect src).Does (packType pTS pDecl dimension pBI (shape.read perl cbc src)) shape.bits s
  compound : ∀ {i pos order members s h}, PackInfo.At s 0 pos order →
    shapeStruct i [] false pos order = some members → Packable perl cbc src h s.length members →
    (pasteEffect src).Does (packStruct i (.hv h) false) (memberBits members) s
  inlined : ∀ {i pos order members members' s h}, PackInfo.At s 0 pos order →
    shapeStruct i members true pos order = some members' → Packable perl cbc src h s.length members' →
    ∃ T, memberBits members ∪ T = memberBits members' ∧
      (pasteEffect src).Does (packStruct i (.hv h) true) T s

variable {perl cbc src} {packType : PackTypeFn} {packStruct : PackStructFn} {shapeType : ShapeTypeFn}
  {shapeStruct : ShapeStructFn} (hcopies : PackCopies perl cbc src packType packStruct shapeType shapeStruct)
  {s : PackInfo} {pos : ℤ} {order : CByteOrder}

/-- Packing keeps what the position of an object is about. -/
theorem PackInfo.At.of_reach (hat : s.At 0 pos order) {t : PackInfo}
    (hreach : (pasteEffect src).Reach s t) {pos' : ℤ} (hpos : t.pos = u64 ((0 : ℕ) + pos')) :
    t.At 0 pos' order ∧ t.length = s.length := by
  obtain ⟨S, _, hlength, _, horder⟩ := hreach
  exact ⟨⟨hpos, horder.trans hat.order_eq, hlength ▸ hat.short⟩, hlength⟩

include hcopies

theorem packElement_shape {pTS : TypeSpec} {d : Declarator} {dimension : ℕ} {size : ℤ} {i : ℕ}
    {shape : Shape} (hat : s.At 0 pos order) {t : PackInfo} (hreach : (pasteEffect src).Reach s t)
    (hshape : elementShape shapeType pTS d dimension pos size order i = some shape)
    (hfits : shape.Fits perl 0 s.length) (hexact : shape.Exact perl cbc src) :
    (pasteEffect src).Does (packElement packType pTS d dimension s.pos size
      (some (shape.read perl cbc src), i)) shape.bits t := by
  obtain ⟨distance, hdistance, hshape⟩ := Option.bind_eq_some_iff.mp hshape
  have hlong := toOption_some hdistance
  let u : PackInfo := { t.enter (.element i) with pos := u64 (s.pos + distance) }
  have hplace : u.pos = u64 ((0 : ℕ) + (pos + distance)) := by
    show u64 (s.pos + distance) = _
    rw [hat.pos_eq, u64_u64_add, add_assoc]
  obtain ⟨S, hS⟩ := hreach
  have hreach' : (pasteEffect src).Reach s u := ⟨S, hS⟩
  obtain ⟨hu, hlength⟩ := hat.of_reach hreach' hplace
  obtain ⟨v, hrun, hv⟩ := hcopies.type hu hshape (hlength ▸ hfits) hexact
  refine ⟨v.leave, ?_, hv⟩
  apply within_ok
  rw [hlong]
  exact hrun

theorem packArray_shape {pTS : TypeSpec} {d : Declarator} {dimension : ℕ} {shape : Shape}
    (hat : s.At 0 pos order)
    (hshape : arrayShape shapeType pTS d dimension pos order = some shape)
    (hfits : shape.Fits perl 0 s.length) (hexact : shape.Exact perl cbc src) :
    (pasteEffect src).Does (packArray perl packType pTS d dimension none (shape.read perl cbc src))
      shape.bits s := by
  obtain ⟨size, hsize, hshape⟩ := Option.bind_eq_some_iff.mp hshape
  obtain ⟨v, hv, hshape⟩ := Option.bind_eq_some_iff.mp hshape
  split_ifs at hshape with hnone
  obtain ⟨_, hdefined⟩ := not_or.mp hnone
  obtain ⟨elems, helems, hshape⟩ := Option.bind_eq_some_iff.mp hshape
  cases hshape
  have hstride := toOption_some hsize
  have hcount : elems.length = v.iv.toNat := by
    rw [mapM_length_eq helems, List.length_range]
  have hnumber (avail : ℤ) : packCount perl d dimension none size avail = pure v.iv := by
    unfold packCount
    rw [hv]
    dsimp only
    rw [if_neg hdefined]
  let u := s.emit (.elements s.path (isFlexible d dimension none) s.pos s.length size v.iv)
  -- every element that the array has is packed
  have hall : (((elems.map (Shape.read perl cbc src)).map some).take v.iv.toNat) =
      elems.map fun shape => some (shape.read perl cbc src) := by
    rw [List.map_map, List.take_of_length_le (by rw [List.length_map, hcount])]
    rfl
  have hloop : (pasteEffect src).Does (((elems.map fun shape => some (shape.read perl cbc src)).zipIdx
      0).forM (packElement packType pTS d dimension s.pos size)) {p | ∃ b ∈ elems, p ∈ b.bits} u := by
    apply Graded.does_forM_zipIdx
    intro i shape hi t ht
    have hlt : i < v.iv.toNat := hcount ▸ (List.getElem?_eq_some_iff.mp hi).1
    have hmem : shape ∈ elems := List.mem_of_getElem? hi
    have helem := mapM_get helems (List.getElem?_range hlt)
    rw [hi] at helem
    rw [Nat.zero_add]
    have hreach : (pasteEffect src).Reach s t := by
      obtain ⟨S, hS⟩ := ht
      exact ⟨S, hS⟩
    apply packElement_shape hcopies hat hreach helem
    · constructor
      · exact fun leaf hleaf => hfits.leaves leaf (mem_leaves_array.mpr ⟨shape, hmem, hleaf⟩)
      · exact fun n hn => hfits.elements n (mem_widths_array.mpr (.inr ⟨shape, hmem, hn⟩))
    · exact fun leaf hleaf => hexact leaf (mem_leaves_array.mpr ⟨shape, hmem, hleaf⟩)
  have hset : Shape.bits (.array elems) = {p | ∃ b ∈ elems, p ∈ b.bits} := by
    ext p
    exact mem_footprint_array
  obtain ⟨t, hrun, ht⟩ := hloop
  rw [← hall] at hrun
  rw [Shape.read_array, hset]
  refine ⟨t, ?_, ht⟩
  unfold packArray
  dsimp only
  rw [hstride]
  show (packCount perl d dimension none size _ >>= _) s = _
  rw [hnumber]
  exact hrun

theorem packUntagged_shape {pTS : TypeSpec} {pDecl : Option Declarator} {dimension : ℕ}
    {pBI : Option BitfieldInfo} {shape : Shape} (hat : s.At 0 pos order)
    (hshape : untaggedShape cbc shapeType shapeStruct pTS pDecl dimension pBI pos order = some shape)
    (hnodup : ∀ {i members}, shapeStruct i [] false pos order = some members →
      (members.map Prod.fst).Nodup)
    (hfits : shape.Fits perl 0 s.length) (hexact : shape.Exact perl cbc src) :
    (pasteEffect src).Does (packUntagged perl cbc packType packStruct pTS pDecl dimension none pBI
      (shape.read perl cbc src)) shape.bits s := by
  unfold untaggedShape at hshape
  unfold packUntagged
  cases hfilter : pDecl.filter fun d => decide (dimension < d.dims.length) with
  | some d =>
    rw [hfilter] at hshape
    exact packArray_shape hcopies hat hshape hfits hexact
  | none =>
    rw [hfilter] at hshape
    dsimp only at hshape ⊢
    by_cases hpointer : pDecl.any Declarator.pointer_flag = true
    · rw [if_pos hpointer] at hshape ⊢
      split_ifs at hshape with hhooks
      rw [Option.isNone_iff_eq_none.mp hhooks]
      exact packPointer_shape hat hshape hfits
    · rw [if_neg hpointer] at hshape ⊢
      cases pTS with
      | typedef t => exact hcopies.type hat hshape hfits hexact
      | compound kind i =>
        dsimp only at hshape ⊢
        cases hdeclarations : (cbc.heap.structAt i).declarations with
        | none =>
          rw [hdeclarations] at hshape
          cases hshape
          rw [Shape.bits_leaf]
          exact Graded.does_pure s
        | some declarations =>
          rw [hdeclarations] at hshape
          obtain ⟨members, hmembers, hshape⟩ := Option.bind_eq_some_iff.mp hshape
          cases hshape
          have hbits : Shape.bits (.record members) = memberBits members := by
            ext p
            exact mem_footprint_record
          rw [Shape.read_record, hbits]
          apply hcopies.compound hat hmembers
          constructor
          · exact hasMembers_readMembers perl cbc src (hnodup hmembers)
          · intro m hm
            constructor
            · exact fun leaf hleaf => hfits.leaves leaf (mem_leaves_record.mpr ⟨m, hm, hleaf⟩)
            · exact fun n hn => hfits.elements n (mem_widths_record.mpr ⟨m, hm, hn⟩)
          · exact fun m hm leaf hleaf => hexact leaf (mem_leaves_record.mpr ⟨m, hm, hleaf⟩)
      | enum e => exact packEnum_shape hat hshape hfits hexact
      | basic flags => exact packBasic_shape hat hshape hfits hexact

theorem packTypeStep_shape {pTS : TypeSpec} {pDecl : Option Declarator} {dimension : ℕ}
    {pBI : Option BitfieldInfo} {shape : Shape} (hat : s.At 0 pos order)
    (hshape : shapeTypeStep cbc shapeType shapeStruct pTS pDecl dimension pBI pos order = some shape)
    (hnodup : ∀ {i order members}, shapeStruct i [] false pos order = some members →
      (members.map Prod.fst).Nodup)
    (hfits : shape.Fits perl 0 s.length) (hexact : shape.Exact perl cbc src) :
    (pasteEffect src).Does (packTypeStep perl cbc packType packStruct pTS pDecl dimension pBI
      (shape.read perl cbc src)) shape.bits s := by
  unfold shapeTypeStep at hshape
  unfold packTypeStep
  split
  · rename_i d
    have hstep : (if d.tags.ordinary then untaggedShape cbc shapeType shapeStruct pTS (some d) 0 pBI
      pos (d.tags.orderOr order) else none) = some shape := hshape
    split_ifs at hstep with hordinary
    obtain ⟨hformat, hdimension, hhooks⟩ := CtTagList.ordinary_iff.mp hordinary
    have hinner : ((s.tagged d.tags).enter (.declarator d)).At 0 pos (d.tags.orderOr order) := by
      refine ⟨hat.pos_eq, ?_, hat.short⟩
      show d.tags.byteOrder.getD s.order = d.tags.byteOrder.getD order
      rw [hat.order_eq]
    obtain ⟨t, hrun, hpastes, hlength, hcur, _⟩ :=
      packUntagged_shape hcopies hinner hstep hnodup hfits hexact
    refine ⟨{ t.leave with order := s.order }, ?_, hpastes, hlength, hcur, rfl⟩
    rw [hformat, hdimension, hhooks]
    exact inScope_ok hrun
  · rename_i hother
    split at hshape
    · exact (hother _ rfl rfl).elim
    · obtain ⟨t, hrun, hpastes, hlength, hcur, _⟩ :=
        packUntagged_shape hcopies hat hshape hnodup hfits hexact
      exact ⟨{ t with order := s.order }, keepByteOrder_ok hrun, hpastes, hlength, hcur, rfl⟩

theorem packMember_shape {type : TypeSpec} {d : Declarator} {members members' : List (String × Shape)}
    {start : ℤ} {h : Hash} (hstart : ∀ offset, u64 (start + offset) = u64 ((0 : ℕ) + (pos + offset)))
    (hat : s.At 0 pos order)
    (hshape : memberShape shapeType pos order type members d = some members')
    (hp : Packable perl cbc src h s.length members') {t : PackInfo}
    (hreach : (pasteEffect src).Reach s t) :
    ∃ T, memberBits members ∪ T = memberBits members' ∧
      (pasteEffect src).Does (packMember packType h start type d) T t := by
  unfold memberShape at hshape
  unfold packMember
  split_ifs at hshape with hunnamed hknown
  · cases hshape
    rw [if_pos hunnamed]
    exact ⟨∅, Set.union_empty _, Graded.does_pure t⟩
  · obtain ⟨shape, htype, hshape⟩ := Option.bind_eq_some_iff.mp hshape
    cases hshape
    have hlast : (d.identifier, shape) ∈ members ++ [(d.identifier, shape)] :=
      List.mem_append_right _ (List.mem_singleton.mpr rfl)
    have hvalue : h.lookup d.identifier = some (shape.read perl cbc src) := hp.values _ hlast
    rw [if_neg hunnamed, hvalue]
    let u : PackInfo := { t with
      pos := u64 (start + d.offset)
      parent := some h }
    obtain ⟨S, hS⟩ := hreach
    have hreach' : (pasteEffect src).Reach s u := ⟨S, hS⟩
    obtain ⟨hu, hlength⟩ := hat.of_reach hreach' (hstart d.offset)
    obtain ⟨v, hrun, hv⟩ := hcopies.type hu htype (hlength ▸ hp.fits _ hlast) (hp.same _ hlast)
    have hmember := bind_of_ok (f := fun _ => setParent none) hrun
    refine ⟨shape.bits, ?_, { v with parent := none }, hmember.trans rfl, hv⟩
    ext p
    simp [memberBits, or_and_right, exists_or]

theorem packDeclaration_shape {fuel : ℕ} {sd : StructDeclaration}
    {members members' : List (String × Shape)} {start : ℤ} {h : Hash}
    (hstart : ∀ offset, u64 (start + offset) = u64 ((0 : ℕ) + (pos + offset)))
    (hat : s.At 0 pos order)
    (hshape : declarationShape cbc fuel shapeType shapeStruct pos order members sd = some members')
    (hp : Packable perl cbc src h s.length members') {t : PackInfo}
    (hreach : (pasteEffect src).Reach s t) :
    ∃ T, memberBits members ∪ T = memberBits members' ∧
      (pasteEffect src).Does (packDeclaration cbc fuel packType packStruct h start (.hv h) sd) T t := by
  unfold declarationShape at hshape
  unfold packDeclaration
  cases hdeclarators : sd.declarators with
  | some declarators =>
    rw [hdeclarators] at hshape
    dsimp only at hshape ⊢
    apply And.right
    apply Graded.does_forM (Q := Packable perl cbc src h s.length) _ _ hshape hp
    · exact fun d _ c c' hc hc' => hc'.of_extends (memberShape_extends hc)
    · intro d _ c c' hc hc' u hu
      exact packMember_shape hcopies hstart hat hc hc' (hreach.trans hu)
  | none =>
    rw [hdeclarators] at hshape
    dsimp only at hshape ⊢
    obtain ⟨i, hfollow, hshape⟩ := Option.bind_eq_some_iff.mp hshape
    rw [toOption_some hfollow]
    let u : PackInfo := { t with pos := u64 (start + sd.offset) }
    obtain ⟨S, hS⟩ := hreach
    have hreach' : (pasteEffect src).Reach s u := ⟨S, hS⟩
    obtain ⟨hu, hlength⟩ := hat.of_reach hreach' (hstart sd.offset)
    obtain ⟨T, hT, v, hrun, hv⟩ := hcopies.inlined hu hshape (hlength ▸ hp)
    exact ⟨T, hT, v, hrun, hv⟩

/-- The loop over the declarations of a compound. -/
theorem packMembers_shape {fuel i : ℕ} {members members' : List (String × Shape)} {h : Hash}
    (hextends : ∀ {i members inlined pos order members'},
      shapeStruct i members inlined pos order = some members' → Extends members members')
    (hat : s.At 0 pos order)
    (hshape : ((cbc.heap.structAt i).declarations.getD []).foldlM
      (declarationShape cbc fuel shapeType shapeStruct pos order) members = some members')
    (hp : Packable perl cbc src h s.length members') :
    ∃ T, memberBits members ∪ T = memberBits members' ∧
      (pasteEffect src).Does (packMembers cbc fuel packType packStruct (cbc.heap.structAt i) (.hv h))
        T s := by
  have hstart (offset : ℤ) : u64 (i64 s.pos + offset) = u64 ((0 : ℕ) + (pos + offset)) := by
    rw [u64_i64_add, hat.pos_eq, u64_u64_add, add_assoc]
  obtain ⟨_, T, hT, t, hrun, ht⟩ := Graded.does_forM (E := pasteEffect src) (s := s)
    (f := packDeclaration cbc fuel packType packStruct h (i64 s.pos) (.hv h))
    (Q := Packable perl cbc src h s.length)
    (fun sd _ c c' hc hc' => hc'.of_extends (declarationShape_extends hextends hc))
    (fun sd _ c c' hc hc' t ht => packDeclaration_shape hcopies hstart hat hc hc' ht) hshape hp
  exact ⟨T, hT, t, hrun, ht⟩

theorem packStructStep_compound {fuel i : ℕ} {members : List (String × Shape)} {h : Hash}
    (hextends : ∀ {i members inlined pos order members'},
      shapeStruct i members inlined pos order = some members' → Extends members members')
    (hat : s.At 0 pos order)
    (hshape : shapeStructStep cbc fuel shapeType shapeStruct i [] false pos order = some members)
    (hp : Packable perl cbc src h s.length members) :
    (pasteEffect src).Does (packStructStep perl cbc fuel packType packStruct i (.hv h) false)
      (memberBits members) s := by
  unfold shapeStructStep at hshape
  dsimp only at hshape
  rw [if_neg (by decide)] at hshape
  split_ifs at hshape with hordinary
  obtain ⟨hformat, -, hhooks⟩ := CtTagList.ordinary_iff.mp hordinary
  let tags := (cbc.heap.structAt i).tags
  have hinner : ((s.tagged tags).enter (.compound (cbc.heap.structAt i))).At 0 pos
      (tags.orderOr order) := by
    refine ⟨hat.pos_eq, ?_, hat.short⟩
    show tags.byteOrder.getD s.order = tags.byteOrder.getD order
    rw [hat.order_eq]
  obtain ⟨T, hT, t, hrun, hpastes, hlength, hcur, _⟩ :=
    packMembers_shape hcopies hextends hinner hshape hp
  have hbits : T = memberBits members := by
    rw [← hT]
    simp [memberBits]
  refine ⟨{ t.leave with order := s.order }, ?_, hbits ▸ hpastes, hlength, hcur, rfl⟩
  unfold packStructStep
  dsimp only
  rw [if_neg (by decide), hformat, hhooks]
  exact inScope_ok hrun

/-- The members of an unnamed compound come from the hash of the compound around it. -/
theorem packStructStep_inlined {fuel i : ℕ} {members members' : List (String × Shape)} {h : Hash}
    (hextends : ∀ {i members inlined pos order members'},
      shapeStruct i members inlined pos order = some members' → Extends members members')
    (hat : s.At 0 pos order)
    (hshape : shapeStructStep cbc fuel shapeType shapeStruct i members true pos order = some members')
    (hp : Packable perl cbc src h s.length members') :
    ∃ T, memberBits members ∪ T = memberBits members' ∧
      (pasteEffect src).Does (packStructStep perl cbc fuel packType packStruct i (.hv h) true) T s := by
  unfold shapeStructStep at hshape
  dsimp only at hshape
  rw [if_pos rfl] at hshape
  have hinner : ((s.tagged .empty).enter (.inlined (cbc.heap.structAt i))).At 0 pos order :=
    ⟨hat.pos_eq, hat.order_eq, hat.short⟩
  obtain ⟨T, hT, t, hrun, hpastes, hlength, hcur, _⟩ :=
    packMembers_shape hcopies hextends hinner hshape hp
  refine ⟨T, hT, { t.leave with order := s.order }, ?_, hpastes, hlength, hcur, rfl⟩
  unfold packStructStep
  dsimp only
  rw [if_pos rfl]
  exact inScope_ok hrun

end Steps

/-- Packing copies the shape, at every depth of the recursion. -/
theorem pack_copies (perl : Perl) (cbc : CBC) (src : Memory) (fuel : ℕ) :
    PackCopies perl cbc src (packType perl cbc fuel) (packStruct perl cbc fuel) (shapeType cbc fuel)
      (shapeStruct cbc fuel) := by
  induction fuel with
  | zero =>
    constructor
    · exact fun _ hshape _ _ => nomatch hshape
    · exact fun _ hshape _ => nomatch hshape
    · exact fun _ hshape _ => nomatch hshape
  | succ fuel ih =>
    constructor
    · intro pTS pDecl dimension pBI pos order shape s hat hshape hfits hexact
      rw [packType]
      rw [shapeType] at hshape
      apply packTypeStep_shape ih hat hshape _ hfits hexact
      exact fun hmembers => (shapeStruct_extends hmembers).nodup List.nodup_nil
    · intro i pos order members s h hat hshape hp
      rw [packStruct]
      rw [shapeStruct] at hshape
      exact packStructStep_compound ih shapeStruct_extends hat hshape hp
    · intro i pos order members members' s h hat hshape hp
      rw [packStruct]
      rw [shapeStruct] at hshape
      exact packStructStep_inlined ih shapeStruct_extends hat hshape hp

section Pack
variable {perl : Perl} {cbc : CBC} {fuel : ℕ} {mi : MemberInfo} {shape : Shape}
  (hshape : shapeType cbc fuel mi.type mi.pDecl mi.level none 0 cbc.pLP.byte_order = some shape)
include hshape

/-- Packing what was unpacked. -/
theorem pkPack_copies (src : Memory) (s : PackInfo) (hpos : s.pos = 0)
    (hshort : s.length < 18446744073709551616) (hfits : shape.Fits perl 0 s.length)
    (hexact : shape.Exact perl cbc src) :
    ∃ t, pkPack perl cbc fuel mi.type mi.pDecl mi.level (shape.read perl cbc src) s = .ok () t ∧
      Pastes bitAt shape.bits src s.buffer t.buffer ∧ t.length = s.length ∧ t.cur = s.cur := by
  let u : PackInfo := { s with order := cbc.pLP.byte_order }
  have hu : u.At 0 0 cbc.pLP.byte_order := by
    refine ⟨?_, rfl, hshort⟩
    rw [show u.pos = 0 from hpos]
    rfl
  obtain ⟨t, hrun, hpastes, hlen, hcur, _⟩ := (pack_copies perl cbc src fuel).type hu hshape hfits hexact
  exact ⟨t, hrun, hpastes, hlen, hcur⟩

variable (hsize : 0 < mi.size) (hfits : shape.Fits perl 0 mi.size)

omit hshape in
include hfits in
/-- The bits of the shape are inside of the object. -/
theorem Shape.Fits.inside {p : ℕ × ℕ} (hp : p ∈ shape.bits) : (p.1 : ℤ) < mi.size := by
  obtain ⟨leaf, hleaf, hp⟩ := hp
  have hstop := hfits.leaves leaf hleaf
  have hlt := Leaf.lt_stop hp
  push_cast at hstop
  omega

include hsize hfits

/-- Packing the value that a string unpacks to into any other string copies the bits of the
members from the one to the other and changes nothing else; the result is as long as the longer one
of the other string and the type, has zeros where it is longer, and unpacks to the same value. -/
theorem pack_of_unpack (string dest : List Byte) (hlong : mi.size ≤ string.length)
    (hshort : string.length < 18446744073709551616) (hdest : dest.length < 18446744073709551616)
    (hexact : shape.Exact perl cbc (stringMemory string)) :
    ∃ sv result events, unpack perl cbc fuel mi true string = .ok [sv] ∧
      pack perl cbc fuel mi sv dest = .ok (result, events) ∧
      (result.length : ℤ) = max mi.size dest.length ∧
      Pastes bitAt shape.bits (stringMemory string) (stringMemory dest) (stringMemory result) ∧
      unpack perl cbc fuel mi true result = .ok [sv] := by
  have hread := unpack_scalar hshape hsize hfits string hlong hshort
  have hstart : (packInto mi dest).length = mi.size := rfl
  obtain ⟨t, hrun, hpastes, hlength, hcur⟩ := pkPack_copies hshape (stringMemory string)
    (packInto mi dest) rfl (by rw [hstart]; omega) hfits hexact
  have hend : t.cur = max mi.size dest.length := hcur
  have hresult : (t.result.length : ℤ) = max mi.size dest.length := by
    rw [PackInfo.result_length (by omega), hend]
  -- behind the end of the result there is nothing but zeros
  have hmemory : stringMemory t.result = t.buffer := by
    funext a
    show t.result.getD a 0 = t.buffer a
    rw [List.getD_eq_getElem?_getD]
    by_cases ha : (a : ℤ) < t.cur
    · rw [PackInfo.result_get ha]
      rfl
    · have hout : t.result.length ≤ a := by omega
      have hzero : dest.getD a 0 = 0 := by
        rw [List.getD_eq_getElem?_getD, List.getElem?_eq_none (by omega)]
        rfl
      rw [List.getElem?_eq_none hout]
      apply BitVec.eq_of_getLsbD_eq
      intro k _
      have hkept : bitAt t.buffer (a, k) = bitAt (packInto mi dest).buffer (a, k) := by
        apply hpastes.kept
        intro hp
        have hin := Shape.Fits.inside hfits hp
        simp only at hin
        omega
      have hbuffer : (packInto mi dest).buffer a = 0 := hzero
      unfold bitAt at hkept
      rw [hkept, hbuffer]
      rfl
  refine ⟨shape.read perl cbc (stringMemory string), t.result, t.trace, hread, ?_, hresult, ?_, ?_⟩
  · unfold pack
    rw [hrun]
  · rw [hmemory]
    exact hpastes
  · have hagain := unpack_scalar hshape hsize hfits t.result (by omega) (by omega)
    rw [hagain, hmemory]
    have hsame := Shape.read_congr perl cbc shape hpastes.written
    rw [hsame]

end Pack

/-- Leaves whose values are always packed to themselves. -/
def Leaf.isExact (cbc : CBC) : Leaf → Bool
  | .enum _ _ => decide (cbc.enumType ≠ .string)
  | .float _ _ _ => false
  | _ => true

theorem Leaf.exact_of_isExact {perl : Perl} {cbc : CBC} {src : Memory} {leaf : Leaf}
    (h : leaf.isExact cbc = true) : leaf.Exact perl cbc src := by
  cases leaf with
  | enum w pES => exact Leaf.exact_enum w pES (of_decide_eq_true h)
  | float pos size order => exact nomatch h
  | integer w sign => trivial
  | unsupported pos size => trivial
  | undefined => trivial

theorem pack_of_unpack_padded :
    ∃ shape sv result events, shapeType paddedCbc 10 paddedInfo.type paddedInfo.pDecl
        paddedInfo.level none 0 paddedCbc.pLP.byte_order = some shape ∧
      unpack slotPerl paddedCbc 10 paddedInfo true [1, 255, 3, 4, 5, 6, 7, 8] = .ok [sv] ∧
      pack slotPerl paddedCbc 10 paddedInfo sv [9, 9, 9, 9] = .ok (result, events) ∧
      (result.length : ℤ) = max 8 4 ∧
      Pastes bitAt shape.bits (stringMemory [1, 255, 3, 4, 5, 6, 7, 8]) (stringMemory [9, 9, 9, 9])
        (stringMemory result) ∧
      unpack slotPerl paddedCbc 10 paddedInfo true result = .ok [sv] := by
  have h : (shapeType paddedCbc 10 paddedInfo.type paddedInfo.pDecl paddedInfo.level none 0
      paddedCbc.pLP.byte_order).any (fun shape => shape.fitsIn slotPerl 8 &&
        shape.leaves.all (Leaf.isExact paddedCbc)) = true := by decide +kernel
  obtain ⟨shape, hshape, hgood⟩ := (Option.any_eq_true _ _).mp h
  obtain ⟨hfits, hexact⟩ := Bool.and_eq_true_iff.mp hgood
  obtain ⟨sv, result, events, hunpack, hpack, hlength, hpastes, hagain⟩ := pack_of_unpack hshape
    (by decide) (Shape.fits_of_fitsIn hfits) [1, 255, 3, 4, 5, 6, 7, 8] [9, 9, 9, 9] (by decide)
    (by decide) (by decide)
    fun leaf hleaf => Leaf.exact_of_isExact (List.all_eq_true.mp hexact leaf hleaf)
  exact ⟨shape, sv, result, events, hshape, hunpack, hpack, hlength, hpastes, hagain⟩

end ConvertBinaryC
