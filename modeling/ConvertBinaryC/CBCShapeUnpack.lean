import ConvertBinaryC.CBCShape
import ConvertBinaryC.CBCPackUpdate

/-! Unpacking a type that has a shape: it reads the leaves of the shape, and nothing else. -/
namespace ConvertBinaryC

open StateRules TreeRules

/-- The buffer, its length and the byte order are the same. -/
structure PackInfo.Same (s t : PackInfo) : Prop where
  buffer : t.buffer = s.buffer
  length : t.length = s.length
  order : t.order = s.order

/-- Unpacking leaves the buffer alone. -/
def sameEffect : Effect Fault PackInfo where
  returns := PackInfo.Same
  fails _ _ _ := True
  refl _ := ⟨rfl, rfl, rfl⟩
  trans h h' := ⟨h'.buffer.trans h.buffer, h'.length.trans h.length, h'.order.trans h.order⟩
  absorb _ _ := trivial

/-- The handle is at a position behind `base`, with a byte order. -/
structure PackInfo.At (s : PackInfo) (base : ℕ) (pos : ℤ) (order : CByteOrder) : Prop where
  pos_eq : s.pos = u64 (base + pos)
  order_eq : s.order = order
  short : s.length < 18446744073709551616

theorem u64_i64_add (x y : ℤ) : u64 (i64 x + y) = u64 (x + y) := by
  have hbmod : i64 x % 18446744073709551616 = x % 18446744073709551616 := Int.bmod_emod
  unfold u64
  rw [Int.add_emod, hbmod, ← Int.add_emod]

section Position
variable {s : PackInfo} {base : ℕ} {pos : ℤ} {order : CByteOrder}

/-- An object that fits into the buffer is where it should be. -/
theorem PackInfo.At.pos_of_fits (h : s.At base pos order) {size : ℤ} (hpos : 0 ≤ pos)
    (hsize : 0 ≤ size) (hfits : base + pos + size ≤ s.length) : s.pos = base + pos := by
  have hshort := h.short
  rw [h.pos_eq]
  apply u64_of_lt <;> omega

theorem checkBuffer_fits {size : ℤ} (hsize : 0 ≤ s.pos + size) (hfits : s.pos + size ≤ s.length)
    (hshort : s.length < 18446744073709551616) : checkBuffer size s = .ok false s := by
  have hle : ¬ u64 (s.pos + size) > s.length := by
    rw [u64_of_lt hsize (by omega)]
    omega
  show (if u64 (s.pos + size) > s.length then setPos s.length >>= fun _ => pure true
    else pure false : Pk Bool) s = _
  rw [if_neg hle]
  rfl

end Position

theorem floatLeaf_stop (cbc : CBC) (flags : TFlags) (pos size : ℤ) (order : CByteOrder) :
    (floatLeaf cbc flags pos size order).stop = pos.toNat + size.toNat := by
  unfold floatLeaf
  split_ifs
  · rfl
  · rfl

section Leaves
variable {perl : Perl} {cbc : CBC} {s : PackInfo} {base : ℕ} {pos : ℤ} {order : CByteOrder}
  (hat : s.At base pos order)
include hat

/-- Where the window is, and that it is fetched there. -/
theorem fetchInt_window {size : ℤ} {sign : Bool} {pBI : Option BitfieldInfo} {w : Window}
    (hw : windowFor cbc pos size pBI order = some w) (hfits : (base + (w.pos + w.size : ℕ) : ℤ) ≤ s.length) :
    checkBuffer size s = .ok false s ∧
      sameEffect.Yields (fetchInt cbc size sign pBI) s (w.fetch sign (s.buffer.from base)) := by
  obtain ⟨hpos, hsize, hbits, hshift, horder⟩ := windowAt_some hw
  push_cast at hfits
  have hplace : s.pos = base + pos := @PackInfo.At.pos_of_fits s base pos order hat size (by omega) (by omega) (by omega)
  have hinside : ¬ s.pos + size > s.length := by omega
  have hinteger : IntegerSize size.toNat := by
    rw [← hsize, Int.toNat_natCast]
    exact w.integer
  have hfetch := w.fetch_from sign s.buffer base
  have hptr : base + w.pos = s.pos.toNat := by omega
  have hwsize : w.size = size.toNat := by omega
  rw [hptr, hbits, hshift, horder, hwsize, ← hat.order_eq, ← intOrder_eq] at hfetch
  constructor
  · exact checkBuffer_fits (by omega) (by omega) hat.short
  · refine ⟨s.emit (.access s.path pBI.isSome (intOrder cbc s pBI) s.pos size), ?_, rfl, rfl, rfl⟩
    show (if s.pos + size > s.length then throw .undefinedBehaviour
      else if IntegerSize size.toNat then
        liftCall (fetchInteger size.toNat sign (bitsOf pBI).1 (bitsOf pBI).2 (intOrder cbc s pBI)
          s.buffer s.pos.toNat ⟨0, sign, none⟩)
      else throw .undefinedBehaviour : Pk IntValue) _ = _
    rw [if_neg hinside, if_pos hinteger, hfetch]
    rfl

/-- The value of an integer leaf. -/
theorem fetchIntSv_window {size : ℤ} {sign : Bool} {pBI : Option BitfieldInfo} {w : Window}
    (hw : windowFor cbc pos size pBI order = some w) (hfits : (base + (w.pos + w.size : ℕ) : ℤ) ≤ s.length) :
    sameEffect.Yields (fetchIntSv cbc size sign pBI) s
      ((Leaf.integer w sign).read perl cbc (s.buffer.from base)) :=
  (fetchInt_window hat hw hfits).2.bind fun t _ => Effect.yields_pure _ t

theorem unpackPointer_shape {shape : Shape} (hshape : pointerShape cbc pos order = some shape)
    (hfits : shape.Fits perl base s.length) :
    sameEffect.Yields (unpackPointer cbc) s (shape.read perl cbc (s.buffer.from base)) := by
  obtain ⟨w, hw, hshape⟩ := Option.bind_eq_some_iff.mp hshape
  cases hshape
  have hstop := hfits.leaves (.integer w false) (by simp)
  apply Effect.Yields.step (@fetchInt_window _ _ _ _ _ hat _ false _ _ hw hstop).1 (sameEffect.refl s)
  rw [if_neg (by decide), Shape.read_leaf]
  exact fetchIntSv_window hat hw hstop

/-- The bytes of a floating point value, or no value at all. -/
theorem fetchFloatSv_leaf {size : ℤ} {flags : TFlags} (hpos : 0 ≤ pos) (hsize : 0 ≤ size)
    (hfits : (base + pos + size : ℤ) ≤ s.length) :
    sameEffect.Yields (fetchFloatSv perl cbc size flags) s
      ((floatLeaf cbc flags pos size order).read perl cbc (s.buffer.from base)) := by
  have hplace : s.pos = base + pos := hat.pos_of_fits hpos hsize hfits
  unfold fetchFloatSv floatLeaf
  by_cases hknown : (isFpType flags && isFpSize cbc size) = true
  · rw [if_pos hknown, if_pos hknown]
    have hinside : ¬ s.pos + size.toNat > s.length := by omega
    have hptr : s.pos.toNat = base + pos.toNat := by omega
    refine ⟨s.emit (.access s.path false s.order s.pos size), ?_, rfl, rfl, rfl⟩
    have hbytes : fetchBytes size.toNat (s.emit (.access s.path false s.order s.pos size)) =
        .ok (bytesAt s.buffer s.pos.toNat size.toNat)
          (s.emit (.access s.path false s.order s.pos size)) := by
      show (if s.pos + size.toNat > s.length then throw .undefinedBehaviour
        else pure (bytesAt s.buffer s.pos.toNat size.toNat) : Pk (List Byte)) _ = _
      rw [if_neg hinside]
      rfl
    show (fetchBytes size.toNat >>= fun bytes => pure (newSVnv (perl.floatValue
      (if s.order = cbc.nativeByteorder then bytes else bytes.reverse)))) _ = _
    rw [bind_of_ok hbytes, Leaf.read, Memory.bytesAt_from, hptr, hat.order_eq]
    rfl
  · rw [if_neg hknown, if_neg hknown]
    exact Effect.yields_pure _ s

theorem unpackBasic_shape {flags : TFlags} {pBI : Option BitfieldInfo} {shape : Shape}
    (hshape : basicShape cbc flags pBI pos order = some shape) (hfits : shape.Fits perl base s.length) :
    sameEffect.Yields (unpackBasic perl cbc flags pBI) s
      (shape.read perl cbc (s.buffer.from base)) := by
  unfold basicShape at hshape
  unfold unpackBasic
  generalize packLoadSize cbc flags pBI = load at hshape ⊢
  obtain ⟨size, flags⟩ := load
  dsimp only at hshape ⊢
  by_cases hfloat : flags.test (T_FLOAT ||| T_DOUBLE) = true
  · rw [if_pos hfloat] at hshape
    split_ifs at hshape with hplace
    cases hshape
    have hstop := hfits.leaves (floatLeaf cbc flags pos size order) (List.mem_singleton.mpr rfl)
    rw [floatLeaf_stop] at hstop
    have hinside : (base + pos + size : ℤ) ≤ s.length := by omega
    have hspos : s.pos = base + pos := hat.pos_of_fits hplace.1 hplace.2 hinside
    apply Effect.Yields.step (checkBuffer_fits (by omega) (by omega) hat.short) (sameEffect.refl s)
    rw [if_neg (by decide), if_pos hfloat, Shape.read_leaf]
    exact fetchFloatSv_leaf hat hplace.1 hplace.2 hinside
  · rw [if_neg hfloat] at hshape
    obtain ⟨w, hw, hshape⟩ := Option.bind_eq_some_iff.mp hshape
    cases hshape
    have hstop := hfits.leaves (.integer w (!flags.test T_UNSIGNED)) (List.mem_singleton.mpr rfl)
    apply Effect.Yields.step (@fetchInt_window _ _ _ _ _ hat _ (!flags.test T_UNSIGNED) _ _ hw hstop).1
      (sameEffect.refl s)
    rw [if_neg (by decide), if_neg hfloat, Shape.read_leaf]
    exact fetchIntSv_window hat hw hstop

end Leaves

/-- What the tags of a type ask for, when they only ask for a byte order. -/
theorem CtTagList.ordinary_iff {tags : CtTagList} :
    tags.ordinary = true ↔ tags.format = none ∧ tags.dimension = none ∧ tags.hooks = none := by
  unfold CtTagList.ordinary
  rw [Bool.and_eq_true, Bool.and_eq_true, Option.isNone_iff_eq_none, Option.isNone_iff_eq_none,
    Option.isNone_iff_eq_none, and_assoc]

section Enum
variable {perl : Perl} {cbc : CBC} {s : PackInfo} {base : ℕ} {pos : ℤ} {order : CByteOrder}

theorem unpackEnum_shape {pES : EnumSpecifier} {pBI : Option BitfieldInfo} {shape : Shape}
    (hat : s.At base pos order) (hshape : enumShape cbc pES pBI pos order = some shape)
    (hfits : shape.Fits perl base s.length) :
    sameEffect.Yields (unpackEnum perl cbc pES pBI) s
      (shape.read perl cbc (s.buffer.from base)) := by
  unfold enumShape at hshape
  split_ifs at hshape with hordinary
  obtain ⟨hformat, -, hhooks⟩ := CtTagList.ordinary_iff.mp hordinary
  obtain ⟨w, hw, hshape⟩ := Option.bind_eq_some_iff.mp hshape
  cases hshape
  have hstop := hfits.leaves (.enum w pES) (List.mem_singleton.mpr rfl)
  -- the tag selects the byte order for the enum alone
  have horder : (s.tagged pES.tags).order = pES.tags.orderOr order := by
    show pES.tags.byteOrder.getD s.order = pES.tags.byteOrder.getD order
    rw [hat.order_eq]
  have hcheck := (@fetchInt_window cbc (s.tagged pES.tags) base pos _
    ⟨hat.pos_eq, horder, hat.short⟩ _ pES.signed _ _ hw hstop).1
  obtain ⟨t, hfetch, hsame⟩ := (@fetchInt_window cbc ((s.tagged pES.tags).enter (.enum pES))
    base pos _ ⟨hat.pos_eq, horder, hat.short⟩ _ pES.signed _ _ hw hstop).2
  refine ⟨{ t.leave with order := s.order }, ?_, hsame.buffer, hsame.length, rfl⟩
  unfold unpackEnum
  rw [hformat, hhooks]
  show (checkBuffer (packEnumSize cbc pES pBI) >>= _) (s.tagged pES.tags) = _
  rw [bind_of_ok hcheck, if_neg (by decide), bind_of_ok (within_ok hfetch)]
  rfl

end Enum

section Steps
variable (perl : Perl) (cbc : CBC)

/-- The recursive calls of unpacking read the shapes that the calls for the shape give. -/
structure UnpackReads (unpackType : UnpackTypeFn) (unpackStruct : UnpackStructFn)
    (shapeType : ShapeTypeFn) (shapeStruct : ShapeStructFn) : Prop where
  type : ∀ {pTS pDecl dimension pBI base pos order shape s}, PackInfo.At s base pos order →
    shapeType pTS pDecl dimension pBI pos order = some shape → Shape.Fits shape perl base s.length →
    sameEffect.Yields (unpackType pTS pDecl dimension pBI) s (shape.read perl cbc (s.buffer.from base))
  compound : ∀ {i base pos order members s}, PackInfo.At s base pos order →
    shapeStruct i [] false pos order = some members →
    (∀ m ∈ members, Shape.Fits m.2 perl base s.length) →
    sameEffect.Yields (unpackStruct i none) s
      (.hv (readMembers perl cbc (s.buffer.from base) members))
  inlined : ∀ {i base pos order members members' s}, PackInfo.At s base pos order →
    shapeStruct i members true pos order = some members' →
    (∀ m ∈ members', Shape.Fits m.2 perl base s.length) →
    sameEffect.Yields (unpackStruct i (some (readMembers perl cbc (s.buffer.from base) members))) s
      (.hv (readMembers perl cbc (s.buffer.from base) members'))

variable {perl cbc} {unpackType : UnpackTypeFn} {unpackStruct : UnpackStructFn}
  {shapeType : ShapeTypeFn} {shapeStruct : ShapeStructFn}
  (hreads : UnpackReads perl cbc unpackType unpackStruct shapeType shapeStruct)
  {s : PackInfo} {base : ℕ} {pos : ℤ} {order : CByteOrder}

/-- What fits and where it is stays the same. -/
theorem PackInfo.At.of_same (hat : s.At base pos order) {t : PackInfo} (hsame : s.Same t) {pos' : ℤ}
    (hpos : t.pos = u64 (base + pos')) : t.At base pos' order where
  pos_eq := hpos
  order_eq := hsame.order.trans hat.order_eq
  short := hsame.length ▸ hat.short

include hreads

theorem unpackElement_shape {pTS : TypeSpec} {d : Declarator} {dimension : ℕ} {size : ℤ} {i : ℕ}
    {shape : Shape} (hat : s.At base pos order) {t : PackInfo} (hsame : s.Same t)
    (hshape : elementShape shapeType pTS d dimension pos size order i = some shape)
    (hfits : shape.Fits perl base s.length) :
    sameEffect.Yields (unpackElement unpackType pTS d dimension s.pos size i) t
      (shape.read perl cbc (s.buffer.from base)) := by
  obtain ⟨distance, hdistance, hshape⟩ := Option.bind_eq_some_iff.mp hshape
  have hlong := toOption_some hdistance
  -- the position of the element, inside of its scope
  have hplace : ({ t.enter (.element i) with pos := u64 (s.pos + distance) } : PackInfo).At base
      (pos + distance) order := by
    apply hat.of_same (t := { t.enter (.element i) with pos := u64 (s.pos + distance) })
    · exact ⟨hsame.buffer, hsame.length, hsame.order⟩
    · show u64 (s.pos + distance) = _
      rw [hat.pos_eq, u64_u64_add, add_assoc]
  obtain ⟨u, hrun, hu⟩ := hreads.type hplace hshape (hsame.length ▸ hfits)
  refine ⟨u.leave, ?_, hu.buffer, hu.length, hu.order⟩
  apply within_ok
  rw [hlong]
  show unpackType pTS (some d) (dimension + 1) none _ = _
  rw [hrun, ← hsame.buffer]
  rfl

theorem unpackArray_shape {pTS : TypeSpec} {d : Declarator} {dimension : ℕ} {shape : Shape}
    (hat : s.At base pos order)
    (hshape : arrayShape shapeType pTS d dimension pos order = some shape)
    (hfits : shape.Fits perl base s.length) :
    sameEffect.Yields (unpackArray perl unpackType pTS d dimension none) s
      (shape.read perl cbc (s.buffer.from base)) := by
  obtain ⟨size, hsize, hshape⟩ := Option.bind_eq_some_iff.mp hshape
  obtain ⟨v, hv, hshape⟩ := Option.bind_eq_some_iff.mp hshape
  split_ifs at hshape with hnone
  obtain ⟨hne, hdefined⟩ := not_or.mp hnone
  obtain ⟨elems, helems, hshape⟩ := Option.bind_eq_some_iff.mp hshape
  cases hshape
  have hstride := toOption_some hsize
  have hcount : elems.length = v.iv.toNat := by
    rw [mapM_length_eq helems, List.length_range]
  have hbound : (loopBound v.iv).toNat = v.iv.toNat := by
    unfold loopBound
    split_ifs
    · omega
    · rfl
  have hmemory : ¬ 8 * loopBound v.iv > perl.memory := by
    have hwidth := hfits.elements elems.length (mem_widths_array.mpr (.inl rfl))
    rw [hcount, ← hbound] at hwidth
    have hnonneg : 0 ≤ loopBound v.iv := by
      unfold loopBound
      split_ifs <;> omega
    omega
  let u := s.emit (.elements s.path (isFlexible d dimension none) s.pos s.length size (loopBound v.iv))
  have hhead : unpackArrayHead perl d dimension none s = .ok (size, s.pos, loopBound v.iv) u := by
    have havail : availElements s.length s.pos size =
        .ok (i64 (u64 (u64 (s.length - s.pos) + (size - 1)) / u64 size)) := if_neg hne
    have hnumber (avail : ℤ) : unpackCount perl d dimension none avail = pure v.iv := by
      unfold unpackCount
      rw [hv]
      dsimp only
      rw [if_neg hdefined]
    have hextend : avExtend perl (loopBound v.iv) = pure () := if_neg hmemory
    unfold unpackArrayHead
    rw [hstride]
    show (liftCall (availElements s.length s.pos size) >>= _) s = _
    rw [havail]
    show (unpackCount perl d dimension none _ >>= _) s = _
    rw [hnumber]
    show (avExtend perl (loopBound v.iv) >>= _) u = _
    rw [hextend]
    rfl
  have hu : s.Same u := ⟨rfl, rfl, rfl⟩
  have helements : sameEffect.Yields
      ((List.range (loopBound v.iv).toNat).mapM (unpackElement unpackType pTS d dimension s.pos size))
      u (elems.map (Shape.read perl cbc (s.buffer.from base))) := by
    rw [hbound]
    apply Effect.Yields.mapM helems
    intro i _ shape hmem hshape t ht
    apply unpackElement_shape hreads hat (sameEffect.trans hu ht) hshape
    constructor
    · exact fun leaf hleaf => hfits.leaves leaf (mem_leaves_array.mpr ⟨shape, hmem, hleaf⟩)
    · exact fun n hn => hfits.elements n (mem_widths_array.mpr (.inr ⟨shape, hmem, hn⟩))
  apply Effect.Yields.step hhead hu
  rw [Shape.read_array]
  exact helements.bind fun t _ => Effect.yields_pure _ t

theorem unpackUntagged_shape {pTS : TypeSpec} {pDecl : Option Declarator} {dimension : ℕ}
    {pBI : Option BitfieldInfo} {shape : Shape} (hat : s.At base pos order)
    (hshape : untaggedShape cbc shapeType shapeStruct pTS pDecl dimension pBI pos order = some shape)
    (hfits : shape.Fits perl base s.length) :
    sameEffect.Yields (unpackUntagged perl cbc unpackType unpackStruct pTS pDecl dimension none pBI) s
      (shape.read perl cbc (s.buffer.from base)) := by
  unfold untaggedShape at hshape
  unfold unpackUntagged
  cases hfilter : pDecl.filter fun d => decide (dimension < d.dims.length) with
  | some d =>
    rw [hfilter] at hshape
    exact unpackArray_shape hreads hat hshape hfits
  | none =>
    rw [hfilter] at hshape
    dsimp only at hshape ⊢
    by_cases hpointer : pDecl.any Declarator.pointer_flag = true
    · rw [if_pos hpointer] at hshape ⊢
      split_ifs at hshape with hhooks
      rw [Option.isNone_iff_eq_none.mp hhooks]
      exact (unpackPointer_shape hat hshape hfits).bind fun t _ => Effect.yields_pure _ t
    · rw [if_neg hpointer] at hshape ⊢
      cases pTS with
      | typedef t => exact hreads.type hat hshape hfits
      | compound kind i =>
        dsimp only at hshape ⊢
        cases hdeclarations : (cbc.heap.structAt i).declarations with
        | none =>
          rw [hdeclarations] at hshape
          cases hshape
          exact Effect.yields_pure _ s
        | some declarations =>
          rw [hdeclarations] at hshape
          obtain ⟨members, hmembers, hshape⟩ := Option.bind_eq_some_iff.mp hshape
          cases hshape
          rw [Shape.read_record]
          apply hreads.compound hat hmembers
          intro m hm
          constructor
          · exact fun leaf hleaf => hfits.leaves leaf (mem_leaves_record.mpr ⟨m, hm, hleaf⟩)
          · exact fun n hn => hfits.elements n (mem_widths_record.mpr ⟨m, hm, hn⟩)
      | enum e => exact unpackEnum_shape hat hshape hfits
      | basic flags => exact unpackBasic_shape hat hshape hfits

/-- The byte order of a tag is in force for the declarator, and the old one afterwards. -/
theorem unpackTypeStep_shape {pTS : TypeSpec} {pDecl : Option Declarator} {dimension : ℕ}
    {pBI : Option BitfieldInfo} {shape : Shape} (hat : s.At base pos order)
    (hshape : shapeTypeStep cbc shapeType shapeStruct pTS pDecl dimension pBI pos order = some shape)
    (hfits : shape.Fits perl base s.length) :
    sameEffect.Yields (unpackTypeStep perl cbc unpackType unpackStruct pTS pDecl dimension pBI) s
      (shape.read perl cbc (s.buffer.from base)) := by
  unfold shapeTypeStep at hshape
  unfold unpackTypeStep
  split
  · rename_i d
    have hstep : (if d.tags.ordinary then untaggedShape cbc shapeType shapeStruct pTS (some d) 0 pBI
      pos (d.tags.orderOr order) else none) = some shape := hshape
    split_ifs at hstep with hordinary
    obtain ⟨hformat, hdimension, hhooks⟩ := CtTagList.ordinary_iff.mp hordinary
    dsimp only
    rw [hformat, hdimension, hhooks]
    have hinner : ((s.tagged d.tags).enter (.declarator d)).At base pos (d.tags.orderOr order) := by
      refine ⟨hat.pos_eq, ?_, hat.short⟩
      show d.tags.byteOrder.getD s.order = d.tags.byteOrder.getD order
      rw [hat.order_eq]
    obtain ⟨t, hrun, hsame⟩ := unpackUntagged_shape hreads hinner hstep hfits
    exact ⟨_, (bind_of_ok (inScope_ok hrun)).trans rfl, hsame.buffer, hsame.length, rfl⟩
  · rename_i hother
    split at hshape
    · exact (hother _ rfl rfl).elim
    · obtain ⟨t, hrun, hsame⟩ := unpackUntagged_shape hreads hat hshape hfits
      exact ⟨_, keepByteOrder_ok hrun, hsame.buffer, hsame.length, rfl⟩

theorem unpackMember_shape {type : TypeSpec} {d : Declarator} {members members' : List (String × Shape)}
    {start : ℤ} (hstart : ∀ offset, u64 (start + offset) = u64 (base + (pos + offset)))
    (hat : s.At base pos order)
    (hshape : memberShape shapeType pos order type members d = some members')
    (hfits : ∀ m ∈ members', m.2.Fits perl base s.length) {t : PackInfo} (hsame : s.Same t) :
    sameEffect.Yields (unpackMember unpackType start type
      (readMembers perl cbc (s.buffer.from base) members) d) t
      (readMembers perl cbc (s.buffer.from base) members') := by
  unfold memberShape at hshape
  unfold unpackMember
  split_ifs at hshape with hunnamed hknown
  · cases hshape
    rw [if_pos (.inl hunnamed)]
    exact Effect.yields_pure _ t
  · obtain ⟨shape, htype, hshape⟩ := Option.bind_eq_some_iff.mp hshape
    cases hshape
    have hnew : ¬ (d.identifier = "" ∨
        ((readMembers perl cbc (s.buffer.from base) members).lookup d.identifier).isSome = true) := by
      rw [lookup_readMembers]
      exact not_or.mpr ⟨hunnamed, hknown⟩
    rw [if_neg hnew]
    let u : PackInfo := { t with
      pos := u64 (start + d.offset)
      parent := some (readMembers perl cbc (s.buffer.from base) members) }
    have htu : t.Same u := ⟨rfl, rfl, rfl⟩
    have hu : u.At base (pos + d.offset) order := hat.of_same (sameEffect.trans hsame htu) (hstart _)
    have hlast := hfits (d.identifier, shape) (List.mem_append_right _ (List.mem_singleton.mpr rfl))
    obtain ⟨v, hrun, huv⟩ := hreads.type hu htype (hsame.length ▸ hlast)
    have hmember := bind_of_ok (f := fun value => setParent none >>= fun _ =>
      pure (readMembers perl cbc (s.buffer.from base) members ++ [(d.identifier, value)])) hrun
    refine ⟨{ v with parent := none }, hmember.trans ?_, huv.buffer, huv.length, huv.order⟩
    unfold readMembers
    rw [List.map_append, ← hsame.buffer]
    rfl

theorem unpackDeclaration_shape {fuel : ℕ} {sd : StructDeclaration}
    {members members' : List (String × Shape)} {start : ℤ}
    (hstart : ∀ offset, u64 (start + offset) = u64 (base + (pos + offset)))
    (hat : s.At base pos order)
    (hshape : declarationShape cbc fuel shapeType shapeStruct pos order members sd = some members')
    (hfits : ∀ m ∈ members', m.2.Fits perl base s.length) {t : PackInfo} (hsame : s.Same t) :
    sameEffect.Yields (unpackDeclaration cbc fuel unpackType unpackStruct start
      (readMembers perl cbc (s.buffer.from base) members) sd) t
      (readMembers perl cbc (s.buffer.from base) members') := by
  unfold declarationShape at hshape
  unfold unpackDeclaration
  cases hdeclarators : sd.declarators with
  | some declarators =>
    rw [hdeclarators] at hshape
    dsimp only at hshape ⊢
    apply And.right
    apply Effect.Yields.foldlM (Q := fun members => ∀ m ∈ members, m.2.Fits perl base s.length)
      _ _ hshape hfits
    · intro d _ c c' hc hc' m hm
      exact hc' m ((memberShape_extends hc).added.subset hm)
    · intro d _ c c' hc hc' u hu
      exact unpackMember_shape hreads hstart hat hc hc' (sameEffect.trans hsame hu)
  | none =>
    rw [hdeclarators] at hshape
    dsimp only at hshape ⊢
    obtain ⟨i, hfollow, hshape⟩ := Option.bind_eq_some_iff.mp hshape
    rw [toOption_some hfollow]
    let u : PackInfo := { t with pos := u64 (start + sd.offset) }
    have htu : t.Same u := ⟨rfl, rfl, rfl⟩
    have hu : u.At base (pos + sd.offset) order := hat.of_same (sameEffect.trans hsame htu) (hstart _)
    have hstruct := hreads.inlined hu hshape (hsame.length ▸ hfits)
    have hbuffer : u.buffer = s.buffer := hsame.buffer
    rw [hbuffer] at hstruct
    have hset : setPos (u64 (start + sd.offset)) t = .ok () u := rfl
    apply Effect.Yields.step (t := t) rfl (sameEffect.refl t)
    apply Effect.Yields.step hset htu
    exact hstruct.bind fun v _ => Effect.yields_pure _ v

/-- The loop over the declarations of a compound. -/
theorem unpackMembers_shape {fuel i : ℕ} {members members' : List (String × Shape)}
    (hextends : ∀ {i members inlined pos order members'},
      shapeStruct i members inlined pos order = some members' → Extends members members')
    (hat : s.At base pos order)
    (hshape : ((cbc.heap.structAt i).declarations.getD []).foldlM
      (declarationShape cbc fuel shapeType shapeStruct pos order) members = some members')
    (hfits : ∀ m ∈ members', m.2.Fits perl base s.length) :
    sameEffect.Yields (unpackMembers cbc fuel unpackType unpackStruct (cbc.heap.structAt i)
      (readMembers perl cbc (s.buffer.from base) members)) s
      (readMembers perl cbc (s.buffer.from base) members') := by
  have hstart (offset : ℤ) : u64 (i64 s.pos + offset) = u64 (base + (pos + offset)) := by
    rw [u64_i64_add, hat.pos_eq, u64_u64_add, add_assoc]
  apply Effect.Yields.step (t := s) rfl (sameEffect.refl s)
  apply And.right
  apply Effect.Yields.foldlM (Q := fun members => ∀ m ∈ members, m.2.Fits perl base s.length)
    _ _ hshape hfits
  · intro sd _ c c' hc hc' m hm
    exact hc' m ((declarationShape_extends hextends hc).added.subset hm)
  · intro sd _ c c' hc hc' t ht
    exact unpackDeclaration_shape hreads hstart hat hc hc' ht

/-- A compound for itself, with the byte order of its tag. -/
theorem unpackStructStep_compound {fuel i : ℕ} {members : List (String × Shape)}
    (hextends : ∀ {i members inlined pos order members'},
      shapeStruct i members inlined pos order = some members' → Extends members members')
    (hat : s.At base pos order)
    (hshape : shapeStructStep cbc fuel shapeType shapeStruct i [] false pos order = some members)
    (hfits : ∀ m ∈ members, m.2.Fits perl base s.length) :
    sameEffect.Yields (unpackStructStep perl cbc fuel unpackType unpackStruct i none) s
      (.hv (readMembers perl cbc (s.buffer.from base) members)) := by
  unfold shapeStructStep at hshape
  dsimp only at hshape
  rw [if_neg (by decide)] at hshape
  split_ifs at hshape with hordinary
  obtain ⟨hformat, -, hhooks⟩ := CtTagList.ordinary_iff.mp hordinary
  unfold unpackStructStep
  dsimp only
  rw [hformat, hhooks]
  let tags := (cbc.heap.structAt i).tags
  have hinner : ((s.tagged tags).enter (.compound (cbc.heap.structAt i))).At base pos
      (tags.orderOr order) := by
    refine ⟨hat.pos_eq, ?_, hat.short⟩
    show tags.byteOrder.getD s.order = tags.byteOrder.getD order
    rw [hat.order_eq]
  obtain ⟨t, hrun, hsame⟩ := unpackMembers_shape hreads hextends hinner hshape hfits
  exact ⟨_, (bind_of_ok (inScope_ok hrun)).trans rfl, hsame.buffer, hsame.length, rfl⟩

/-- An unnamed compound adds its members to the hash, and has no tags. -/
theorem unpackStructStep_inlined {fuel i : ℕ} {members members' : List (String × Shape)}
    (hextends : ∀ {i members inlined pos order members'},
      shapeStruct i members inlined pos order = some members' → Extends members members')
    (hat : s.At base pos order)
    (hshape : shapeStructStep cbc fuel shapeType shapeStruct i members true pos order = some members')
    (hfits : ∀ m ∈ members', m.2.Fits perl base s.length) :
    sameEffect.Yields (unpackStructStep perl cbc fuel unpackType unpackStruct i
      (some (readMembers perl cbc (s.buffer.from base) members))) s
      (.hv (readMembers perl cbc (s.buffer.from base) members')) := by
  unfold shapeStructStep at hshape
  dsimp only at hshape
  rw [if_pos rfl] at hshape
  unfold unpackStructStep
  dsimp only
  have hinner : ((s.tagged .empty).enter (.inlined (cbc.heap.structAt i))).At base pos order :=
    ⟨hat.pos_eq, hat.order_eq, hat.short⟩
  obtain ⟨t, hrun, hsame⟩ := unpackMembers_shape hreads hextends hinner hshape hfits
  exact ⟨_, (bind_of_ok (inScope_ok hrun)).trans rfl, hsame.buffer, hsame.length, rfl⟩

end Steps

/-- Unpacking reads the shape, at every depth of the recursion. -/
theorem unpack_reads (perl : Perl) (cbc : CBC) (fuel : ℕ) :
    UnpackReads perl cbc (unpackType perl cbc fuel) (unpackStruct perl cbc fuel) (shapeType cbc fuel)
      (shapeStruct cbc fuel) := by
  induction fuel with
  | zero =>
    constructor
    · exact fun _ hshape _ => nomatch hshape
    · exact fun _ hshape _ => nomatch hshape
    · exact fun _ hshape _ => nomatch hshape
  | succ fuel ih =>
    constructor
    · intro pTS pDecl dimension pBI base pos order shape s hat hshape hfits
      rw [unpackType]
      rw [shapeType] at hshape
      exact unpackTypeStep_shape ih hat hshape hfits
    · intro i base pos order members s hat hshape hfits
      rw [unpackStruct]
      rw [shapeStruct] at hshape
      exact unpackStructStep_compound ih shapeStruct_extends hat hshape hfits
    · intro i base pos order members members' s hat hshape hfits
      rw [unpackStruct]
      rw [shapeStruct] at hshape
      exact unpackStructStep_inlined ih shapeStruct_extends hat hshape hfits

/-- The number of values that `unpack` returns, in scalar and in list context. -/
def unpackTimes (scalar : Bool) (mi : MemberInfo) (len : ℕ) : ℕ :=
  if scalar then 1 else if mi.size = 0 then 1 else len / mi.size.toNat

/-- One turn of the loop of `unpack`, over the handle that the turn before leaves. -/
def unpackTurn (perl : Perl) (cbc : CBC) (fuel : ℕ) (mi : MemberInfo) (i : ℕ) : Pk SV := do
  setPos (u64 (i * mi.size))
  pkUnpack perl cbc fuel mi.type mi.pDecl mi.level

/-- `unpack` of `xsubs/pack.xs`, for a type that is found -/
def unpack (perl : Perl) (cbc : CBC) (fuel : ℕ) (mi : MemberInfo) (scalar : Bool)
    (string : List Byte) : Call (List SV) :=
  match (List.range (unpackTimes scalar mi string.length)).mapM (unpackTurn perl cbc fuel mi)
    (pkCreate string string.length) with
  | .ok svs _ => .ok svs
  | .error e _ => .error e

/-- The memory that starts with a string. -/
def stringMemory (string : List Byte) : Memory := fun i => string.getD i 0

/-- The turns of `unpack` share the handle, but nothing else than its buffer counts. -/
def bufferEffect : Effect Fault PackInfo where
  returns s t := t.buffer = s.buffer ∧ t.length = s.length
  fails _ _ _ := True
  refl _ := ⟨rfl, rfl⟩
  trans h h' := ⟨h'.1.trans h.1, h'.2.trans h.2⟩
  absorb _ _ := trivial

/-- A shape that fits into one object fits wherever there is room for the object. -/
theorem Shape.Fits.shift {shape : Shape} {perl : Perl} {size length : ℤ} (h : shape.Fits perl 0 size)
    {base : ℕ} (hbase : base + size ≤ length) : shape.Fits perl base length where
  leaves leaf hleaf := by
    have hstop := h.leaves leaf hleaf
    push_cast at hstop ⊢
    omega
  elements := h.elements

section Unpack
variable {perl : Perl} {cbc : CBC} {fuel : ℕ} {mi : MemberInfo} {shape : Shape}
  (hshape : shapeType cbc fuel mi.type mi.pDecl mi.level none 0 cbc.pLP.byte_order = some shape)
include hshape

omit hshape in
theorem PackInfo.at_start {s : PackInfo} {base : ℕ} (order : CByteOrder) (hpos : s.pos = base)
    (hbase : base ≤ s.length) (hshort : s.length < 18446744073709551616) :
    ({ s with order := order } : PackInfo).At base 0 order := by
  refine ⟨?_, rfl, hshort⟩
  show s.pos = u64 (base + 0)
  rw [add_zero, u64_of_lt (by omega) (by omega), hpos]

/-- Unpacking at any position of any buffer is reading the shape there. -/
theorem pkUnpack_eq_read (s : PackInfo) (base : ℕ) (hpos : s.pos = base) (hbase : base ≤ s.length)
    (hshort : s.length < 18446744073709551616) (hfits : shape.Fits perl base s.length) :
    bufferEffect.Yields (pkUnpack perl cbc fuel mi.type mi.pDecl mi.level) s
      (shape.read perl cbc (s.buffer.from base)) := by
  have hstart := PackInfo.at_start cbc.pLP.byte_order hpos hbase hshort
  obtain ⟨t, hrun, hsame⟩ := (unpack_reads perl cbc fuel).type hstart hshape hfits
  exact ⟨t, hrun, hsame.buffer, hsame.length⟩

variable (hsize : 0 < mi.size) (hfits : shape.Fits perl 0 mi.size)
include hsize hfits

/-- A turn of the loop reads its own part of the string. -/
theorem unpackTurn_eq_read {s : PackInfo} {i : ℕ} (hinside : (i + 1) * mi.size ≤ s.length)
    (hshort : s.length < 18446744073709551616) :
    bufferEffect.Yields (unpackTurn perl cbc fuel mi i) s
      (shape.read perl cbc (s.buffer.from (i * mi.size.toNat))) := by
  have hbase : ((i * mi.size.toNat : ℕ) : ℤ) = i * mi.size := by
    push_cast
    rw [Int.toNat_of_nonneg hsize.le]
  have hnext : (i + 1) * mi.size = i * mi.size + mi.size := by ring
  have hnonneg : 0 ≤ (i : ℤ) * mi.size := by positivity
  have hset : setPos (u64 (i * mi.size)) s = .ok () { s with pos := u64 (i * mi.size) } := rfl
  have hsame : bufferEffect.returns s { s with pos := u64 (i * mi.size) } := ⟨rfl, rfl⟩
  apply Effect.Yields.step hset hsame
  have hstart : ({ s with pos := u64 (i * mi.size), order := cbc.pLP.byte_order } : PackInfo).At
      (i * mi.size.toNat) 0 cbc.pLP.byte_order := by
    apply @PackInfo.at_start { s with pos := u64 (i * mi.size) } _ cbc.pLP.byte_order _ _ hshort
    · rw [hbase]
      exact u64_of_lt hnonneg (by omega)
    · rw [hbase]
      show _ ≤ s.length
      omega
  have hread : shape.Fits perl (i * mi.size.toNat : ℕ) s.length := by
    apply hfits.shift
    rw [hbase]
    show _ ≤ s.length
    omega
  obtain ⟨t, hrun, hkept⟩ := (unpack_reads perl cbc fuel).type hstart hshape hread
  exact ⟨t, hrun, hkept.buffer, hkept.length⟩

/-- The values of all parts of a string that are as long as an object. -/
theorem unpack_eq_read {scalar : Bool} {string : List Byte}
    (hinside : unpackTimes scalar mi string.length * mi.size ≤ string.length)
    (hshort : string.length < 18446744073709551616) :
    unpack perl cbc fuel mi scalar string =
      .ok ((List.range (unpackTimes scalar mi string.length)).map fun i =>
        shape.read perl cbc ((stringMemory string).from (i * mi.size.toNat))) := by
  have hturns : bufferEffect.Yields
      ((List.range (unpackTimes scalar mi string.length)).mapM (unpackTurn perl cbc fuel mi))
      (pkCreate string string.length)
      ((List.range (unpackTimes scalar mi string.length)).map fun i =>
        shape.read perl cbc ((stringMemory string).from (i * mi.size.toNat))) := by
    apply Effect.Yields.mapM_map
    intro i hi t ht
    have hlt := List.mem_range.mp hi
    have hnext : ((i + 1 : ℕ) : ℤ) * mi.size ≤ unpackTimes scalar mi string.length * mi.size := by
      apply mul_le_mul_of_nonneg_right _ hsize.le
      exact_mod_cast hlt
    have hlength : t.length = string.length := ht.2
    have hturn := unpackTurn_eq_read hshape hsize hfits (s := t) (i := i) (by push_cast at hnext; omega)
      (by omega)
    rw [ht.1] at hturn
    exact hturn
  obtain ⟨t, hrun, _⟩ := hturns
  unfold unpack
  rw [hrun]

omit hshape hsize in
/-- What counts of the memory behind an address is inside of the object there. -/
theorem read_from_eq {mem mem' : Memory} {base : ℕ}
    (h : ∀ i, i < mi.size.toNat → mem (base + i) = mem' i) :
    shape.read perl cbc (mem.from base) = shape.read perl cbc mem' := by
  apply Shape.read_congr
  rintro p ⟨leaf, hleaf, hp⟩
  have hstop := hfits.leaves leaf hleaf
  have hlt := Leaf.lt_stop hp
  push_cast at hstop
  have hbyte : mem.from base p.1 = mem' p.1 := h p.1 (by omega)
  show (mem.from base p.1).getLsbD p.2 = (mem' p.1).getLsbD p.2
  rw [hbyte]

/-- In list context `unpack` returns one value for each slice of the string that is as long as
an object, and it is the value that the slice alone has in scalar context. -/
theorem unpack_slices (string : List Byte) (hshort : string.length < 18446744073709551616) :
    ∃ svs, unpack perl cbc fuel mi false string = .ok svs ∧
      svs.length = string.length / mi.size.toNat ∧
      ∀ i sv, svs[i]? = some sv → unpack perl cbc fuel mi true
        ((string.drop (i * mi.size.toNat)).take mi.size.toNat) = .ok [sv] := by
  let n := mi.size.toNat
  have hn : (n : ℤ) = mi.size := Int.toNat_of_nonneg hsize.le
  have htimes : unpackTimes false mi string.length = string.length / n := if_neg hsize.ne'
  have hdiv : string.length / n * n ≤ string.length := Nat.div_mul_le_self _ _
  have hlist := @unpack_eq_read perl cbc fuel mi shape hshape hsize hfits false string
    (by rw [htimes, ← hn]; exact_mod_cast hdiv) hshort
  refine ⟨_, hlist, by rw [List.length_map, List.length_range, htimes], ?_⟩
  intro i sv hsv
  rw [List.getElem?_map, Option.map_eq_some_iff] at hsv
  obtain ⟨j, hj, hsv⟩ := hsv
  obtain ⟨hlt, hij⟩ := List.getElem?_eq_some_iff.mp hj
  rw [List.length_range, htimes] at hlt
  rw [List.getElem_range] at hij
  subst hij
  -- the slice is as long as the object
  have hnext : (i + 1) * n ≤ string.length :=
    (Nat.mul_le_mul_right n hlt).trans hdiv
  rw [Nat.add_mul, Nat.one_mul] at hnext
  have hlength : ((string.drop (i * n)).take n).length = n := by
    rw [List.length_take, List.length_drop]
    omega
  have hscalar := @unpack_eq_read perl cbc fuel mi shape hshape hsize hfits true
    ((string.drop (i * n)).take n)
    (by rw [hlength, hn]; show ((1 : ℕ) : ℤ) * mi.size ≤ mi.size; omega) (by omega)
  rw [hscalar]
  show Except.ok [shape.read perl cbc (Memory.from _ (0 * n))] = _
  rw [← hsv]
  have hread := @read_from_eq perl cbc mi shape hfits (stringMemory string)
    ((stringMemory ((string.drop (i * n)).take n)).from (0 * n)) (i * n) fun k hk => by
      show string.getD (i * n + k) 0 = ((string.drop (i * n)).take n).getD (0 * n + k) 0
      rw [Nat.zero_mul, Nat.zero_add, List.getD_eq_getElem?_getD, List.getD_eq_getElem?_getD,
        List.getElem?_take_of_lt hk, List.getElem?_drop]
  rw [hread]

/-- In scalar context `unpack` reads the object at the start of the string. -/
theorem unpack_scalar (string : List Byte) (hlong : mi.size ≤ string.length)
    (hshort : string.length < 18446744073709551616) :
    unpack perl cbc fuel mi true string = .ok [shape.read perl cbc (stringMemory string)] := by
  have honce : ((1 : ℕ) : ℤ) * mi.size ≤ string.length := by omega
  rw [@unpack_eq_read perl cbc fuel mi shape hshape hsize hfits true _ honce hshort]
  show Except.ok [shape.read perl cbc (Memory.from _ (0 * mi.size.toNat))] = _
  have hstart : (stringMemory string).from (0 * mi.size.toNat) = stringMemory string := by
    funext a
    show stringMemory string (0 * mi.size.toNat + a) = _
    rw [Nat.zero_mul, Nat.zero_add]
  rw [hstart]

/-- Two strings that agree on the bits of the members unpack to the same value: neither the
padding nor what is behind the object counts. -/
theorem unpack_ignores_padding (string string' : List Byte)
    (hlong : mi.size ≤ string.length) (hlong' : mi.size ≤ string'.length)
    (hshort : string.length < 18446744073709551616) (hshort' : string'.length < 18446744073709551616)
    (hbits : Set.EqOn (bitAt (stringMemory string)) (bitAt (stringMemory string')) shape.bits) :
    unpack perl cbc fuel mi true string = unpack perl cbc fuel mi true string' := by
  rw [unpack_scalar hshape hsize hfits string hlong hshort,
    unpack_scalar hshape hsize hfits string' hlong' hshort', Shape.read_congr perl cbc shape hbits]

end Unpack

/-- `struct { char c; int b : 5; short a[2]; }` -/
def paddedStruct : Struct :=
  { structOf "" [declaration (.basic T_CHAR) [memberAt "c" 0 1 1],
      declaration (.basic T_INT) [{ memberAt "b" 0 4 4 with ext := .bitfield ⟨4, 5, 8⟩ }],
      declaration (.basic T_SHORT)
        [{ memberAt "a" 4 4 2 with ext := .array [⟨2, false, false⟩] }]] with size := 8 }

def paddedCbc : CBC := cbc64 (singleHeap paddedStruct)

def paddedInfo : MemberInfo := ⟨.compound .struct 0, none, none, 0, 0, 8⟩

/-- Do all leaves of the shape lie in `size` bytes, and is there memory for its arrays? -/
def Shape.fitsIn (shape : Shape) (perl : Perl) (size : ℤ) : Bool :=
  shape.leaves.all (fun leaf => leaf.stop ≤ size) && shape.widths.all fun n => 8 * (n : ℤ) ≤ perl.memory

theorem Shape.fits_of_fitsIn {shape : Shape} {perl : Perl} {size : ℤ}
    (h : shape.fitsIn perl size = true) : shape.Fits perl 0 size := by
  obtain ⟨hleaves, hwidths⟩ := Bool.and_eq_true_iff.mp h
  constructor
  · intro leaf hleaf
    have hstop := of_decide_eq_true (List.all_eq_true.mp hleaves leaf hleaf)
    push_cast
    omega
  · exact fun n hn => of_decide_eq_true (List.all_eq_true.mp hwidths n hn)

theorem padded_shape : ∃ shape, shapeType paddedCbc 10 paddedInfo.type paddedInfo.pDecl
    paddedInfo.level none 0 paddedCbc.pLP.byte_order = some shape ∧ shape.Fits slotPerl 0 8 := by
  have h : (shapeType paddedCbc 10 paddedInfo.type paddedInfo.pDecl paddedInfo.level none 0
      paddedCbc.pLP.byte_order).any (fun shape => shape.fitsIn slotPerl 8) = true := by decide +kernel
  obtain ⟨shape, hshape, hfits⟩ := (Option.any_eq_true _ _).mp h
  exact ⟨shape, hshape, Shape.fits_of_fitsIn hfits⟩

theorem pkUnpack_eq_read_padded :
    ∃ shape, shapeType paddedCbc 10 paddedInfo.type paddedInfo.pDecl paddedInfo.level none 0
        paddedCbc.pLP.byte_order = some shape ∧
      bufferEffect.Yields (pkUnpack slotPerl paddedCbc 10 paddedInfo.type paddedInfo.pDecl
        paddedInfo.level) { pkCreate (List.replicate 20 7) 20 with pos := 3 }
        (shape.read slotPerl paddedCbc ((pkCreate (List.replicate 20 7) 20).buffer.from 3)) := by
  obtain ⟨shape, hshape, hfits⟩ := padded_shape
  exact ⟨shape, hshape, pkUnpack_eq_read hshape { pkCreate (List.replicate 20 7) 20 with pos := 3 } 3
    rfl (by decide) (by decide) (hfits.shift (by decide))⟩

theorem unpack_slices_padded :
    ∃ svs, unpack slotPerl paddedCbc 10 paddedInfo false (List.replicate 20 7) = .ok svs ∧
      svs.length = (List.replicate 20 (7 : Byte)).length / paddedInfo.size.toNat ∧
      ∀ i sv, svs[i]? = some sv → unpack slotPerl paddedCbc 10 paddedInfo true
        (((List.replicate 20 7).drop (i * paddedInfo.size.toNat)).take paddedInfo.size.toNat) =
          .ok [sv] := by
  obtain ⟨shape, hshape, hfits⟩ := padded_shape
  exact unpack_slices hshape (by decide) hfits (List.replicate 20 7) (by decide)

theorem unpack_ignores_padding_padded :
    unpack slotPerl paddedCbc 10 paddedInfo true [1, 2, 3, 4, 5, 6, 7, 8] =
      unpack slotPerl paddedCbc 10 paddedInfo true [1, 2, 3, 4, 5, 6, 7, 8, 9] := by
  obtain ⟨shape, hshape, hfits⟩ := padded_shape
  apply unpack_ignores_padding hshape (by decide) hfits _ _ (by decide) (by decide) (by decide)
    (by decide)
  rintro p ⟨leaf, hleaf, hp⟩
  have hstop := hfits.leaves leaf hleaf
  have hlt := Leaf.lt_stop hp
  have hin : p.1 < 8 := by
    push_cast at hstop
    omega
  have hbyte : stringMemory [1, 2, 3, 4, 5, 6, 7, 8] p.1 =
      stringMemory [1, 2, 3, 4, 5, 6, 7, 8, 9] p.1 := by
    have hlonger : ([1, 2, 3, 4, 5, 6, 7, 8, 9] : List Byte) = [1, 2, 3, 4, 5, 6, 7, 8] ++ [9] := rfl
    unfold stringMemory
    rw [hlonger, List.getD_eq_getElem?_getD, List.getD_eq_getElem?_getD,
      List.getElem?_append_left hin]
  unfold bitAt
  rw [hbyte]

end ConvertBinaryC
