import ConvertBinaryC.CBCFlexibleCount

/-! Dimension tags, for every number that they can give. -/
namespace ConvertBinaryC
open StateRules

/-- The number of a tag that is not flexible has nothing to do with the data. -/
theorem dimtagEval_avail (perl : Perl) {tag : DimensionTag} (htag : tag ≠ .flexible)
    (avail avail' : ℤ) : dimtagEval perl tag avail = dimtagEval perl tag avail' := by
  cases tag with
  | flexible => exact absurd rfl htag
  | _ => rfl

/-- The loop over `n` elements of an array that is packed. -/
def packElements (packType : PackTypeFn) (pTS : TypeSpec) (pDecl : Declarator) (pos size : ℤ)
    (elems : List (Option SV)) (n : ℕ) : Pk Unit :=
  (List.range n).forM fun i => packElement packType pTS pDecl 0 pos size (elems[i]?.join, i)

/-- The elements of an array of `n` elements. -/
def unpackElements (perl : Perl) (unpackType : UnpackTypeFn) (pTS : TypeSpec) (pDecl : Declarator)
    (pos size : ℤ) (n : ℕ) : Pk SV := do
  avExtend perl n
  let elems ← (List.range n).mapM (unpackElement unpackType pTS pDecl 0 pos size)
  pure (.av (elems.map some))

/-- The length that the buffer has to have for `v` elements: their size behind the position,
which for no elements does not go beyond the position. -/
structure GrowsFor (v size pos required : ℤ) : Prop where
  exact : required = pos + v * size
  none : v ≤ 0 → required ≤ pos

section
variable (perl : Perl) (cbc : CBC) (fuel : ℕ) (pTS : TypeSpec) (d : Declarator)
  (tag : DimensionTag) (elems : List (Option SV)) (v : ℤ) (st st₁ : PackInfo)

/-- What packing an array does with the number `v` of a tag: it grows the buffer for that
many elements, and once that is done its loop is over that many. -/
structure PackTreats : Prop where
  grows : ∃ size required rest, elementStride d 0 = .ok size ∧ GrowsFor v size st₁.pos required ∧
    (finalState (packArray perl (packType perl cbc fuel) pTS d 0 (some tag) (.av elems) st)).trace =
      st₁.trace ++ .grow st₁.path required :: rest
  loops : ∀ size u, elementStride d 0 = .ok size → growBuffer perl (v * size) st₁ = .ok () u →
    packArray perl (packType perl cbc fuel) pTS d 0 (some tag) (.av elems) st =
      (emit (.elements u.path false u.pos u.length size v) >>= fun _ =>
        packElements (packType perl cbc fuel) pTS d u.pos size elems v.toNat) u

/-- What unpacking an array does with the number: its loop is over that many elements, and
the buffer does not grow. -/
structure UnpackTreats : Prop where
  loops : ∃ size, elementStride d 0 = .ok size ∧
    unpackArray perl (unpackType perl cbc fuel) pTS d 0 (some tag) st =
      (emit (.elements st₁.path false st₁.pos st₁.length size v.toNat) >>= fun _ =>
        unpackElements perl (unpackType perl cbc fuel) pTS d st₁.pos size v.toNat) st₁
  keeps : Did (fun e => e.isGrow = false) st
    (finalState (unpackArray perl (unpackType perl cbc fuel) pTS d 0 (some tag) st))

/-- With a Format tag: the size that packing and unpacking handle the array with is that of
so many elements. -/
def FormatTreats : Prop :=
  ∃ one size, formatUnit d (some tag) = .ok one ∧
    preparePackFormat perl d (some tag) st = .ok (size, false) st₁ ∧
    u32 size = v.toNat * one

end

/-- The size of the elements is a long, and does not wrap around with the position. -/
structure Unwrapped (v size pos : ℤ) : Prop where
  product : IsLong (v * size)
  low : 0 ≤ pos + v * size
  high : pos + v * size < 18446744073709551616
  none : v ≤ 0 → v * size ≤ 0

theorem growsFor_iff {v size pos : ℤ} (hlong : IsLong (v * size)) :
    GrowsFor v size pos (u64 (pos + v * size)) ↔ Unwrapped v size pos := by
  constructor
  · rintro ⟨hexact, hnone⟩
    have hnonneg := u64_nonneg (pos + v * size)
    have hlt := u64_lt (pos + v * size)
    exact ⟨hlong, by omega, by omega, fun hv => by have := hnone hv; omega⟩
  · rintro ⟨_, hlow, hhigh, hnone⟩
    rw [u64_of_lt hlow hhigh]
    exact ⟨rfl, fun hv => by have := hnone hv; omega⟩

/-- The loop over the elements that exist is that over all of them. -/
theorem forM_take {f : Option SV × ℕ → Pk PUnit} (hnone : ∀ i, f (none, i) = pure ())
    (elems : List (Option SV)) (n : ℕ) :
    (elems.take n).zipIdx.forM f = (List.range n).forM fun i => f (elems[i]?.join, i) := by
  induction n with
  | zero => rfl
  | succ n ih =>
    have hrange : (List.range (n + 1)).forM (fun i => f (elems[i]?.join, i)) =
        (List.range n).forM (fun i => f (elems[i]?.join, i)) >>= fun _ =>
          f (elems[n]?.join, n) := by
      rw [List.range_succ]
      refine List.forM_append.trans ?_
      congr 1
      funext _
      exact (List.forM_cons.trans (bind_pure_comp _ _)).trans (id_map _)
    rw [hrange, ← ih, List.take_add_one]
    by_cases hn : n < elems.length
    · have hlength : (elems.take n).length = n := by
        rw [List.length_take, min_eq_left hn.le]
      rw [List.getElem?_eq_getElem hn, Option.toList_some, List.zipIdx_append, hlength]
      refine List.forM_append.trans ?_
      congr 1
      funext _
      rw [Nat.zero_add]
      exact (List.forM_cons.trans (bind_pure_comp _ _)).trans (id_map _)
    · rw [List.getElem?_eq_none (by omega), Option.toList_none, List.append_nil, Option.join_none,
        hnone, bind_pure_comp]
      exact (id_map _).symm

/-- The loop after the buffer was made to grow. -/
def packLoop (packType : PackTypeFn) (pTS : TypeSpec) (d : Declarator) (size : ℤ)
    (elems : List (Option SV)) (v : ℤ) : Pk Unit := do
  let st ← get
  emit (.elements st.path false st.pos st.length size v)
  packElements packType pTS d st.pos size elems v.toNat

section
variable {perl : Perl} {cbc : CBC} {fuel : ℕ} {pTS : TypeSpec} {d : Declarator}
  {tag : DimensionTag} {elems : List (Option SV)} {v size : ℤ} {st st₁ : PackInfo}
  (htag : tag ≠ .flexible) (hv : dimtagEval perl tag 0 st = .ok v st₁)
include htag

theorem isFlexible_tag : isFlexible d 0 (some tag) = false := decide_eq_false htag

include hv

theorem packArray_tag (packType : PackTypeFn) (hsize : elementStride d 0 = .ok size) :
    packArray perl packType pTS d 0 (some tag) (.av elems) st =
      (liftCall (long (v * size)) >>= fun grown => growBuffer perl grown >>= fun _ =>
        packLoop packType pTS d size elems v) st₁ := by
  have heval : dimtagEval perl tag elems.length st = .ok v st₁ := by
    rw [dimtagEval_avail perl htag _ 0, hv]
  have hloop (pos : ℤ) : (elems.take v.toNat).zipIdx.forM (packElement packType pTS d 0 pos size) =
      packElements packType pTS d pos size elems v.toNat :=
    forM_take (fun _ => rfl) elems v.toNat
  have hstride : (liftCall (elementStride d 0) : Pk ℤ) st = .ok size st := by
    rw [hsize]
    rfl
  unfold packArray packCount packLoop
  dsimp only
  rw [bind_of_ok hstride, bind_assoc, bind_of_ok heval]
  simp only [bind_assoc, pure_bind, hloop, isFlexible_tag htag]

omit htag hv in
theorem did_packLoop : (didEffect fun _ => True).Holds
    (packLoop (packType perl cbc fuel) pTS d size elems v) := by
  have hE : PackClosed (didEffect fun _ => True) perl cbc fun _ => True :=
    did_packClosed perl cbc fun _ => trivial
  have htype := (hE.recursion (fun s => Did.refl _ s) (declarators_true cbc.heap) fuel).1
  apply Effect.holds_get.bind
  intro u
  apply Effect.Holds.bind (fun _ => did_emit trivial)
  intro _
  apply Effect.Holds.forM
  intro i _
  unfold packElement
  cases elems[i]?.join with
  | none => exact Effect.holds_pure _
  | some sv =>
    apply hE.element
    apply (hE.lift (plain_long _)).bind
    intro distance
    apply (hE.pos _).bind
    exact fun _ => htype _ _ _ _ _ fun _ _ => trivial

omit htag hv in
/-- What comes after the growth comes after it in what is done. -/
theorem growBuffer_trace {α : Type} {f : Unit → Pk α}
    (hf : ∀ a, (didEffect fun _ => True).Holds (f a)) (p : ℤ) (s : PackInfo) :
    ∃ rest, (finalState ((growBuffer perl p >>= f) s)).trace =
      s.trace ++ .grow s.path (u64 (s.pos + p)) :: rest := by
  have hrest : ∃ m : Pk Unit, (didEffect fun _ => True).Holds m ∧
      growBuffer perl p s = m (s.emit (.grow s.path (u64 (s.pos + p)))) := by
    have hE : Closed (didEffect fun _ => True) perl := (did_indifferent perl).closed
    refine ⟨if u64 (s.pos + p) > s.length then
        if u64 (s.pos + p) + 1 = 18446744073709551616 then throw .undefinedBehaviour
        else if u64 (s.pos + p) + 1 > perl.memory then throw (.fatal "Out of memory!")
        else modify fun st => { st with
          buffer := fun i => if st.length ≤ i ∧ (i : ℤ) ≤ u64 (s.pos + p) then 0 else st.buffer i
          cur := u64 (s.pos + p)
          length := u64 (s.pos + p) }
      else pure (), ?_, rfl⟩
    split_ifs
    · exact hE.fault _ (by decide)
    · exact hE.fault _ (by decide)
    · exact fun u => Effect.At.modify (did_buffer u _ _ _)
    · exact Effect.holds_pure _
  obtain ⟨m, hm, hgrow⟩ := hrest
  have hbind : (growBuffer perl p >>= f) s = (m >>= f) (s.emit (.grow s.path (u64 (s.pos + p)))) := by
    show EStateM.bind _ _ _ = EStateM.bind _ _ _
    rw [EStateM.bind, EStateM.bind, hgrow]
  obtain ⟨events, htrace, _⟩ := did_final (hm.bind hf) (s.emit (.grow s.path (u64 (s.pos + p))))
  refine ⟨events, ?_⟩
  rw [hbind, htrace]
  exact List.append_assoc ..

variable (cbc fuel pTS elems) in
/-- The buffer is made to grow first. -/
theorem packArray_grows (hsize : elementStride d 0 = .ok size) (hlong : IsLong (v * size)) :
    ∃ rest,
      (finalState (packArray perl (packType perl cbc fuel) pTS d 0 (some tag) (.av elems) st)).trace =
        st₁.trace ++ .grow st₁.path (u64 (st₁.pos + v * size)) :: rest := by
  rw [packArray_tag htag hv _ hsize, long, if_pos hlong]
  exact growBuffer_trace (fun _ => did_packLoop) (v * size) st₁

theorem packTreats_iff : PackTreats perl cbc fuel pTS d tag elems v st st₁ ↔
    ∃ size, elementStride d 0 = .ok size ∧ Unwrapped v size st₁.pos := by
  constructor
  · rintro ⟨⟨size, required, rest, hsize, hgrows, htrace⟩, _⟩
    refine ⟨size, hsize, ?_⟩
    by_cases hlong : IsLong (v * size)
    · obtain ⟨rest', htrace'⟩ := packArray_grows cbc fuel pTS elems htag hv hsize hlong
      rw [htrace', List.append_cancel_left_eq, List.cons.injEq, Event.grow.injEq] at htrace
      rw [← htrace.1.2] at hgrows
      exact (growsFor_iff hlong).mp hgrows
    · -- the product overflows before anything is done
      rw [packArray_tag htag hv _ hsize, long, if_neg hlong] at htrace
      exact absurd (List.self_eq_append_right.mp htrace) (List.cons_ne_nil _ _)
  · rintro ⟨size, hsize, hunwrapped⟩
    have hlong := hunwrapped.product
    constructor
    · obtain ⟨rest, htrace⟩ := packArray_grows cbc fuel pTS elems htag hv hsize hlong
      exact ⟨size, _, rest, hsize, (growsFor_iff hlong).mpr hunwrapped, htrace⟩
    · intro size' u hsize' hgrow
      obtain rfl : size' = size := Except.ok.inj (hsize'.symm.trans hsize)
      rw [packArray_tag htag hv _ hsize, long, if_pos hlong]
      show (growBuffer perl (v * size') >>= _) st₁ = _
      rw [bind_of_ok hgrow]
      rfl

omit htag hv in
theorem loopBound_eq (n : ℤ) : loopBound n = n.toNat := by
  unfold loopBound
  split_ifs <;> omega

theorem unpackArray_tag (unpackType : UnpackTypeFn) (hsize : elementStride d 0 = .ok size)
    (hne : size ≠ 0) :
    unpackArray perl unpackType pTS d 0 (some tag) st =
      (emit (.elements st₁.path false st₁.pos st₁.length size v.toNat) >>= fun _ =>
        unpackElements perl unpackType pTS d st₁.pos size v.toNat) st₁ := by
  have hstride : (liftCall (elementStride d 0) : Pk ℤ) st = .ok size st := by
    rw [hsize]
    rfl
  have hget : (get : Pk PackInfo) st = .ok st st := rfl
  have havail : ∃ avail, (liftCall (availElements st.length st.pos size) : Pk ℤ) st = .ok avail st := by
    unfold availElements
    rw [if_neg hne]
    exact ⟨_, rfl⟩
  obtain ⟨avail, havail⟩ := havail
  have heval : dimtagEval perl tag avail st = .ok v st₁ := by
    rw [dimtagEval_avail perl htag _ 0, hv]
  obtain ⟨calls, rfl⟩ := dimtagEval_ok hv
  unfold unpackArray unpackArrayHead unpackCount unpackElements
  dsimp only
  simp only [bind_assoc, pure_bind, loopBound_eq, isFlexible_tag htag, Int.toNat_natCast]
  rw [bind_of_ok hstride, bind_of_ok hget, bind_of_ok havail, bind_of_ok heval]

omit htag hv in
theorem did_unpackElements (n : ℕ) (pos : ℤ) : (didEffect fun _ => True).Holds
    (unpackElements perl (unpackType perl cbc fuel) pTS d pos size n) := by
  have hE : UnpackClosed (didEffect fun _ => True) perl cbc fun _ => True :=
    did_unpackClosed perl cbc fun _ _ => trivial
  have htype := (hE.recursion (fun s => Did.refl _ s) (declarators_true cbc.heap) fuel).1
  apply (hE.extend _).bind
  intro _
  exact (hE.parts.elements (htype _ _ _ _ fun _ _ => trivial) pos size n).bind fun _ => Effect.holds_pure _

theorem unpackTreats_iff : UnpackTreats perl cbc fuel pTS d tag v st st₁ ↔
    ∃ size, elementStride d 0 = .ok size ∧ size ≠ 0 := by
  constructor
  · rintro ⟨⟨size, hsize, hloop⟩, _⟩
    refine ⟨size, hsize, ?_⟩
    rintro rfl
    have hdivide : unpackArray perl (unpackType perl cbc fuel) pTS d 0 (some tag) st =
        .error .divideByZero st := by
      have hstride : (liftCall (elementStride d 0) : Pk ℤ) st = .ok 0 st := by
        rw [hsize]
        rfl
      unfold unpackArray unpackArrayHead
      rw [bind_assoc, bind_of_ok hstride]
      rfl
    -- nothing is noted before the division
    have hrest : (didEffect fun _ => True).Holds
        (unpackElements perl (unpackType perl cbc fuel) pTS d st₁.pos 0 v.toNat) :=
      did_unpackElements v.toNat st₁.pos
    obtain ⟨events, htrace, _⟩ := did_final hrest
      (st₁.emit (.elements st₁.path false st₁.pos st₁.length 0 v.toNat))
    obtain ⟨calls, rfl⟩ := dimtagEval_ok hv
    rw [hdivide] at hloop
    have hfinal := congrArg (fun r => (finalState r).trace) hloop
    have hsame : st.trace = (st.trace ++ [_]) ++ events := hfinal.trans htrace
    rw [List.append_assoc] at hsame
    exact absurd (List.self_eq_append_right.mp hsame) (List.cons_ne_nil _ _)
  · rintro ⟨size, hsize, hne⟩
    constructor
    · exact ⟨size, hsize, unpackArray_tag htag hv _ hsize hne⟩
    · have hE : UnpackClosed (didEffect fun e => e.isGrow = false) perl cbc fun _ => True :=
        did_unpackClosed perl cbc fun _ h => h
      have htype := (hE.recursion (fun s => Did.refl _ s) (declarators_true cbc.heap) fuel).1
      apply did_final
      apply (did_head perl (fun _ h => h) d 0 (some tag)).bind
      rintro ⟨size, pos, n⟩
      exact (hE.parts.elements (htype _ _ _ _ fun _ _ => trivial) pos size n.toNat).bind fun _ => Effect.holds_pure _

/-- The size for a Format tag is the product as an int. -/
theorem prepare_tag {one : ℤ} (hone : formatUnit d (some tag) = .ok one) :
    preparePackFormat perl d (some tag) st =
      (liftCall (long (one * v)) >>= fun size => pure (i32 size, false)) st₁ := by
  have hunit : (liftCall (formatUnit d (some tag)) : Pk ℤ) st = .ok one st := by
    rw [hone]
    rfl
  have hflexible : formatFlexible d (some tag) = false := by
    unfold formatFlexible
    dsimp only
    rw [decide_eq_false htag, Bool.and_false]
  unfold preparePackFormat
  rw [bind_of_ok hunit, hflexible, if_neg Bool.false_ne_true]
  dsimp only
  rw [bind_of_ok hv]

theorem formatTreats_iff : FormatTreats perl d tag v st st₁ ↔
    ∃ one, formatUnit d (some tag) = .ok one ∧ IsLong (one * v) ∧
      if 0 < v then 0 ≤ one * v ∧ one * v < 4294967296 else 4294967296 ∣ one * v := by
  have hexact (one : ℤ) : u32 (i32 (one * v)) = v.toNat * one ↔
      if 0 < v then 0 ≤ one * v ∧ one * v < 4294967296 else 4294967296 ∣ one * v := by
    have hres : u32 (i32 (one * v)) = one * v % 4294967296 := Int.bmod_emod
    rw [hres]
    split_ifs with hv
    · rw [Int.toNat_of_nonneg hv.le, mul_comm v one]
      omega
    · rw [Int.toNat_of_nonpos (by omega), Nat.cast_zero, zero_mul]
      exact Int.dvd_iff_emod_eq_zero.symm
  constructor
  · rintro ⟨one, size, hone, hprepare, hsize⟩
    refine ⟨one, hone, ?_⟩
    rw [prepare_tag htag hv hone] at hprepare
    obtain ⟨product, t, hlift, hpure⟩ := bind_ok hprepare
    obtain ⟨hproduct, rfl⟩ := liftCall_ok hlift
    obtain ⟨hlong, rfl⟩ := long_ok_iff.mp hproduct
    cases hpure
    exact ⟨hlong, (hexact one).mp hsize⟩
  · rintro ⟨one, hone, hlong, hfits⟩
    refine ⟨one, i32 (one * v), hone, ?_, (hexact one).mpr hfits⟩
    rw [prepare_tag htag hv hone, long, if_pos hlong]
    rfl

end

/-- A number of a tag is treated as the number of elements, or as none when it is negative. -/
def TagTreated (perl : Perl) (cbc : CBC) (fuel : ℕ) (pTS : TypeSpec) (d : Declarator)
    (tag : DimensionTag) (elems : List (Option SV)) (v : ℤ) (st st₁ : PackInfo) : Prop :=
  match d.tags.format with
  | none =>
    PackTreats perl cbc fuel pTS d tag elems v st st₁ ∧ UnpackTreats perl cbc fuel pTS d tag v st st₁
  | some _ => FormatTreats perl d tag v st st₁

/-- Without a Format tag the elements have a size, and the product is what it is as a long
and as a position; with one, it is what it is as an `unsigned`, and nothing when it is
negative. -/
def TagFits (d : Declarator) (tag : DimensionTag) (v pos : ℤ) : Prop :=
  match d.tags.format with
  | none => ∃ size, elementStride d 0 = .ok size ∧ size ≠ 0 ∧ Unwrapped v size pos
  | some _ => ∃ one, formatUnit d (some tag) = .ok one ∧ IsLong (one * v) ∧
    if 0 < v then 0 ≤ one * v ∧ one * v < 4294967296 else 4294967296 ∣ one * v

/-- For every number that a Dimension tag gives, at every position. -/
theorem dimension_tag_iff (perl : Perl) (cbc : CBC) (fuel : ℕ) (pTS : TypeSpec) (d : Declarator)
    (tag : DimensionTag) (elems : List (Option SV)) (v : ℤ) (st st₁ : PackInfo)
    (htag : tag ≠ .flexible) (hv : dimtagEval perl tag 0 st = .ok v st₁) :
    TagTreated perl cbc fuel pTS d tag elems v st st₁ ↔ TagFits d tag v st.pos := by
  have hpos : st₁.pos = st.pos := by
    obtain ⟨calls, rfl⟩ := dimtagEval_ok hv
    rfl
  unfold TagTreated TagFits
  cases d.tags.format with
  | some format => exact formatTreats_iff htag hv
  | none =>
    dsimp only
    rw [packTreats_iff htag hv, unpackTreats_iff htag hv, hpos]
    constructor
    · rintro ⟨⟨size, hsize, hunwrapped⟩, size', hsize', hne⟩
      obtain rfl : size' = size := Except.ok.inj (hsize'.symm.trans hsize)
      exact ⟨size', hsize, hne, hunwrapped⟩
    · rintro ⟨size, hsize, hne, hunwrapped⟩
      exact ⟨⟨size, hsize, hunwrapped⟩, size, hsize, hne⟩

/-- `int a[1]` behind `int n`, with a Dimension tag `n`. -/
def countedArray : Declarator :=
  { memberAt "a" 4 4 4 with
    ext := .array [⟨1, false, false⟩], tags := { CtTagList.empty with dimension := some (.member "n") } }

/-- `struct { int n; int a[1]; }` -/
def countedStruct : Struct :=
  { structOf "" [declaration (.basic T_INT) [memberAt "n" 0 4 4],
      declaration (.basic T_INT) [countedArray]] with size := 8 }

theorem dimension_tag_iff_fixed :
    TagTreated slotPerl (cbc64 (singleHeap countedStruct)) 10 (.basic T_INT) countedArray (.fixed 3) []
        3 (pkCreate [] 0) (pkCreate [] 0) ↔
      TagFits countedArray (.fixed 3) 3 0 :=
  dimension_tag_iff slotPerl (cbc64 (singleHeap countedStruct)) 10 (.basic T_INT) countedArray
    (.fixed 3) [] 3 (pkCreate [] 0) (pkCreate [] 0) (by decide) rfl

/-- Packing `{ n => -3, a => [ 1 ] }` wants a buffer that ends 8 bytes before the end of
the memory. -/
theorem negative_dimension_grows :
    ∃ path, Event.grow path 18446744073709551608 ∈
        (finalState (pkPack slotPerl (cbc64 (singleHeap countedStruct)) 10 (.compound .struct 0) none 0
          (.hv [("n", newSViv (-3)), ("a", .av [some (newSViv 1)])])
          (pkCreate (List.replicate 8 0) 8))).trace ∧
      ¬ GrowsFor (-3) 4 4 18446744073709551608 := by
  refine ⟨[.declarator countedArray, .compound countedStruct], by decide +kernel, ?_⟩
  rintro ⟨hexact, _⟩
  exact absurd hexact (by decide)

end ConvertBinaryC
