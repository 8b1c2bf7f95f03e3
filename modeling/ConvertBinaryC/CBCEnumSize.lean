import ConvertBinaryC.CBCByteOrderTag
import ConvertBinaryC.CBCPackUpdate
import ConvertBinaryC.CTLibFetchStore
import ConvertBinaryC.CTLibParserOwnership

/-! The size and the sign of an enum. `enumspec_update` (`ctlib/cttype.c`) chooses them
from the values of the enumerators, and an enum is packed and unpacked with them. -/
namespace ConvertBinaryC
open StateRules

/-- The values of the integers of `n` bits. -/
def FitsInteger (sign : Bool) (n : ℕ) (v : ℤ) : Prop :=
  if sign then -2 ^ (n - 1) ≤ v ∧ v < 2 ^ (n - 1) else 0 ≤ v ∧ v < 2 ^ n

instance (sign : Bool) (n : ℕ) : DecidablePred (FitsInteger sign n) := fun _ => by
  unfold FitsInteger; infer_instance

/-- The values that fit are those that the reduction to `n` bits keeps. -/
theorem wrapInteger_eq_iff (sign : Bool) {n : ℕ} (hn : 0 < n) (v : ℤ) :
    wrapInteger sign n v = v ↔ FitsInteger sign n v := by
  have hpow : (2 : ℤ) ^ n = 2 * 2 ^ (n - 1) := by
    rw [← pow_succ', Nat.sub_add_cancel hn]
  have hpos : (0 : ℤ) < 2 ^ (n - 1) := by positivity
  unfold wrapInteger FitsInteger
  cases sign with
  | true =>
    rw [if_pos rfl, if_pos rfl]
    have hcast : ((2 ^ n : ℕ) : ℤ) = 2 * 2 ^ (n - 1) := by
      push_cast
      exact hpow
    have hlow := Int.le_bmod (x := v) (m := 2 ^ n) (by positivity)
    have hhigh := Int.bmod_lt (x := v) (m := 2 ^ n) (by positivity)
    rw [hcast] at hlow hhigh
    constructor
    · intro h
      rw [h] at hlow hhigh
      omega
    · intro h
      apply Int.bmod_eq_of_le_mul_two <;> rw [hcast] <;> omega
  | false =>
    rw [if_neg Bool.false_ne_true, if_neg Bool.false_ne_true]
    constructor
    · intro h
      rw [← h]
      exact ⟨Int.emod_nonneg _ (by positivity), Int.emod_lt_of_pos _ (by positivity)⟩
    · intro h
      exact Int.emod_eq_of_lt h.1 h.2

/-- The least and the greatest value that `enumspec_update` finds, both starting at 0. -/
def enumRange (es : List Enumerator) (r : ℤ × ℤ) : ℤ × ℤ :=
  es.foldl (fun (r : ℤ × ℤ) e =>
    if e.value.iv > r.2 then (r.1, e.value.iv)
    else if e.value.iv < r.1 then (e.value.iv, r.2) else r) r

/-- The range is attained: an end is where it started or the value of an enumerator. -/
structure RangeOf (es : List Enumerator) (start range : ℤ × ℤ) : Prop where
  min_le : range.1 ≤ start.1
  le_max : start.2 ≤ range.2
  between : ∀ e ∈ es, range.1 ≤ e.value.iv ∧ e.value.iv ≤ range.2
  min_mem : range.1 = start.1 ∨ ∃ e ∈ es, e.value.iv = range.1
  max_mem : range.2 = start.2 ∨ ∃ e ∈ es, e.value.iv = range.2

theorem enumRange_rangeOf (es : List Enumerator) {start : ℤ × ℤ} (hstart : start.1 ≤ start.2) :
    RangeOf es start (enumRange es start) := by
  induction es generalizing start with
  | nil => exact ⟨le_rfl, le_rfl, fun e he => (List.not_mem_nil he).elim, .inl rfl, .inl rfl⟩
  | cons e es ih =>
    -- one value moves at most one end of the range
    have hstep : ∀ next : ℤ × ℤ, next.1 ≤ next.2 → enumRange (e :: es) start = enumRange es next →
        next.1 ≤ start.1 → start.2 ≤ next.2 → next.1 ≤ e.value.iv → e.value.iv ≤ next.2 →
        (next.1 = start.1 ∨ next.1 = e.value.iv) → (next.2 = start.2 ∨ next.2 = e.value.iv) →
        RangeOf (e :: es) start (enumRange (e :: es) start) := by
      intro next hnext heq hmin hmax hlow hhigh hleft hright
      have hrest := ih hnext
      rw [heq]
      refine ⟨hrest.min_le.trans hmin, hmax.trans hrest.le_max, ?_, ?_, ?_⟩
      · intro e' he'
        rcases List.mem_cons.mp he' with rfl | he'
        · exact ⟨hrest.min_le.trans hlow, hhigh.trans hrest.le_max⟩
        · exact hrest.between e' he'
      · rcases hrest.min_mem with hmem | ⟨e', he', hmem⟩
        · rcases hleft with hleft | hleft
          · exact .inl (hmem.trans hleft)
          · exact .inr ⟨e, List.mem_cons_self, (hmem.trans hleft).symm⟩
        · exact .inr ⟨e', List.mem_cons_of_mem _ he', hmem⟩
      · rcases hrest.max_mem with hmem | ⟨e', he', hmem⟩
        · rcases hright with hright | hright
          · exact .inl (hmem.trans hright)
          · exact .inr ⟨e, List.mem_cons_self, (hmem.trans hright).symm⟩
        · exact .inr ⟨e', List.mem_cons_of_mem _ he', hmem⟩
    by_cases habove : e.value.iv > start.2
    · have heq : enumRange (e :: es) start = enumRange es (start.1, e.value.iv) := by
        unfold enumRange
        rw [List.foldl_cons, if_pos habove]
      have hlow : start.1 ≤ e.value.iv := by omega
      exact hstep (start.1, e.value.iv) hlow heq le_rfl habove.le hlow le_rfl (.inl rfl) (.inr rfl)
    · by_cases hbelow : e.value.iv < start.1
      · have heq : enumRange (e :: es) start = enumRange es (e.value.iv, start.2) := by
          unfold enumRange
          rw [List.foldl_cons, if_neg habove, if_pos hbelow]
        have hhigh : e.value.iv ≤ start.2 := not_lt.mp habove
        exact hstep (e.value.iv, start.2) hhigh heq hbelow.le le_rfl le_rfl hhigh (.inr rfl)
          (.inl rfl)
      · have heq : enumRange (e :: es) start = enumRange es start := by
          unfold enumRange
          rw [List.foldl_cons, if_neg habove, if_neg hbelow]
        exact hstep start hstart heq le_rfl le_rfl (not_lt.mp hbelow) (not_lt.mp habove) (.inl rfl)
          (.inl rfl)

/-- What `enumspec_update` records, by the range of the values. -/
theorem enumspecUpdate_records (spec : EnumSpecifier) (es : List Enumerator) :
    ∃ lo hi, RangeOf es (0, 0) (lo, hi) ∧
      (enumspecUpdate spec es).signed = decide (lo < 0) ∧
      (lo < 0 →
        (enumspecUpdate spec es).unsignedSize =
          enumSize (-128 ≤ lo && hi < 128) (-32768 ≤ lo && hi < 32768) ∧
        (enumspecUpdate spec es).signedSize =
          enumSize (-128 ≤ lo && hi < 128) (-32768 ≤ lo && hi < 32768)) ∧
      (0 ≤ lo →
        (enumspecUpdate spec es).unsignedSize = enumSize (hi < 256) (hi < 65536) ∧
        (enumspecUpdate spec es).signedSize = enumSize (hi < 128) (hi < 32768)) := by
  refine ⟨(enumRange es (0, 0)).1, (enumRange es (0, 0)).2, enumRange_rangeOf es le_rfl, ?_⟩
  have hupdate : enumspecUpdate spec es =
      if (enumRange es (0, 0)).1 < 0 then _ else _ := rfl
  rw [hupdate]
  by_cases hneg : (enumRange es (0, 0)).1 < 0
  · rw [if_pos hneg]
    exact ⟨(decide_eq_true hneg).symm, fun _ => ⟨rfl, rfl⟩, fun h => absurd h (not_le.mpr hneg)⟩
  · rw [if_neg hneg]
    exact ⟨(decide_eq_false hneg).symm, fun h => absurd h hneg, fun _ => ⟨rfl, rfl⟩⟩

/-- `EnumSize` is 0 or -1: the size depends on the values. -/
def FlexibleEnums (pLP : LayoutParam) : Prop := pLP.enum_size = 0 ∨ pLP.enum_size = -1

theorem enumSize_cases (fits8 fits16 : Bool) :
    (fits8 = true ∧ enumSize fits8 fits16 = 1) ∨ (fits16 = true ∧ enumSize fits8 fits16 = 2) ∨
      enumSize fits8 fits16 = 4 := by
  unfold enumSize
  cases fits8 with
  | true => exact .inl ⟨rfl, rfl⟩
  | false =>
    cases fits16 with
    | true => exact .inr (.inl ⟨rfl, rfl⟩)
    | false => exact .inr (.inr rfl)

theorem enumTypeSize_flexible {pLP : LayoutParam} (hflexible : FlexibleEnums pLP)
    (pES : EnumSpecifier) :
    enumTypeSize pLP pES = pES.unsignedSize ∨ enumTypeSize pLP pES = pES.signedSize := by
  unfold enumTypeSize
  rcases hflexible with h | h
  · left
    rw [h, if_neg (by decide), if_pos rfl]
  · right
    rw [h, if_neg (by decide), if_neg (by decide)]

/-- The values that four bytes hold, with the sign that the list asks for. -/
def EnumRange (es : List Enumerator) : Prop :=
  (∀ e ∈ es, 0 ≤ e.value.iv ∧ e.value.iv < 4294967296) ∨ ∀ e ∈ es, IsInt e.value.iv

section Size
variable {pLP : LayoutParam} (spec : EnumSpecifier) (es : List Enumerator)

/-- With a negative value both sizes are the smallest that holds the range with a sign,
without one the smallest that holds the greatest value. -/
theorem enumspecUpdate_chosen (hflexible : FlexibleEnums pLP) :
    ∃ lo hi fits8 fits16, RangeOf es (0, 0) (lo, hi) ∧
      (enumspecUpdate spec es).signed = decide (lo < 0) ∧
      enumTypeSize pLP (enumspecUpdate spec es) = enumSize fits8 fits16 ∧
      (lo < 0 → fits8 = (-128 ≤ lo && hi < 128) ∧ fits16 = (-32768 ≤ lo && hi < 32768)) ∧
      (fits8 = true → hi < 256) ∧ (fits16 = true → hi < 65536) := by
  obtain ⟨lo, hi, hrange, hsign, hneg, hnonneg⟩ := enumspecUpdate_records spec es
  have hsizes := enumTypeSize_flexible hflexible (enumspecUpdate spec es)
  rcases lt_or_ge lo 0 with hlo | hlo
  · obtain ⟨hunsigned, hsigned⟩ := hneg hlo
    rw [hunsigned, hsigned, or_self] at hsizes
    refine ⟨lo, hi, _, _, hrange, hsign, hsizes, fun _ => ⟨rfl, rfl⟩, ?_, ?_⟩
    · intro h
      have hhi := of_decide_eq_true (Bool.and_eq_true_iff.mp h).2
      omega
    · intro h
      have hhi := of_decide_eq_true (Bool.and_eq_true_iff.mp h).2
      omega
  · obtain ⟨hunsigned, hsigned⟩ := hnonneg hlo
    rw [hunsigned, hsigned] at hsizes
    rcases hsizes with hsize | hsize
    · exact ⟨lo, hi, _, _, hrange, hsign, hsize, fun h => absurd h (not_lt.mpr hlo),
        of_decide_eq_true, of_decide_eq_true⟩
    · refine ⟨lo, hi, _, _, hrange, hsign, hsize, fun h => absurd h (not_lt.mpr hlo), ?_, ?_⟩
      · intro h
        have hhi := of_decide_eq_true h
        omega
      · intro h
        have hhi := of_decide_eq_true h
        omega

/-- The size is one that the switches of the integer functions know, and at most four. -/
theorem enumspecUpdate_size (hflexible : FlexibleEnums pLP) :
    enumTypeSize pLP (enumspecUpdate spec es) = 1 ∨ enumTypeSize pLP (enumspecUpdate spec es) = 2 ∨
      enumTypeSize pLP (enumspecUpdate spec es) = 4 := by
  obtain ⟨lo, hi, fits8, fits16, _, _, hsize, _⟩ := enumspecUpdate_chosen spec es hflexible
  rw [hsize]
  rcases enumSize_cases fits8 fits16 with ⟨_, h⟩ | ⟨_, h⟩ | h
  · exact .inl h
  · exact .inr (.inl h)
  · exact .inr (.inr h)

theorem fits_signed_iff (v : ℤ) :
    (FitsInteger true (8 * (1 : ℤ).toNat) v ↔ -128 ≤ v ∧ v < 128) ∧
      (FitsInteger true (8 * (2 : ℤ).toNat) v ↔ -32768 ≤ v ∧ v < 32768) ∧
      (FitsInteger true (8 * (4 : ℤ).toNat) v ↔ -2147483648 ≤ v ∧ v < 2147483648) :=
  ⟨Iff.rfl, Iff.rfl, Iff.rfl⟩

theorem fits_unsigned_iff (v : ℤ) :
    (FitsInteger false (8 * (1 : ℤ).toNat) v ↔ 0 ≤ v ∧ v < 256) ∧
      (FitsInteger false (8 * (2 : ℤ).toNat) v ↔ 0 ≤ v ∧ v < 65536) ∧
      (FitsInteger false (8 * (4 : ℤ).toNat) v ↔ 0 ≤ v ∧ v < 4294967296) :=
  ⟨Iff.rfl, Iff.rfl, Iff.rfl⟩

/-- The recorded size and sign hold all values exactly when four bytes do. -/
theorem enumspecUpdate_fits_iff (hflexible : FlexibleEnums pLP) :
    (∀ e ∈ es, FitsInteger (enumspecUpdate spec es).signed
      (8 * (enumTypeSize pLP (enumspecUpdate spec es)).toNat) e.value.iv) ↔ EnumRange es := by
  obtain ⟨lo, hi, fits8, fits16, hrange, hsign, hsize, hneg, hfits8, hfits16⟩ :=
    enumspecUpdate_chosen spec es hflexible
  rw [hsign, hsize]
  have hcases := enumSize_cases fits8 fits16
  rcases lt_or_ge lo 0 with hlo | hlo
  · obtain ⟨rfl, rfl⟩ := hneg hlo
    rw [decide_eq_true hlo]
    constructor
    · intro hfits
      right
      intro e he
      have hfit := hfits e he
      unfold IsInt
      rcases hcases with ⟨_, h⟩ | ⟨_, h⟩ | h
      · rw [h, (fits_signed_iff _).1] at hfit
        omega
      · rw [h, (fits_signed_iff _).2.1] at hfit
        omega
      · rw [h, (fits_signed_iff _).2.2] at hfit
        omega
    · intro hall e he
      have hbetween := hrange.between e he
      -- a list with a negative value is not in the unsigned range
      have hint : IsInt e.value.iv := by
        rcases hall with hall | hall
        · rcases hrange.min_mem with hmem | ⟨e', he', hmem⟩
          · exact absurd hmem hlo.ne
          · have hnonneg := (hall e' he').1
            rw [hmem] at hnonneg
            exact absurd hnonneg (not_le.mpr hlo)
        · exact hall e he
      rcases hcases with ⟨hfit, h⟩ | ⟨hfit, h⟩ | h
      · have hends := Bool.and_eq_true_iff.mp hfit
        have hlow := of_decide_eq_true hends.1
        have hhigh := of_decide_eq_true hends.2
        rw [h, (fits_signed_iff _).1]
        exact ⟨hlow.trans hbetween.1, hbetween.2.trans_lt hhigh⟩
      · have hends := Bool.and_eq_true_iff.mp hfit
        have hlow := of_decide_eq_true hends.1
        have hhigh := of_decide_eq_true hends.2
        rw [h, (fits_signed_iff _).2.1]
        exact ⟨hlow.trans hbetween.1, hbetween.2.trans_lt hhigh⟩
      · rw [h, (fits_signed_iff _).2.2]
        exact hint
  · rw [decide_eq_false (not_lt.mpr hlo)]
    constructor
    · intro hfits
      left
      intro e he
      have hfit := hfits e he
      rcases hcases with ⟨_, h⟩ | ⟨_, h⟩ | h
      · rw [h, (fits_unsigned_iff _).1] at hfit
        omega
      · rw [h, (fits_unsigned_iff _).2.1] at hfit
        omega
      · rwa [h, (fits_unsigned_iff _).2.2] at hfit
    · intro hall e he
      have hbetween := hrange.between e he
      have hnonneg : 0 ≤ e.value.iv := hlo.trans hbetween.1
      rcases hcases with ⟨hfit, h⟩ | ⟨hfit, h⟩ | h
      · rw [h, (fits_unsigned_iff _).1]
        exact ⟨hnonneg, hbetween.2.trans_lt (hfits8 hfit)⟩
      · rw [h, (fits_unsigned_iff _).2.1]
        exact ⟨hnonneg, hbetween.2.trans_lt (hfits16 hfit)⟩
      · rw [h, (fits_unsigned_iff _).2.2]
        refine ⟨hnonneg, ?_⟩
        rcases hall with hall | hall
        · exact (hall e he).2
        · exact (hall e he).2.trans (by decide)

end Size

/-- A handle that has room at its position, in its buffer or in the memory. -/
structure HasRoom (perl : Perl) (size : ℤ) (st : PackInfo) : Prop where
  pos_nonneg : 0 ≤ st.pos
  below_word : st.pos + size < 18446744073709551615
  room : st.pos + size ≤ st.length ∨ st.pos + size < perl.memory

section RoundTrip
variable {perl : Perl} {cbc : CBC}

theorem HasRoom.required {size : ℕ} {st : PackInfo} (h : HasRoom perl size st) :
    u64 (st.pos + size) = st.pos + size := by
  have hpos := h.pos_nonneg
  have hword := h.below_word
  exact Int.emod_eq_of_lt (by omega) (by omega)

/-- The buffer grows where there is room, and it is long enough then. -/
theorem growBuffer_room {size : ℕ} {st : PackInfo} (h : HasRoom perl size st) :
    ∃ t, growBuffer perl size st = .ok ⟨⟩ t ∧ t.pos = st.pos ∧ t.order = st.order ∧
      t.path = st.path ∧ st.pos + size ≤ t.length := by
  have hgrow : growBuffer perl size st =
      (if u64 (st.pos + size) > st.length then
        if u64 (st.pos + size) + 1 = 18446744073709551616 then throw .undefinedBehaviour
        else if u64 (st.pos + size) + 1 > perl.memory then throw (.fatal "Out of memory!")
        else modify fun st' => { st' with
          buffer := fun i => if st'.length ≤ i ∧ (i : ℤ) ≤ u64 (st.pos + size) then 0
            else st'.buffer i
          cur := u64 (st.pos + size)
          length := u64 (st.pos + size) }
      else pure () : Pk Unit) (st.emit (.grow st.path (u64 (st.pos + size)))) := rfl
  rw [hgrow, h.required]
  have hword := h.below_word
  by_cases hlong : st.pos + size > st.length
  · have hmemory : ¬ st.pos + size + 1 > perl.memory := by
      rcases h.room with hroom | hroom
      · exact absurd hroom (not_le.mpr hlong)
      · omega
    rw [if_pos hlong, if_neg (by omega), if_neg hmemory]
    exact ⟨_, rfl, rfl, rfl, rfl, le_rfl⟩
  · rw [if_neg hlong]
    exact ⟨_, rfl, rfl, rfl, rfl, not_lt.mp hlong⟩

/-- A fetched word of at most four bytes has the same value with and without a sign bit. -/
theorem IntValue.toInt_of_small {iv : IntValue} {sign : Bool} (hsign : iv.sign = sign) {size : ℕ}
    (hsmall : size ≤ 4) {v : ℤ} (hvalue : iv.toInt = wrapInteger sign (8 * size) v) :
    iv.value.toInt = wrapInteger sign (8 * size) v := by
  rw [← hvalue]
  unfold IntValue.toInt
  rw [hsign]
  cases sign with
  | true => rw [if_pos rfl]
  | false =>
    rw [if_neg Bool.false_ne_true]
    have hnat : (iv.value.toNat : ℤ) = v % 2 ^ (8 * size) := by
      rw [IntValue.toInt, hsign, if_neg Bool.false_ne_true] at hvalue
      rw [hvalue, wrapInteger, if_neg Bool.false_ne_true]
    have hbound : (iv.value.toNat : ℤ) < 2 ^ 32 := by
      rw [hnat]
      calc v % 2 ^ (8 * size) < 2 ^ (8 * size) := Int.emod_lt_of_pos _ (by positivity)
        _ ≤ 2 ^ 32 := pow_le_pow_right₀ (by norm_num) (by omega)
    apply BitVec.toInt_eq_toNat_of_lt
    omega

/-- Storing an integer in a buffer that is long enough, and fetching it again. -/
theorem storeInt_fetchInt (cbc : CBC) {size : ℕ} (hsize : IntegerSize size) (v : ℤ) (sign sign' : Bool)
    {st : PackInfo} (hlength : st.pos + size ≤ st.length) :
    ∃ buffer, storeInt cbc size none ⟨BitVec.ofInt 64 v, sign', none⟩ st =
        .ok ⟨⟩ { st.emit (.access st.path false st.order st.pos size) with buffer := buffer } ∧
      ∀ s : PackInfo, s.buffer = buffer → s.pos = st.pos → s.order = st.order →
        s.pos + size ≤ s.length →
        ∃ iv, fetchInt cbc size sign none s =
            .ok iv (s.emit (.access s.path false s.order s.pos size)) ∧
          iv.sign = sign ∧ iv.toInt = wrapInteger sign (8 * size) v := by
  obtain ⟨buffer, hstore, -⟩ := storeInteger_window size 0 0 hsize (Nat.zero_le _) st.order
    st.buffer st.pos.toNat ⟨BitVec.ofInt 64 v, sign', none⟩
  refine ⟨buffer, ?_, ?_⟩
  · have hrun : storeInt cbc size none ⟨BitVec.ofInt 64 v, sign', none⟩ st =
        (if st.pos + size > st.length then throw .undefinedBehaviour
        else do
          let buffer ← liftCall (storeInteger size 0 0 st.order st.buffer st.pos.toNat
            ⟨BitVec.ofInt 64 v, sign', none⟩)
          modify fun st => { st with buffer := buffer } : Pk Unit)
          (st.emit (.access st.path false st.order st.pos size)) := rfl
    rw [hrun, if_neg (not_lt.mpr hlength), hstore]
    rfl
  · intro s hbuffer hpos horder hroom
    obtain ⟨iv, hfetch, hsign, hvalue⟩ := fetchInteger_of_storeInteger size 0 0 hsize
      (Nat.zero_le _) st.order st.buffer buffer st.pos.toNat sign sign' v ⟨0, sign, none⟩ rfl hstore
    have hrun : fetchInt cbc size sign none s =
        (if s.pos + size > s.length then throw .undefinedBehaviour
        else if IntegerSize size then
          liftCall (fetchInteger size sign 0 0 s.order s.buffer s.pos.toNat ⟨0, sign, none⟩)
        else throw .undefinedBehaviour : Pk IntValue)
          (s.emit (.access s.path false s.order s.pos size)) := rfl
    rw [hrun, if_neg (not_lt.mpr hroom), if_pos hsize, hbuffer, hpos, horder, hfetch]
    exact ⟨iv, rfl, hsign, hvalue⟩

/-- Where an integer can be fetched from with a given value, in the byte order of the
tags and at a position. -/
def Fetches (cbc : CBC) (size : ℕ) (sign : Bool) (v : ℤ) (s : PackInfo) : Prop :=
  ∃ iv t, fetchInt cbc size sign none s = .ok iv t ∧ iv.value.toInt = v

theorem packEnum_stores {pES : EnumSpecifier} (hhooks : pES.tags.hooks = none)
    (hformat : pES.tags.format = none) {size : ℕ} (hpES : packEnumSize cbc pES none = size)
    (hsize : IntegerSize size) (hsmall : size ≤ 4) (s : Scalar) {st : PackInfo}
    (hroom : HasRoom perl size st) :
    ∃ t, packEnum perl cbc pES none (.scalar s) st = .ok ⟨⟩ t ∧ t.order = st.order ∧
      st.pos + size ≤ t.length ∧
      Fetches cbc size pES.signed (wrapInteger pES.signed (8 * size) (enumValue perl cbc s))
        (({ t with pos := st.pos }.tagged pES.tags).enter (.enum pES)) := by
  -- the handle inside of the enum has the same room
  have hinner : HasRoom perl size ((st.tagged pES.tags).enter (.enum pES)) :=
    ⟨hroom.pos_nonneg, hroom.below_word, hroom.room⟩
  obtain ⟨t, hgrow, hpos, horder, hpath, hlength⟩ := growBuffer_room hinner
  have hlong : t.pos + size ≤ t.length := hpos ▸ hlength
  obtain ⟨buffer, hstore, hfetch⟩ := storeInt_fetchInt cbc hsize (enumValue perl cbc s) pES.signed
    (decide (enumValue perl cbc s < 0)) hlong
  have hbody : (growBuffer perl size >>= fun _ => storeInt cbc size none
      ⟨BitVec.ofInt 64 (enumValue perl cbc s), decide (enumValue perl cbc s < 0), none⟩)
      ((st.tagged pES.tags).enter (.enum pES)) = .ok ⟨⟩
        { t.emit (.access t.path false t.order t.pos size) with buffer := buffer } := by
    rw [bind_of_ok hgrow, hstore]
  have hstored : st.pos + size ≤ t.length := hlength
  refine ⟨{ { t.emit (.access t.path false t.order t.pos size) with
    buffer := buffer }.leave with order := st.order }, ?_, rfl, ?_, ?_⟩
  · unfold packEnum
    rw [hhooks, hformat, hpES]
    exact inScope_ok hbody
  · exact hstored
  · -- the same tags give the same byte order again
    obtain ⟨iv, hiv, hsign, hvalue⟩ := hfetch
      (({ { t.emit (.access t.path false t.order t.pos size) with
        buffer := buffer }.leave with order := st.order, pos := st.pos }.tagged pES.tags).enter
          (.enum pES)) rfl hpos.symm horder.symm hlength
    exact ⟨iv, _, hiv, IntValue.toInt_of_small hsign hsmall hvalue⟩

theorem unpackEnum_reads {pES : EnumSpecifier} (hhooks : pES.tags.hooks = none)
    (hformat : pES.tags.format = none) {size : ℕ} (hpES : packEnumSize cbc pES none = size)
    {s : PackInfo} (hlength : u64 (s.pos + size) ≤ s.length) {v : ℤ}
    (hfetch : Fetches cbc size pES.signed v ((s.tagged pES.tags).enter (.enum pES))) :
    ∃ u, unpackEnum perl cbc pES none s = .ok (enumSv cbc pES v) u := by
  obtain ⟨iv, t, hiv, rfl⟩ := hfetch
  have hcheck : checkBuffer size (s.tagged pES.tags) = .ok false (s.tagged pES.tags) := by
    show (if u64 (s.pos + size) > s.length then _ else _ : Pk Bool) _ = _
    rw [if_neg (not_lt.mpr hlength)]
    rfl
  unfold unpackEnum
  rw [hhooks, hformat, hpES]
  dsimp only
  rw [bind_of_ok (show byteOrder s = .ok s.order s from rfl),
    bind_of_ok (show setByteOrder pES.tags s = .ok () (s.tagged pES.tags) from rfl),
    bind_of_ok hcheck, if_neg Bool.false_ne_true, bind_of_ok (within_ok hiv)]
  exact ⟨_, rfl⟩

/-- What `pack_enum` stores, `unpack_enum` reads, reduced to the size of the enum. -/
theorem packEnum_unpackEnum {pES : EnumSpecifier} (hhooks : pES.tags.hooks = none)
    (hformat : pES.tags.format = none) {size : ℕ} (hpES : packEnumSize cbc pES none = size)
    (hsize : IntegerSize size) (hsmall : size ≤ 4) (s : Scalar) {st : PackInfo}
    (hroom : HasRoom perl size st) :
    ∃ t u, packEnum perl cbc pES none (.scalar s) st = .ok ⟨⟩ t ∧
      unpackEnum perl cbc pES none { t with pos := st.pos } =
        .ok (enumSv cbc pES (wrapInteger pES.signed (8 * size) (enumValue perl cbc s))) u := by
  obtain ⟨t, hpack, horder, hlength, hfetch⟩ :=
    packEnum_stores hhooks hformat hpES hsize hsmall s hroom
  have hcheck : u64 (st.pos + size) ≤ t.length := by
    rw [hroom.required]
    exact hlength
  obtain ⟨u, hunpack⟩ : ∃ u, unpackEnum perl cbc pES none { t with pos := st.pos } = .ok _ u :=
    unpackEnum_reads hhooks hformat hpES hcheck hfetch
  exact ⟨t, u, hpack, hunpack⟩

end RoundTrip

/-- What an enumerator is unpacked to: its value, a name that stands for its value, or
both in one scalar. -/
def ReadsAs (enumType : EnumType) (es : List Enumerator) (value : ℤ) (sv : SV) : Prop :=
  match enumType with
  | .integer => sv = newSViv value
  | .string => ∃ e ∈ es, e.value.iv = value ∧ sv = newSVpvn (textBytes e.identifier)
  | .both => ∃ e ∈ es, e.value.iv = value ∧
      sv = .scalar ⟨some value, none, some (textBytes e.identifier)⟩

/-- Wherever there is room, what is packed from a scalar unpacks to a good one. -/
def RoundTrips (perl : Perl) (cbc : CBC) (pES : EnumSpecifier) (sv : SV) (good : SV → Prop) : Prop :=
  ∀ st, HasRoom perl (packEnumSize cbc pES none) st →
    ∃ t sv' u, packEnum perl cbc pES none sv st = .ok ⟨⟩ t ∧
      unpackEnum perl cbc pES none { t with pos := st.pos } = .ok sv' u ∧ good sv'

/-- The size and the sign of an enum are adequate for its enumerators. -/
structure EnumAdequate (perl : Perl) (cbc : CBC) (pES : EnumSpecifier) (es : List Enumerator) :
    Prop where
  represented : ∀ e ∈ es,
    FitsInteger pES.signed (8 * (packEnumSize cbc pES none).toNat) e.value.iv
  by_value : ∀ e ∈ es, ∀ enumType, RoundTrips perl { cbc with enumType := enumType } pES
    (newSViv e.value.iv) (ReadsAs enumType es e.value.iv)
  by_name : ∀ e ∈ es, ∀ enumType, RoundTrips perl { cbc with enumType := enumType } pES
    (newSVpvn (textBytes e.identifier)) (ReadsAs enumType es e.value.iv)

/-- In the table of names, which all enums share, the name of each enumerator stands for
its value, or for one that is the same in an integer of `n` bits. -/
def NamesKept (cbc : CBC) (n : ℕ) (es : List Enumerator) : Prop :=
  ∀ e ∈ es, ∀ e', cbc.htEnumerators (textBytes e.identifier) = some e' →
    e'.value.iv ≡ e.value.iv [ZMOD 2 ^ n]

theorem wrapInteger_eq_wrapInteger_iff (sign : Bool) (n : ℕ) (a b : ℤ) :
    wrapInteger sign n a = wrapInteger sign n b ↔ a ≡ b [ZMOD 2 ^ n] := by
  unfold wrapInteger Int.ModEq
  cases sign with
  | true =>
    rw [if_pos rfl, if_pos rfl]
    have hcast : ((2 ^ n : ℕ) : ℤ) = 2 ^ n := by norm_cast
    rw [← hcast]
    constructor
    · intro h
      rw [← Int.bmod_emod (x := a), ← Int.bmod_emod (x := b), h]
    · intro h
      rw [← Int.emod_bmod (x := a), ← Int.emod_bmod (x := b), h]
  | false => rw [if_neg Bool.false_ne_true, if_neg Bool.false_ne_true]

section Adequate
variable {perl : Perl} {cbc : CBC}

/-- A value of the list reads as one. -/
theorem enumSv_readsAs (cbc : CBC) {pES : EnumSpecifier} {es : List Enumerator}
    (hes : pES.enumerators = some es) {e : Enumerator} (he : e ∈ es) :
    ReadsAs cbc.enumType es e.value.iv (enumSv cbc pES e.value.iv) := by
  unfold enumSv
  rw [hes, Option.getD_some]
  cases hfind : es.find? fun pEnum => pEnum.value.iv = e.value.iv with
  | none =>
    have hnone := List.find?_eq_none.mp hfind e he
    exact absurd (decide_eq_true rfl) hnone
  | some pEnum =>
    have hmem := List.mem_of_find?_eq_some hfind
    have hfound := List.find?_some hfind
    have hvalue : pEnum.value.iv = e.value.iv := of_decide_eq_true hfound
    cases cbc.enumType with
    | integer => rfl
    | string => exact ⟨pEnum, hmem, hvalue, rfl⟩
    | both => exact ⟨pEnum, hmem, hvalue, rfl⟩

theorem enumValue_of_name {enumType : EnumType} {name : List Byte} {pEnum : Enumerator}
    (hlookup : cbc.htEnumerators name = some pEnum) :
    enumValue perl { cbc with enumType := enumType } ⟨none, none, some name⟩ = pEnum.value.iv := by
  unfold enumValue
  dsimp only
  rw [Option.bind_some, hlookup]

variable (perl cbc) in
/-- Packing and unpacking an enum without hooks and formats is a round trip for what
`enumValue` finds, reduced to the size of the enum. -/
theorem enum_round_trip {pES : EnumSpecifier} (hhooks : pES.tags.hooks = none)
    (hformat : pES.tags.format = none) {size : ℕ} (hpES : packEnumSize cbc pES none = size)
    (hsize : size = 1 ∨ size = 2 ∨ size = 4) (s : Scalar) :
    RoundTrips perl cbc pES (.scalar s) fun sv =>
      sv = enumSv cbc pES (wrapInteger pES.signed (8 * size) (enumValue perl cbc s)) := by
  intro st hroom
  rw [hpES] at hroom
  have hinteger : IntegerSize size := by
    unfold IntegerSize
    omega
  obtain ⟨t, u, hpack, hunpack⟩ := packEnum_unpackEnum hhooks hformat hpES hinteger (by omega) s
    hroom
  exact ⟨t, _, u, hpack, hunpack, rfl⟩

theorem RoundTrips.mono {pES : EnumSpecifier} {sv : SV} {good good' : SV → Prop}
    (h : RoundTrips perl cbc pES sv good) (hgood : ∀ sv', good sv' → good' sv') :
    RoundTrips perl cbc pES sv good' := by
  intro st hroom
  obtain ⟨t, sv', u, hpack, hunpack, hsv'⟩ := h st hroom
  exact ⟨t, sv', u, hpack, hunpack, hgood sv' hsv'⟩

/-- A round trip has one result only. -/
theorem RoundTrips.exists_both {pES : EnumSpecifier} {sv : SV} {good good' : SV → Prop}
    (h : RoundTrips perl cbc pES sv good) (h' : RoundTrips perl cbc pES sv good')
    (hsize : 0 ≤ packEnumSize cbc pES none ∧ packEnumSize cbc pES none ≤ 4) :
    ∃ sv', good sv' ∧ good' sv' := by
  have hroom : HasRoom perl (packEnumSize cbc pES none) (pkCreate (List.replicate 4 0) 4) := by
    refine ⟨le_rfl, ?_, .inl ?_⟩
    · show 0 + packEnumSize cbc pES none < _
      omega
    · show 0 + packEnumSize cbc pES none ≤ 4
      omega
  obtain ⟨t, sv', u, hpack, hunpack, hsv⟩ := h _ hroom
  obtain ⟨t', sv'', u', hpack', hunpack', hsv'⟩ := h' _ hroom
  rw [hpack] at hpack'
  cases hpack'
  rw [hunpack] at hunpack'
  cases hunpack'
  exact ⟨sv', hsv, hsv'⟩

end Adequate

theorem enumspecUpdate_tags (spec : EnumSpecifier) (es : List Enumerator) :
    (enumspecUpdate spec es).tags = spec.tags := by
  unfold enumspecUpdate
  dsimp only
  split <;> rfl

theorem EnumRange.long {es : List Enumerator} (h : EnumRange es) {e : Enumerator} (he : e ∈ es) :
    i64 e.value.iv = e.value.iv := by
  have hlong : IsLong e.value.iv := by
    unfold IsLong
    rcases h with h | h
    · have hvalue := h e he
      omega
    · have hvalue := h e he
      unfold IsInt at hvalue
      omega
  exact i64_of_isLong hlong

/-- The size and the sign that `enumspec_update` records are adequate exactly when all
values fit into four bytes, with a sign or without one, and the names stand for them. -/
theorem enum_adequate_iff {cbc : CBC} (hflexible : FlexibleEnums cbc.pLP) (perl : Perl)
    {spec : EnumSpecifier} (hhooks : spec.tags.hooks = none) (hformat : spec.tags.format = none)
    {es : List Enumerator}
    (hnamed : ∀ e ∈ es, ∃ e', cbc.htEnumerators (textBytes e.identifier) = some e') :
    EnumAdequate perl cbc (enumspecUpdate spec es) es ↔
      EnumRange es ∧
        NamesKept cbc (8 * (enumTypeSize cbc.pLP (enumspecUpdate spec es)).toNat) es := by
  have htags := enumspecUpdate_tags spec es
  have hes : (enumspecUpdate spec es).enumerators = some es := enumspecUpdate_enumerators spec es
  have hrange := enumspecUpdate_fits_iff spec es hflexible
  have hsizes := enumspecUpdate_size spec es hflexible
  rw [← htags] at hhooks hformat
  generalize enumspecUpdate spec es = pES at *
  obtain ⟨size, hsize⟩ : ∃ size : ℕ, enumTypeSize cbc.pLP pES = size :=
    Int.eq_ofNat_of_zero_le (by omega)
  rw [hsize, Int.toNat_natCast] at hrange ⊢
  have hbytes : size = 1 ∨ size = 2 ∨ size = 4 := by omega
  have hpES : ∀ enumType, packEnumSize { cbc with enumType := enumType } pES none = size :=
    fun _ => hsize
  have hcbc : packEnumSize cbc pES none = size := hsize
  have hwrap : ∀ v, FitsInteger pES.signed (8 * size) v ↔ wrapInteger pES.signed (8 * size) v = v :=
    fun v => (wrapInteger_eq_iff pES.signed (by omega) v).symm
  constructor
  · intro hadequate
    have hfits := hadequate.represented
    rw [hcbc, Int.toNat_natCast] at hfits
    refine ⟨hrange.mp hfits, ?_⟩
    intro e he e' hlookup
    -- with `EnumType` Integer the result is the value that was stored
    have htrip := enum_round_trip perl { cbc with enumType := .integer } hhooks hformat (hpES _)
      hbytes ⟨none, none, some (textBytes e.identifier)⟩
    obtain ⟨sv, hreads, hstored⟩ := (hadequate.by_name e he .integer).exists_both htrip
      (by rw [hpES]; omega)
    rw [enumValue_of_name hlookup] at hstored
    have hequal : newSViv e.value.iv = newSViv (wrapInteger pES.signed (8 * size) e'.value.iv) :=
      hreads.symm.trans hstored
    have hiv : e.value.iv = wrapInteger pES.signed (8 * size) e'.value.iv := by
      simpa [newSViv] using hequal
    rw [← wrapInteger_eq_wrapInteger_iff pES.signed, ← hiv]
    exact ((hwrap e.value.iv).mp (hfits e he)).symm
  · rintro ⟨hin, hnames⟩
    have hfits := hrange.mpr hin
    refine ⟨?_, ?_, ?_⟩
    · rw [hcbc, Int.toNat_natCast]
      exact hfits
    · intro e he enumType
      have htrip := enum_round_trip perl { cbc with enumType := enumType } hhooks hformat (hpES _)
        hbytes ⟨some e.value.iv, none, none⟩
      apply htrip.mono
      rintro sv rfl
      have hvalue : enumValue perl { cbc with enumType := enumType } ⟨some e.value.iv, none, none⟩ =
          e.value.iv := hin.long he
      rw [hvalue, (hwrap e.value.iv).mp (hfits e he)]
      exact enumSv_readsAs { cbc with enumType := enumType } hes he
    · intro e he enumType
      have htrip := enum_round_trip perl { cbc with enumType := enumType } hhooks hformat (hpES _)
        hbytes ⟨none, none, some (textBytes e.identifier)⟩
      apply htrip.mono
      rintro sv rfl
      obtain ⟨e', hlookup⟩ := hnamed e he
      have hsame := (wrapInteger_eq_wrapInteger_iff pES.signed _ _ _).mpr (hnames e he e' hlookup)
      rw [enumValue_of_name hlookup, hsame, (hwrap e.value.iv).mp (hfits e he)]
      exact enumSv_readsAs { cbc with enumType := enumType } hes he

/-- An enumerator with a value. -/
def enumeratorOf (identifier : String) (iv : ℤ) : Enumerator := ⟨⟨iv, false, false⟩, identifier⟩

/-- An object with `EnumSize` 0 that knows some enumerators. -/
def enumCbc (es : List Enumerator) : CBC :=
  { cbc64 (singleHeap (structOf "" [])) with
    pLP := { alignment4 with enum_size := 0 }
    htEnumerators name := es.find? fun e => textBytes e.identifier = name }

/-- `enum { BELOW = -1, ABOVE = 255 }` -/
def twoByteEnum : List Enumerator := [enumeratorOf "BELOW" (-1), enumeratorOf "ABOVE" 255]

theorem enum_adequate_iff_twoByte :
    FlexibleEnums (enumCbc twoByteEnum).pLP ∧
      (∀ e ∈ twoByteEnum, ∃ e', (enumCbc twoByteEnum).htEnumerators (textBytes e.identifier) =
        some e') ∧
      (EnumAdequate slotPerl (enumCbc twoByteEnum)
          (enumspecUpdate (enumspecNew "" ⟨"enum.h", 1⟩) twoByteEnum) twoByteEnum ↔
        EnumRange twoByteEnum ∧ NamesKept (enumCbc twoByteEnum)
          (8 * (enumTypeSize (enumCbc twoByteEnum).pLP
            (enumspecUpdate (enumspecNew "" ⟨"enum.h", 1⟩) twoByteEnum)).toNat) twoByteEnum) := by
  have hnamed : ∀ e ∈ twoByteEnum, ∃ e',
      (enumCbc twoByteEnum).htEnumerators (textBytes e.identifier) = some e' := by
    intro e he
    apply Option.isSome_iff_exists.mp
    revert e he
    decide
  exact ⟨.inl rfl, hnamed, enum_adequate_iff (.inl rfl) slotPerl rfl rfl hnamed⟩

/-- `enum { MINUS = -1, LARGE = 2147483648 }` -/
def wideEnum : List Enumerator := [enumeratorOf "MINUS" (-1), enumeratorOf "LARGE" 2147483648]

/-- The enum gets four bytes with a sign, which do not hold the second value. -/
theorem enum_size_too_small :
    (enumTypeSize (enumCbc wideEnum).pLP
        (enumspecUpdate (enumspecNew "" ⟨"enum.h", 1⟩) wideEnum) = 4 ∧
      (enumspecUpdate (enumspecNew "" ⟨"enum.h", 1⟩) wideEnum).signed = true) ∧
      ¬ EnumAdequate slotPerl (enumCbc wideEnum)
        (enumspecUpdate (enumspecNew "" ⟨"enum.h", 1⟩) wideEnum) wideEnum := by
  refine ⟨by decide +kernel, ?_⟩
  intro hadequate
  have hfits := hadequate.represented (enumeratorOf "LARGE" 2147483648) (by decide +kernel)
  revert hfits
  decide +kernel

end ConvertBinaryC
