import Mathlib.Data.List.GetD
import Mathlib.Data.List.TakeWhile
import ConvertBinaryC.CBCPackUpdate
import ConvertBinaryC.CTLibBitfieldDisjoint
import ConvertBinaryC.BitCounterRules

/-! The way of a string through a Format tag: `pack_format`, and `unpack_format` on the bytes
that packing has left. -/
namespace ConvertBinaryC
open StateRules
open BitCounterRules (roundUp roundUp_isLeast)

/-- What a Format tag is on. -/
inductive FormatObject where
  | declarator (pDecl : Declarator)
  | compound (pStruct : Struct)
  | enum (pES : EnumSpecifier) (pBI : Option BitfieldInfo)

section Object
variable (perl : Perl) (cbc : CBC)

/-- What `pack_type`, `pack_struct` and `pack_enum` do between their hooks. -/
def FormatObject.pack (format : FormatTag) (sv : SV) : FormatObject → Pk Unit
  | declarator d => packDeclaratorFormat perl d format sv
  | compound pStruct => within (.compound pStruct) (packFormat perl format pStruct.size false sv)
  | enum pES pBI => within (.enum pES) (packFormat perl format (packEnumSize cbc pES pBI) false sv)

def FormatObject.unpack (format : FormatTag) : FormatObject → Pk SV
  | declarator d => unpackDeclaratorFormat perl d format
  | compound pStruct => within (.compound pStruct) (unpackFormat format pStruct.size false)
  | enum pES pBI => within (.enum pES) (unpackFormat format (packEnumSize cbc pES pBI) false)

/-- The size, or that of an element if the object is flexible, where no tag leaves it to the
data. -/
def FormatObject.Sized (size : ℤ) (flexible : Bool) : FormatObject → Prop
  | declarator d => ∃ n, size = u32 n ∧
    ∀ st, preparePackFormat perl d d.tags.dimension st = .ok (n, flexible) st
  | compound pStruct => size = pStruct.size ∧ flexible = false
  | enum pES pBI => size = packEnumSize cbc pES pBI ∧ flexible = false

variable {perl cbc} {d : Declarator}

theorem sized_plain (htag : d.tags.dimension = none) (hsize : d.size ≠ 0) :
    (FormatObject.declarator d).Sized perl cbc (u32 d.size) false := by
  refine ⟨d.size, rfl, fun st => ?_⟩
  have hunit : formatUnit d none = .ok 0 := by
    unfold formatUnit
    rw [if_neg (by simp [hsize])]
  have hflexible : formatFlexible d none = false := by
    unfold formatFlexible
    rw [decide_eq_false hsize, Bool.and_false]
  unfold preparePackFormat
  rw [htag, hunit, hflexible]
  rfl

theorem sized_flexible {one : ℤ} (hflexible : formatFlexible d d.tags.dimension = true)
    (hunit : formatUnit d d.tags.dimension = .ok one) :
    (FormatObject.declarator d).Sized perl cbc (u32 one) true := by
  refine ⟨one, rfl, fun st => ?_⟩
  unfold preparePackFormat
  rw [hunit, hflexible]
  rfl

end Object

/-- The part of a string that a format is about. -/
def FormatTag.cut (format : FormatTag) (p : List Byte) : List Byte :=
  match format with
  | .string => p.takeWhile (· ≠ 0)
  | .binary => p

/-- The length of the source in `pack_format`. -/
def formatLength (format : FormatTag) (flexible : Bool) (p : List Byte) : ℤ :=
  match flexible, format with
  | true, .string => (p.takeWhile (· ≠ 0)).length + 1
  | _, _ => p.length

/-- The room that it makes. -/
def formatRoom (format : FormatTag) (size : ℤ) (flexible : Bool) (p : List Byte) : ℤ :=
  if flexible then u32 (roundUp (formatLength format flexible p) size) else size

/-- A handle as packing has it: the buffer is the start of a string, and no string has more
bytes than an `SSize_t` counts. -/
structure PackInfo.Held (st : PackInfo) : Prop where
  pos : 0 ≤ st.pos ∧ st.pos < 9223372036854775808
  length : 0 ≤ st.length ∧ st.length ≤ st.cur
  cur : st.cur < 9223372036854775808

/-- The byte behind the position after room was made, if nothing was copied to it. -/
def PackInfo.behind (st : PackInfo) (room : ℤ) (i : ℕ) : Byte :=
  if st.length < st.pos + room ∧ st.length ≤ st.pos + i then 0 else st.buffer (st.pos.toNat + i)

/-- What `pack_format` leaves, for the length of the source and the room made for it. -/
structure FormatPacked (format : FormatTag) (len room : ℤ) (p : List Byte) (s t : PackInfo) :
    Prop where
  fits : s.pos + room ≤ t.cur
  cur : t.cur = if s.length < s.pos + room then s.pos + room else s.cur
  bytes : ∀ i : ℕ, s.pos + i < t.cur → t.buffer (s.pos.toNat + i) =
    if (i : ℤ) < min len room then formatByte format p i else s.behind room i

section Pack
variable {perl : Perl} {format : FormatTag} {size : ℤ} {flexible : Bool} {s t : PackInfo}

theorem formatRoom_range (hsize : 0 ≤ size ∧ size < 4294967296) (p : List Byte) :
    0 ≤ formatRoom format size flexible p ∧ formatRoom format size flexible p < 4294967296 := by
  unfold formatRoom
  split_ifs
  · exact ⟨u32_nonneg _, u32_lt _⟩
  · exact hsize

theorem u32_roundUp (len : ℤ) (size : ℤ) :
    (if len % size ≠ 0 then u32 (len + size - len % size) else u32 len) =
      u32 (roundUp len size) := by
  unfold roundUp
  by_cases hdvd : len % size = 0
  · rw [if_neg (not_not.mpr hdvd), if_pos hdvd]
  · rw [if_pos hdvd, if_neg hdvd, add_sub_assoc]

/-- Room is made, and then as much is copied as there is room for. -/
theorem packFormat_steps {sv : SV} (hdefined : sv.defined = true)
    (h : packFormat perl format size flexible sv s = .ok () t) : (flexible = true → size ≠ 0) ∧
    ∃ u, growBuffer perl (formatRoom format size flexible (perl.stringOf sv)) s = .ok () u ∧
      copyFormat format (formatRoom format size flexible (perl.stringOf sv))
        (formatLength format flexible (perl.stringOf sv)) (perl.stringOf sv) u = .ok () t := by
  unfold packFormat at h
  cases flexible with
  | false =>
    rw [if_neg Bool.false_ne_true] at h
    obtain ⟨_, u, hgrow, h⟩ := bind_ok h
    rw [if_pos hdefined] at h
    exact ⟨(fun hflexible => nomatch hflexible), u, hgrow, h⟩
  | true =>
    rw [if_pos rfl, if_pos hdefined] at h
    obtain ⟨⟨len, room⟩, u, hlift, hrest⟩ := bind_ok h
    obtain ⟨hflexible, hu⟩ := liftCall_ok hlift
    rw [hu] at hrest
    obtain ⟨_, u', hgrow, hcopy⟩ := bind_ok hrest
    unfold flexibleFormat at hflexible
    dsimp only at hflexible
    by_cases hzero : size = 0
    · rw [if_pos hzero] at hflexible
      exact nomatch hflexible
    · rw [if_neg hzero] at hflexible
      cases hflexible
      have hroom : formatRoom format size true (perl.stringOf sv) = _ := if_pos rfl
      rw [hroom, ← u32_roundUp]
      cases format with
      | string => exact ⟨fun _ => hzero, u', hgrow, hcopy⟩
      | binary => exact ⟨fun _ => hzero, u', hgrow, hcopy⟩

/-- The copied bytes fit into the buffer, and nothing else changes. -/
theorem copyFormat_ok {room len : ℤ} {p : List Byte} (h : copyFormat format room len p s = .ok () t) :
    s.pos + (min len room).toNat ≤ s.length ∧ t.cur = s.cur ∧
      ∀ i : ℕ, t.buffer (s.pos.toNat + i) =
        if (i : ℤ) < min len room then formatByte format p i else s.buffer (s.pos.toNat + i) := by
  obtain ⟨_, u, hget, h⟩ := bind_ok h
  cases hget
  obtain ⟨_, u, hemit, h⟩ := bind_ok h
  cases hemit
  obtain ⟨_, u, hget, h⟩ := bind_ok h
  cases hget
  have hmin : (if len > room then room else len) = min len room := by
    split_ifs <;> omega
  rw [hmin] at h
  split_ifs at h with hlong
  · exact nomatch h
  · cases h
    refine ⟨not_lt.mp hlong, rfl, fun i => ?_⟩
    show (if s.pos.toNat ≤ s.pos.toNat + i ∧ s.pos.toNat + i < s.pos.toNat + (min len room).toNat then
      formatByte format p (s.pos.toNat + i - s.pos.toNat) else s.buffer (s.pos.toNat + i)) = _
    have hiff : (s.pos.toNat ≤ s.pos.toNat + i ∧
        s.pos.toNat + i < s.pos.toNat + (min len room).toNat) ↔ (i : ℤ) < min len room := by
      omega
    rw [if_congr hiff rfl rfl, Nat.add_sub_cancel_left]

/-- Packing leaves the string in front of what was there before. -/
theorem packFormat_ok {sv : SV} (hheld : s.Held) (hsize : 0 ≤ size ∧ size < 4294967296)
    (hdefined : sv.defined = true) (h : packFormat perl format size flexible sv s = .ok () t) :
    (flexible = true → size ≠ 0) ∧ FormatPacked format (formatLength format flexible (perl.stringOf sv))
      (formatRoom format size flexible (perl.stringOf sv)) (perl.stringOf sv) s t := by
  obtain ⟨⟨hpos, hposlt⟩, ⟨hlength, hle⟩, hcur⟩ := hheld
  obtain ⟨hzero, u, hgrow, hcopy⟩ := packFormat_steps hdefined h
  refine ⟨hzero, ?_⟩
  obtain ⟨hfits, hcurSame, hbytes⟩ := copyFormat_ok hcopy
  have hroom : 0 ≤ formatRoom format size flexible (perl.stringOf sv) ∧
      formatRoom format size flexible (perl.stringOf sv) < 4294967296 := formatRoom_range hsize _
  generalize formatRoom format size flexible (perl.stringOf sv) = room at *
  generalize formatLength format flexible (perl.stringOf sv) = len at *
  rcases growBuffer_ok hgrow with ⟨hshort, rfl⟩ | ⟨hlong, rfl⟩
  · have hinside : s.pos + (min len room).toNat ≤ s.length := hfits
    -- no position so small that it fits can wrap around
    have hexact : u64 (s.pos + room) = s.pos + room := by
      apply u64_of_lt <;> omega
    rw [hexact] at hshort
    have hcurEq : t.cur = s.cur := hcurSame
    have hnot : ¬ s.length < s.pos + room := not_lt.mpr hshort
    constructor
    · omega
    · rw [if_neg hnot, hcurEq]
    · intro i _
      have hkept : s.behind room i = s.buffer (s.pos.toNat + i) := if_neg fun hgrown => hnot hgrown.1
      rw [hkept]
      exact hbytes i
  · have hinside : s.pos + (min len room).toNat ≤ u64 (s.pos + room) := hfits
    have hmod : u64 (s.pos + room) = (s.pos + room) % 18446744073709551616 := rfl
    have hexact : u64 (s.pos + room) = s.pos + room := by
      omega
    rw [hexact] at hlong hbytes hcurSame
    have hcurEq : t.cur = s.pos + room := hcurSame
    constructor
    · exact hcurEq.ge
    · rw [if_pos hlong, hcurEq]
    · intro i hi
      have hzeros : s.behind room i = if s.length ≤ (s.pos.toNat + i : ℕ) ∧
          ((s.pos.toNat + i : ℕ) : ℤ) ≤ s.pos + room then 0 else s.buffer (s.pos.toNat + i) := by
        unfold PackInfo.behind
        apply if_congr _ rfl rfl
        omega
      rw [hzeros]
      exact hbytes i

end Pack

/-- The data that unpacking is given. -/
structure PackInfo.Reads (r : PackInfo) (string : List Byte) : Prop where
  length : r.length = string.length
  bytes : ∀ i < string.length, some (r.buffer i) = string[i]?

/-- The bytes behind the position. -/
def PackInfo.read (r : PackInfo) (n : ℤ) : List Byte :=
  (List.range n.toNat).map fun i => r.buffer (r.pos.toNat + i)

/-- As much of the rest of the data as `unpack_format` looks at. -/
def formatSeen (size : ℤ) (flexible : Bool) (rest : ℤ) : ℤ :=
  if flexible then rest - rest % size else size

/-- The whole elements of the rest reach every end of one that the rest reaches. -/
theorem le_whole {rest room size : ℤ} (hsize : 0 < size) (hdvd : size ∣ room) (hle : room ≤ rest) :
    room ≤ rest - rest % size := by
  obtain ⟨k, rfl⟩ := hdvd
  have hk : k ≤ rest / size := Int.le_ediv_of_mul_le hsize (by linarith)
  have hdivmod := Int.mul_ediv_add_emod rest size
  calc size * k ≤ size * (rest / size) := mul_le_mul_of_nonneg_left hk hsize.le
    _ = rest - rest % size := by linarith

theorem whole_eq_iff {rest room size : ℤ} (hsize : 0 < size) (hdvd : size ∣ room)
    (hle : room ≤ rest) : rest - rest % size = room ↔ rest < room + size := by
  have hmod := Int.emod_lt_of_pos rest hsize
  constructor
  · intro h
    linarith
  · intro h
    obtain ⟨k, rfl⟩ := hdvd
    have hnonneg := Int.emod_nonneg (rest - size * k) hsize.ne'
    have hsmall : (rest - size * k) % size = rest - size * k :=
      Int.emod_eq_of_lt (by linarith) (by linarith)
    rw [Int.sub_mul_emod_self_left] at hsmall
    linarith

section Unpack
variable {format : FormatTag} {size : ℤ} {flexible : Bool} {r : PackInfo}

theorem formatSeen_range {rest : ℤ} (hsize : 0 ≤ size) (hzero : flexible = true → size ≠ 0)
    (hrest : 0 ≤ rest) (hfits : flexible = false → size ≤ rest) :
    0 ≤ formatSeen size flexible rest ∧ formatSeen size flexible rest ≤ rest := by
  unfold formatSeen
  split_ifs with hflexible
  · have hpos : 0 < size := lt_of_le_of_ne hsize (hzero hflexible).symm
    have hmod := Int.emod_nonneg rest hpos.ne'
    exact ⟨le_whole hpos (dvd_zero size) hrest, by omega⟩
  · exact ⟨hsize, hfits (Bool.eq_false_of_not_eq_true hflexible)⟩

/-- The bytes are those behind the position, which for a string end at the first zero. -/
theorem unpackFormat_run (hpos : 0 ≤ r.pos ∧ r.pos ≤ r.length)
    (hlength : r.length + size < 18446744073709551616) (hsize : 0 ≤ size ∧ size < 4294967296)
    (hzero : flexible = true → size ≠ 0) (hrest : flexible = true → r.length - r.pos < 4294967296)
    (hfits : flexible = false → r.pos + size ≤ r.length) :
    ∃ u, unpackFormat format size flexible r =
      .ok (newSVpvn (format.cut (r.read (formatSeen size flexible (r.length - r.pos))))) u := by
  have hrest' : 0 ≤ r.length - r.pos := by omega
  have hroom (h : flexible = false) : size ≤ r.length - r.pos := by linarith [hfits h]
  obtain ⟨hnonneg, hseen⟩ := formatSeen_range hsize.1 hzero hrest' hroom
  have hexact : u64 (r.pos + size) = r.pos + size := by
    apply u64_of_lt <;> omega
  by_cases hshort : r.length < r.pos + size
  · -- less than one element
    have hflexible : flexible = true := by
      by_contra hfixed
      exact absurd (hfits (Bool.eq_false_of_not_eq_true hfixed)) (not_le.mpr hshort)
    have hnone : formatSeen size flexible (r.length - r.pos) = 0 := by
      unfold formatSeen
      rw [if_pos hflexible, Int.emod_eq_of_lt hrest' (by omega), sub_self]
    refine ⟨r, ?_⟩
    have hempty : format.cut (r.read 0) = [] := by
      cases format <;> rfl
    rw [hnone, hempty]
    show (if u64 (r.pos + size) > r.length then (pure (newSVpvn []) : Pk SV) else _) r = _
    rw [if_pos (hexact.symm ▸ hshort)]
    rfl
  · have hcount : (if flexible = true then flexibleRest r.length r.pos size else .ok size) =
        .ok (formatSeen size flexible (r.length - r.pos)) := by
      unfold formatSeen flexibleRest
      split_ifs with hflexible hz
      · exact absurd hz (hzero hflexible)
      · rw [u32_of_lt hrest' (hrest hflexible)]
      · rfl
    generalize formatSeen size flexible (r.length - r.pos) = n at *
    have hbytes : fetchBytes n.toNat (r.emit (.copy r.path r.pos n)) =
        .ok (r.read n) (r.emit (.copy r.path r.pos n)) := by
      show (if r.pos + (n.toNat : ℤ) > r.length then (throw .undefinedBehaviour : Pk (List Byte))
        else pure (r.read n)) (r.emit (.copy r.path r.pos n)) = _
      rw [if_neg (by omega)]
      rfl
    refine ⟨r.emit (.copy r.path r.pos n), ?_⟩
    show (if u64 (r.pos + size) > r.length then (pure (newSVpvn []) : Pk SV) else _) r = _
    rw [if_neg (hexact.symm ▸ hshort), hcount]
    show (fetchBytes n.toNat >>= fun bytes => _) (r.emit (.copy r.path r.pos n)) = _
    rw [bind_of_ok hbytes]
    cases format <;> rfl

end Unpack

section Objects
variable {perl : Perl} {cbc : CBC} {obj : FormatObject} {format : FormatTag} {size : ℤ}
  {flexible : Bool} {s t r : PackInfo}

theorem within_inv {α : Type} {scope : Scope} {m : Pk α} {a : α} (h : within scope m s = .ok a t) :
    ∃ u, m (s.enter scope) = .ok a u ∧ t = u.leave := by
  cases hm : m (s.enter scope) with
  | ok b u =>
    rw [within_ok hm] at h
    cases h
    exact ⟨u, rfl, rfl⟩
  | error e u =>
    rw [within_error hm] at h
    exact nomatch h

theorem FormatObject.pack_ok {sv : SV} (hsized : obj.Sized perl cbc size flexible)
    (h : obj.pack perl cbc format sv s = .ok () t) :
    ∃ scope u, packFormat perl format size flexible sv (s.enter scope) = .ok () u ∧ t = u.leave := by
  cases obj with
  | declarator d =>
    obtain ⟨n, rfl, hprepare⟩ := hsized
    obtain ⟨u, hpack, rfl⟩ := within_inv h
    rw [bind_of_ok (hprepare _)] at hpack
    exact ⟨_, u, hpack, rfl⟩
  | compound pStruct =>
    obtain ⟨rfl, rfl⟩ := hsized
    obtain ⟨u, hpack, rfl⟩ := within_inv h
    exact ⟨_, u, hpack, rfl⟩
  | enum pES pBI =>
    obtain ⟨rfl, rfl⟩ := hsized
    obtain ⟨u, hpack, rfl⟩ := within_inv h
    exact ⟨_, u, hpack, rfl⟩

theorem FormatObject.unpack_ok {sv : SV} (hsized : obj.Sized perl cbc size flexible)
    (h : ∀ scope, ∃ u, unpackFormat format size flexible (r.enter scope) = .ok sv u) :
    ∃ u, obj.unpack perl cbc format r = .ok sv u := by
  cases obj with
  | declarator d =>
    obtain ⟨n, rfl, hprepare⟩ := hsized
    obtain ⟨u, hunpack⟩ := h (.declarator d)
    refine ⟨u.leave, within_ok ?_⟩
    rw [bind_of_ok (hprepare _)]
    exact hunpack
  | compound pStruct =>
    obtain ⟨rfl, rfl⟩ := hsized
    obtain ⟨u, hunpack⟩ := h (.compound pStruct)
    exact ⟨u.leave, within_ok hunpack⟩
  | enum pES pBI =>
    obtain ⟨rfl, rfl⟩ := hsized
    obtain ⟨u, hunpack⟩ := h (.enum pES)
    exact ⟨u.leave, within_ok hunpack⟩

/-- The bytes that unpacking reads are those that packing has left. -/
theorem read_result (hheld : s.Held) (hreads : r.Reads t.result) (hpos : r.pos = s.pos) {n : ℤ}
    (hn : s.pos + n ≤ t.cur) : r.read n = (List.range n.toNat).map fun i =>
      t.buffer (s.pos.toNat + i) := by
  apply List.map_congr_left
  intro i hi
  have hlt := List.mem_range.mp hi
  have hnonneg := hheld.pos.1
  have hindex : ((s.pos.toNat + i : ℕ) : ℤ) < t.cur := by omega
  have hlength : ((t.result.length : ℕ) : ℤ) = t.cur := PackInfo.result_length (by omega)
  have hget := hreads.bytes (s.pos.toNat + i) (by omega)
  rw [PackInfo.result_get hindex] at hget
  rw [hpos]
  exact Option.some.inj hget

end Objects

/-- A string that ends inside of some bytes is what is in front of the first zero. -/
theorem takeWhile_eq_of_ends {bytes p : List Byte} (hne : ∀ b ∈ p, b ≠ 0) (hstarts : p <+: bytes)
    (hend : ∀ b, bytes[p.length]? = some b → b = 0) : bytes.takeWhile (· ≠ 0) = p := by
  obtain ⟨rest, rfl⟩ := hstarts
  have hp : ∀ b ∈ p, decide (b ≠ 0) = true := fun b hb => decide_eq_true (hne b hb)
  rw [List.takeWhile_append_of_pos hp]
  cases rest with
  | nil => rw [List.takeWhile_nil, List.append_nil]
  | cons b rest =>
    have hzero : b = 0 := by
      apply hend
      rw [List.getElem?_append_right le_rfl, Nat.sub_self]
      rfl
    rw [List.takeWhile_cons_of_neg (by simp [hzero]), List.append_nil]

theorem prefix_map_range {p : List Byte} {f : ℕ → Byte} {n : ℕ} (hlength : p.length ≤ n)
    (hget : ∀ i, (h : i < p.length) → f i = p[i]) : p <+: (List.range n).map f := by
  rw [List.prefix_iff_getElem]
  have hlong : p.length ≤ ((List.range n).map f).length := by
    rw [List.length_map, List.length_range]
    exact hlength
  refine ⟨hlong, fun i hi => ?_⟩
  rw [List.getElem_map, List.getElem_range]
  exact (hget i hi).symm

/-- The string as far as the object holds it. -/
def formatFitting (format : FormatTag) (size : ℤ) (flexible : Bool) (p : List Byte) : List Byte :=
  if flexible then format.cut p else (format.cut p).take size.toNat

/-- The string comes back: for String it is what fits, for Binary it starts with that and has
the size of the object. -/
def FormatRoundTrips (format : FormatTag) (size : ℤ) (flexible : Bool) (p result : List Byte) :
    Prop :=
  match format with
  | .string => result = formatFitting format size flexible p
  | .binary => formatFitting format size flexible p <+: result ∧
    (result.length : ℤ) = if flexible then roundUp p.length size else size

/-- What comes back where `rest` bytes of the data are left from the object on. -/
structure FormatReturns (format : FormatTag) (size : ℤ) (flexible : Bool) (p result : List Byte)
    (rest : ℤ) : Prop where
  starts : formatFitting format size flexible p <+: result
  length : (result.length : ℤ) = match format with
    | .string => ((formatFitting format size flexible p).length : ℤ)
    | .binary => formatSeen size flexible rest
  whole : FormatRoundTrips format size flexible p result ↔
    (format = .binary → flexible = true → rest < roundUp p.length size + size)

/-- Lengths are those of an `unsigned`, and a string that is too short for an object of fixed
size and has no zero comes in front of one. -/
structure FormatEnds (format : FormatTag) (size : ℤ) (flexible : Bool) (p : List Byte)
    (s : PackInfo) : Prop where
  room : flexible = true → roundUp (formatLength format flexible p) size < 4294967296
  rest : flexible = true → s.cur - s.pos < 4294967296
  zero : format = .string → flexible = false →
    size ≤ p.length ∨ 0 ∈ p ∨ s.behind size p.length = 0

section RoundTrip
variable {format : FormatTag} {size : ℤ} {flexible : Bool} {p : List Byte} {s t : PackInfo}

theorem formatByte_of_lt {i : ℕ} (h : i < (format.cut p).length) :
    formatByte format p i = (format.cut p)[i] := by
  cases format with
  | string => exact List.getD_eq_getElem _ 0 h
  | binary => exact List.getD_eq_getElem _ 0 h

theorem FormatTag.cut_length_le (format : FormatTag) (p : List Byte) :
    (format.cut p).length ≤ p.length := by
  cases format with
  | string => exact (List.takeWhile_prefix _).length_le
  | binary => exact le_rfl

/-- The room is enough for the length, up to whole elements. -/
theorem formatRoom_flexible (hsize : 0 < size)
    (hroom : roundUp (formatLength format true p) size < 4294967296) :
    formatRoom format size true p = roundUp (formatLength format true p) size ∧
      size ∣ formatRoom format size true p ∧
      formatLength format true p ≤ formatRoom format size true p := by
  obtain ⟨⟨hle, hdvd⟩, -⟩ := roundUp_isLeast (formatLength format true p) hsize
  have hnonneg : 0 ≤ formatLength format true p := by
    cases format with
    | string => exact Int.natCast_nonneg _
    | binary => exact Int.natCast_nonneg _
  have hexact : formatRoom format size true p = roundUp (formatLength format true p) size :=
    u32_of_lt (hnonneg.trans hle) hroom
  rw [hexact]
  exact ⟨rfl, hdvd, hle⟩

/-- What is unpacked starts with what fits. -/
theorem fitting_prefix (hsize : 0 ≤ size) (hzero : flexible = true → size ≠ 0)
    (hroom : flexible = true → roundUp (formatLength format flexible p) size < 4294967296)
    (h : FormatPacked format (formatLength format flexible p) (formatRoom format size flexible p) p s t) :
    formatFitting format size flexible p <+:
      (List.range (formatSeen size flexible (t.cur - s.pos)).toNat).map fun i =>
        t.buffer (s.pos.toNat + i) := by
  have hcopied (i : ℕ) (hi : i < (format.cut p).length)
      (hlen : (i : ℤ) < formatLength format flexible p)
      (hin : (i : ℤ) < formatRoom format size flexible p) :
      t.buffer (s.pos.toNat + i) = (format.cut p)[i] := by
    have hfits := h.fits
    rw [h.bytes i (by linarith), if_pos (lt_min hlen hin)]
    exact formatByte_of_lt hi
  have hcut := format.cut_length_le p
  cases flexible with
  | false =>
    have hfixed : formatRoom format size false p = size := rfl
    have hlength : formatLength format false p = p.length := by
      cases format <;> rfl
    rw [hfixed, hlength] at hcopied
    show (format.cut p).take size.toNat <+: (List.range size.toNat).map _
    apply prefix_map_range
    · exact List.length_take_le _ _
    · intro i hi
      rw [List.length_take] at hi
      rw [List.getElem_take]
      exact hcopied i (by omega) (by omega) (by omega)
  | true =>
    have hpos : 0 < size := lt_of_le_of_ne hsize (hzero rfl).symm
    obtain ⟨-, hdvd, hle⟩ := formatRoom_flexible hpos (hroom rfl)
    have hlength : ((format.cut p).length : ℤ) ≤ formatLength format true p := by
      cases format with
      | string => exact (lt_add_one _).le
      | binary => exact le_rfl
    have hfits := h.fits
    have hseen := le_whole hpos hdvd (show _ ≤ t.cur - s.pos by linarith)
    show format.cut p <+: (List.range ((t.cur - s.pos) - (t.cur - s.pos) % size).toNat).map _
    apply prefix_map_range
    · omega
    · intro i hi
      exact hcopied i hi (by omega) (by omega)

/-- A string ends where it should. -/
theorem string_ends (hsize : 0 ≤ size) (hzero : flexible = true → size ≠ 0)
    (hends : FormatEnds .string size flexible p s)
    (h : FormatPacked .string (formatLength .string flexible p) (formatRoom .string size flexible p)
      p s t) {b : Byte}
    (hb : ((List.range (formatSeen size flexible (t.cur - s.pos)).toNat).map fun i =>
      t.buffer (s.pos.toNat + i))[(formatFitting .string size flexible p).length]? = some b) :
    b = 0 := by
  have hcut := FormatTag.string.cut_length_le p
  have hterminator : formatByte .string p (FormatTag.string.cut p).length = 0 :=
    List.getD_eq_default _ 0 le_rfl
  have hfits := h.fits
  rw [List.getElem?_map, Option.map_eq_some_iff] at hb
  obtain ⟨i, hi, rfl⟩ := hb
  obtain ⟨hlt, rfl⟩ := List.getElem?_eq_some_iff.mp hi
  rw [List.length_range] at hlt
  rw [List.getElem_range]
  cases flexible with
  | true =>
    -- the terminator is part of the source
    have hpos : 0 < size := lt_of_le_of_ne hsize (hzero rfl).symm
    obtain ⟨-, -, hle⟩ := formatRoom_flexible hpos (hends.room rfl)
    have hlength : ((FormatTag.string.cut p).length : ℤ) < formatLength .string true p :=
      lt_add_one _
    show t.buffer (s.pos.toNat + (FormatTag.string.cut p).length) = 0
    rw [h.bytes _ (by linarith), if_pos (lt_min hlength (by linarith)), hterminator]
  | false =>
    have hlt' : ((FormatTag.string.cut p).take size.toNat).length < size.toNat := hlt
    have hwhole : ((FormatTag.string.cut p).take size.toNat).length =
        (FormatTag.string.cut p).length := by
      rw [List.length_take] at hlt' ⊢
      omega
    show t.buffer (s.pos.toNat + ((FormatTag.string.cut p).take size.toNat).length) = 0
    rw [hwhole] at hlt' ⊢
    have hinside : ((FormatTag.string.cut p).length : ℤ) < size := by omega
    have hfits' : s.pos + size ≤ t.cur := hfits
    rw [h.bytes _ (by linarith)]
    by_cases hshort : ((FormatTag.string.cut p).length : ℤ) < p.length
    · have hcopied : ((FormatTag.string.cut p).length : ℤ) <
          min (formatLength .string false p) (formatRoom .string size false p) :=
        lt_min hshort hinside
      rw [if_pos hcopied, hterminator]
    · have hall : (FormatTag.string.cut p).length = p.length := by omega
      have hno : 0 ∉ p := by
        intro hmem
        have hself : p.takeWhile (· ≠ 0) = p :=
          (List.takeWhile_prefix _).eq_of_length hall
        rw [← hself] at hmem
        have hne := List.mem_takeWhile_imp hmem
        exact absurd rfl (of_decide_eq_true hne)
      have hbehind : s.behind size p.length = 0 := by
        rcases hends.zero rfl rfl with hlong | hmem | hbehind
        · omega
        · exact absurd hmem hno
        · exact hbehind
      have hnot : ¬ ((FormatTag.string.cut p).length : ℤ) <
          min (formatLength .string false p) (formatRoom .string size false p) :=
        fun hlt => hshort (hlt.trans_le (min_le_left _ _))
      rw [if_neg hnot, hall]
      exact hbehind

theorem formatFitting_ne_zero {b : Byte} (h : b ∈ formatFitting .string size flexible p) : b ≠ 0 := by
  have hcut : b ∈ FormatTag.string.cut p := by
    unfold formatFitting at h
    split_ifs at h
    · exact h
    · exact List.mem_of_mem_take h
  have hne : decide (b ≠ 0) = true := List.mem_takeWhile_imp (p := fun b => decide (b ≠ 0)) hcut
  exact of_decide_eq_true hne

/-- What is unpacked from the bytes that packing left. -/
theorem returns_of_packed (hsize : 0 ≤ size) (hzero : flexible = true → size ≠ 0)
    (hends : FormatEnds format size flexible p s)
    (h : FormatPacked format (formatLength format flexible p) (formatRoom format size flexible p) p s t)
    (hseen : 0 ≤ formatSeen size flexible (t.cur - s.pos)) :
    FormatReturns format size flexible p (format.cut
      ((List.range (formatSeen size flexible (t.cur - s.pos)).toNat).map fun i =>
        t.buffer (s.pos.toNat + i))) (t.cur - s.pos) := by
  have hstarts := fitting_prefix hsize hzero hends.room h
  cases format with
  | string =>
    have hcut := takeWhile_eq_of_ends (fun b hb => formatFitting_ne_zero hb) hstarts
      (fun b hb => string_ends hsize hzero hends h hb)
    have hresult : FormatTag.string.cut _ = formatFitting .string size flexible p := hcut
    rw [hresult]
    refine ⟨List.prefix_rfl, rfl, ?_⟩
    constructor
    · intro _ hformat
      exact nomatch hformat
    · exact fun _ => rfl
  | binary =>
    have hlength : ((((List.range (formatSeen size flexible (t.cur - s.pos)).toNat).map fun i =>
        t.buffer (s.pos.toNat + i)).length : ℕ) : ℤ) = formatSeen size flexible (t.cur - s.pos) := by
      rw [List.length_map, List.length_range, Int.toNat_of_nonneg hseen]
    generalize (List.range (formatSeen size flexible (t.cur - s.pos)).toNat).map _ = bytes at *
    refine ⟨hstarts, hlength, ?_⟩
    have hclaim : FormatRoundTrips .binary size flexible p bytes ↔
        formatSeen size flexible (t.cur - s.pos) = if flexible then roundUp p.length size else size := by
      rw [← hlength]
      exact and_iff_right hstarts
    refine hclaim.trans ?_
    cases flexible with
    | false => exact ⟨(fun _ _ h => nomatch h), fun _ => rfl⟩
    | true =>
      have hpos : 0 < size := lt_of_le_of_ne hsize (hzero rfl).symm
      obtain ⟨hexact, hdvd, -⟩ := formatRoom_flexible hpos (hends.room rfl)
      have hroom : formatRoom .binary size true p = roundUp p.length size := hexact
      have hfits := h.fits
      rw [hroom] at hdvd hfits
      have hwhole := whole_eq_iff hpos hdvd (show _ ≤ t.cur - s.pos by linarith)
      exact ⟨fun h _ _ => hwhole.mp h, fun h => hwhole.mpr (h rfl rfl)⟩

/-- A string with a Format tag comes back from the bytes that it was packed to. -/
theorem format_round_trip {perl : Perl} {cbc : CBC} {obj : FormatObject} {sv : SV} {r : PackInfo}
    (hsized : obj.Sized perl cbc size flexible) (hsize : 0 ≤ size ∧ size < 4294967296)
    (hheld : s.Held) (hdefined : sv.defined = true)
    (hends : FormatEnds format size flexible (perl.stringOf sv) s)
    (hpack : obj.pack perl cbc format sv s = .ok () t) (hreads : r.Reads t.result)
    (hpos : r.pos = s.pos) :
    ∃ result u, obj.unpack perl cbc format r = .ok (newSVpvn result) u ∧
      FormatReturns format size flexible (perl.stringOf sv) result (t.cur - s.pos) := by
  obtain ⟨scope, u, hrun, rfl⟩ := FormatObject.pack_ok hsized hpack
  have hentered : (s.enter scope).Held := ⟨hheld.pos, hheld.length, hheld.cur⟩
  obtain ⟨hzero, hu⟩ := packFormat_ok hentered hsize hdefined hrun
  have hpacked : FormatPacked format (formatLength format flexible (perl.stringOf sv))
      (formatRoom format size flexible (perl.stringOf sv)) (perl.stringOf sv) s u.leave :=
    ⟨hu.fits, hu.cur, hu.bytes⟩
  generalize u.leave = t at *
  generalize perl.stringOf sv = p at *
  obtain ⟨hroom, hroomlt⟩ : 0 ≤ formatRoom format size flexible p ∧
    formatRoom format size flexible p < 4294967296 := formatRoom_range hsize p
  have hfits := hpacked.fits
  have hcur := hpacked.cur
  have hstart := hheld.pos
  have hend := hheld.cur
  have hlength : r.length = t.cur := by
    rw [hreads.length]
    exact PackInfo.result_length (by linarith)
  have hlimit : t.cur + size < 18446744073709551616 := by
    rw [hcur]
    split_ifs <;> omega
  have hfixed (h : flexible = false) : s.pos + size ≤ t.cur := by
    rw [h] at hfits
    exact hfits
  have hrest (h : flexible = true) : t.cur - s.pos < 4294967296 := by
    have hbound := hends.rest h
    rw [hcur]
    split_ifs <;> omega
  obtain ⟨hseen, hseenle⟩ := formatSeen_range hsize.1 hzero (by linarith : 0 ≤ t.cur - s.pos)
    fun h => by linarith [hfixed h]
  have hread : r.read (formatSeen size flexible (t.cur - s.pos)) = _ :=
    read_result hheld hreads hpos (by linarith)
  have hunpack (scope : Scope) : ∃ u, unpackFormat format size flexible (r.enter scope) =
      .ok (newSVpvn (format.cut (r.read (formatSeen size flexible (t.cur - s.pos))))) u := by
    rw [← hlength, ← hpos] at hfixed hrest ⊢
    have hinside : 0 ≤ r.pos ∧ r.pos ≤ r.length := ⟨by linarith, by linarith⟩
    have hlimit' : r.length + size < 18446744073709551616 := by linarith
    exact @unpackFormat_run format size flexible (r.enter scope) hinside hlimit' hsize hzero hrest
      hfixed
  obtain ⟨v, hv⟩ := FormatObject.unpack_ok hsized hunpack
  refine ⟨_, v, hv, ?_⟩
  rw [hread]
  exact returns_of_packed hsize.1 hzero hends hpacked hseen

end RoundTrip

/-- `char s[4]` -/
def nameArray : Declarator :=
  { memberAt "s" 0 4 1 with ext := .array [⟨4, false, false⟩] }

/-- `char d[]` behind an int and a char, in a struct of 8 bytes. -/
def tailArray : Declarator :=
  { memberAt "d" 5 0 1 with ext := .array [⟨0, true, false⟩] }

/-- A buffer of zeros. -/
def zeroBuffer (length : ℕ) (pos : ℤ) : PackInfo :=
  { pkCreate (List.replicate length 0) length with pos := pos }

theorem format_round_trip_name :
    ∃ result u, (FormatObject.declarator nameArray).unpack slotPerl (cbc64 (singleHeap countedInts))
        .string (pkCreate [97, 98, 0, 0] 4) = .ok (newSVpvn result) u ∧
      FormatReturns .string 4 false [97, 98] result 4 := by
  have hsized : (FormatObject.declarator nameArray).Sized slotPerl (cbc64 (singleHeap countedInts)) 4
      false := sized_plain (d := nameArray) rfl (by decide)
  have hheld : (zeroBuffer 4 0).Held := ⟨by decide, by decide, by decide⟩
  have hends : FormatEnds .string 4 false [97, 98] (zeroBuffer 4 0) :=
    ⟨(fun h => nomatch h), (fun h => nomatch h), fun _ _ => .inr (.inr rfl)⟩
  have hreads : (pkCreate [97, 98, 0, 0] 4).Reads [97, 98, 0, 0] := by
    refine ⟨rfl, fun i hi => ?_⟩
    show some (([97, 98, 0, 0] : List Byte).getD i 0) = _
    rw [List.getD_eq_getElem _ _ hi, List.getElem?_eq_getElem hi]
  exact @format_round_trip _ _ _ _ _ _ _ _ (newSVpvn [97, 98]) _ hsized (by decide) hheld rfl hends
    rfl hreads rfl

/-- The `"x"` that is packed to the flexible array comes back with the padding of the struct. -/
theorem format_no_round_trip : ¬ ∀ (perl : Perl) (cbc : CBC) (obj : FormatObject)
    (format : FormatTag) (size : ℤ) (flexible : Bool) (sv : SV) (s t r : PackInfo),
    obj.Sized perl cbc size flexible → 0 ≤ size ∧ size < 4294967296 → s.Held → sv.defined = true →
    obj.pack perl cbc format sv s = .ok () t → r.Reads t.result → r.pos = s.pos →
    ∃ result u, obj.unpack perl cbc format r = .ok (newSVpvn result) u ∧
      FormatRoundTrips format size flexible (perl.stringOf sv) result := by
  intro hall
  have hsized : (FormatObject.declarator tailArray).Sized slotPerl (cbc64 (singleHeap countedInts)) 1
      true := sized_flexible (d := tailArray) rfl rfl
  have hheld : (zeroBuffer 8 5).Held := ⟨by decide, by decide, by decide⟩
  have hreads : ({ pkCreate [0, 0, 0, 0, 0, 120, 0, 0] 8 with pos := 5 } : PackInfo).Reads
      [0, 0, 0, 0, 0, 120, 0, 0] := by
    refine ⟨rfl, fun i hi => ?_⟩
    show some (([0, 0, 0, 0, 0, 120, 0, 0] : List Byte).getD i 0) = _
    rw [List.getD_eq_getElem _ _ hi, List.getElem?_eq_getElem hi]
  obtain ⟨result, u, hunpack, -, hlength⟩ := hall slotPerl (cbc64 (singleHeap countedInts))
    (.declarator tailArray) .binary 1 true (newSVpvn [120]) (zeroBuffer 8 5) _ _ hsized (by decide)
    hheld rfl rfl hreads rfl
  have hresult : newSVpvn [120, 0, 0] = newSVpvn result := by
    injection hunpack
  cases hresult
  exact absurd hlength (by decide)

end ConvertBinaryC
