import ConvertBinaryC.SimulateRules
import ConvertBinaryC.CBCPackPlan
import ConvertBinaryC.CBCDimensionTag

/-! Packing into an existing string (`pack` of `xsubs/pack.xs` with its third argument), and
the plan of what is packed, which it follows. -/
namespace ConvertBinaryC
open StateRules SimulateRules

/-- The buffer starts with the string and goes on with zeros up to the size of the type,
which is the length that packing is told. -/
def packInto (mi : MemberInfo) (string : List Byte) : PackInfo :=
  { pkCreate string mi.size with cur := max mi.size string.length }

/-- The string that holds the buffer of a handle. -/
def PackInfo.result (st : PackInfo) : List Byte := (List.range st.cur.toNat).map st.buffer

/-- `pack`: the string that holds the buffer, and what was done to it. Without a third
argument the string is empty. -/
def pack (perl : Perl) (cbc : CBC) (fuel : ℕ) (mi : MemberInfo) (data : SV) (string : List Byte) :
    Call (List Byte × List Event) :=
  match pkPack perl cbc fuel mi.type mi.pDecl mi.level data (packInto mi string) with
  | .ok _ st => .ok (st.result, st.trace)
  | .error e _ => .error e

/-- What packing has done since it started at `s₀`: the buffer has grown as far as the plan
needs it, with zeros from the first length on, and else has only changed in the members. -/
structure Obeys (s₀ t : PackInfo) (y : PlanInfo) : Prop where
  parent : t.parent = y.parent
  calls : t.calls = y.calls
  length : t.length = y.needed
  le : s₀.length ≤ t.length
  cur : t.cur = if t.length = s₀.length then s₀.cur else t.length
  kept : ∀ p ∉ y.footprint, bitAt t.buffer p =
    if t.length ≠ s₀.length ∧ s₀.length ≤ p.1 ∧ (p.1 : ℤ) ≤ t.length then false
    else bitAt s₀.buffer p

/-- The object that is packed is at the position. -/
def ObeysAt (s₀ : PackInfo) (pos : ℤ) (t : PackInfo) (y : PlanInfo) : Prop :=
  Obeys s₀ t y ∧ t.pos = pos

theorem Obeys.of_same {s₀ s t : PackInfo} {y : PlanInfo} (h : Obeys s₀ s y)
    (hparent : t.parent = s.parent) (hcalls : t.calls = s.calls) (hlength : t.length = s.length)
    (hcur : t.cur = s.cur) (hbuffer : t.buffer = s.buffer) : Obeys s₀ t y where
  parent := hparent.trans h.parent
  calls := hcalls.trans h.calls
  length := hlength.trans h.length
  le := hlength ▸ h.le
  cur := by rw [hcur, hlength, h.cur]
  kept p hp := by rw [hbuffer, hlength, h.kept p hp]

theorem ObeysAt.of_same {s₀ s t : PackInfo} {pos : ℤ} {y : PlanInfo} (h : ObeysAt s₀ pos s y)
    (hparent : t.parent = s.parent) (hcalls : t.calls = s.calls) (hlength : t.length = s.length)
    (hcur : t.cur = s.cur) (hbuffer : t.buffer = s.buffer) (hpos : t.pos = s.pos) :
    ObeysAt s₀ pos t y :=
  ⟨h.1.of_same hparent hcalls hlength hcur hbuffer, hpos.trans h.2⟩

/-- The handle after the buffer has grown to a length. -/
def PackInfo.grown (st : PackInfo) (required : ℤ) : PackInfo :=
  { st.emit (.grow st.path required) with
    buffer := fun i => if st.length ≤ i ∧ (i : ℤ) ≤ required then 0 else st.buffer i
    cur := required
    length := required }

theorem get_then {α : Type} {f : PackInfo → Pk α} (s : PackInfo) : (get >>= f) s = f s s := rfl

theorem emit_then {α : Type} {m : Pk α} (e : Event) (s : PackInfo) :
    (emit e >>= fun _ => m) s = m (s.emit e) := rfl

theorem growBuffer_cases (perl : Perl) (size : ℤ) (s : PackInfo) :
    (∃ f, growBuffer perl size s = .error f (s.emit (.grow s.path (u64 (s.pos + size))))) ∨
      (u64 (s.pos + size) ≤ s.length ∧
        growBuffer perl size s = .ok ⟨⟩ (s.emit (.grow s.path (u64 (s.pos + size))))) ∨
      (s.length < u64 (s.pos + size) ∧ u64 (s.pos + size) < perl.memory ∧
        growBuffer perl size s = .ok ⟨⟩ (s.grown (u64 (s.pos + size)))) := by
  unfold growBuffer
  rw [get_then, emit_then]
  split_ifs with hlong hlast hmemory
  · exact .inl ⟨_, rfl⟩
  · exact .inl ⟨_, rfl⟩
  · exact .inr (.inr ⟨hlong, by omega, rfl⟩)
  · exact .inr (.inl ⟨not_lt.mp hlong, rfl⟩)

theorem growBuffer_ok {perl : Perl} {size : ℤ} {s t : PackInfo} {a : Unit}
    (h : growBuffer perl size s = .ok a t) :
    (u64 (s.pos + size) ≤ s.length ∧ t = s.emit (.grow s.path (u64 (s.pos + size)))) ∨
      (s.length < u64 (s.pos + size) ∧ t = s.grown (u64 (s.pos + size))) := by
  rcases growBuffer_cases perl size s with ⟨_, hrun⟩ | ⟨hfits, hrun⟩ | ⟨hlong, _, hrun⟩
  · rw [hrun] at h
    cases h
  · rw [hrun] at h
    cases h
    exact .inl ⟨hfits, rfl⟩
  · rw [hrun] at h
    cases h
    exact .inr ⟨hlong, rfl⟩

section Leaves
variable {perl : Perl} {cbc : CBC} {s₀ s : PackInfo} {pos : ℤ} {x : PlanInfo}

section Values
variable (h : ObeysAt s₀ pos s x) (hpos : 0 ≤ pos)
include h hpos

end Values

end Leaves

section Steps
variable {perl : Perl} {cbc : CBC} {fuel : ℕ} {packType : PackTypeFn} {packStruct : PackStructFn}
  {planType : PlanTypeFn} {planStruct : PlanStructFn} {s₀ : PackInfo}
  (htype : ∀ pos, 0 ≤ pos → ∀ pTS pDecl dimension pBI sv s x, ObeysAt s₀ pos s x →
    Simulates (Obeys s₀) (packType pTS pDecl dimension pBI sv)
      (planType pos pTS pDecl dimension pBI sv) s x)
  (hstruct : ∀ pos, 0 ≤ pos → ∀ t sv inlined s x, ObeysAt s₀ pos s x →
    Simulates (Obeys s₀) (packStruct t sv inlined) (planStruct pos t sv inlined) s x)
  {s : PackInfo} {x : PlanInfo} {pos : ℤ}
include htype

include hstruct

end Steps

/-- A byte without a bit that is in a member. -/
theorem Obeys.byte {s₀ t : PackInfo} {plan : PlanInfo} (h : Obeys s₀ t plan) {i : ℕ}
    (hi : ¬ plan.Covers i) : t.buffer i =
      if t.length ≠ s₀.length ∧ s₀.length ≤ i ∧ (i : ℤ) ≤ t.length then 0 else s₀.buffer i := by
  apply BitVec.eq_of_getLsbD_eq
  intro k hk
  have hbit := h.kept (i, k) fun hmem => hi ⟨k, hk, hmem⟩
  unfold bitAt at hbit
  rw [hbit]
  split_ifs
  · exact BitVec.getLsbD_zero.symm
  · rfl

/-- What packing into a string is good for: the result is as long as the longer one of the
string and what is needed, and keeps the bytes of the string that are in no member. -/
structure PackUpdates (string result : List Byte) (plan : PlanInfo) : Prop where
  length : (result.length : ℤ) = max (string.length : ℤ) plan.needed
  kept : ∀ i < string.length, ¬ plan.Covers i → result[i]? = string[i]?

/-- Nothing beyond the size of the type is needed, or what is needed reaches the end of the
string, which has nothing but zeros there in the bytes that are in no member. -/
structure UpdateFits (size : ℤ) (string : List Byte) (plan : PlanInfo) : Prop where
  reaches : plan.needed ≠ size → (string.length : ℤ) ≤ plan.needed
  zeros : plan.needed ≠ size → ∀ i < string.length, size ≤ i → ¬ plan.Covers i → string[i]? = some 0

theorem PackInfo.result_length {st : PackInfo} (h : 0 ≤ st.cur) : (st.result.length : ℤ) = st.cur := by
  unfold result
  rw [List.length_map, List.length_range, Int.toNat_of_nonneg h]

theorem PackInfo.result_get {st : PackInfo} {i : ℕ} (h : (i : ℤ) < st.cur) :
    st.result[i]? = some (st.buffer i) := by
  unfold result
  rw [List.getElem?_map, List.getElem?_range (by omega)]
  rfl

section Update
variable {mi : MemberInfo} {string : List Byte} {st : PackInfo} {plan : PlanInfo}
  (hsize : 0 ≤ mi.size) (hobeys : Obeys (packInto mi string) st plan)
include hobeys

theorem update_le : mi.size ≤ plan.needed := hobeys.length ▸ hobeys.le

theorem update_cur_of_ne (hneed : plan.needed ≠ mi.size) : st.cur = plan.needed := by
  have hgrown : st.length ≠ mi.size := fun h => hneed (hobeys.length.symm.trans h)
  exact (hobeys.cur.trans (if_neg hgrown)).trans hobeys.length

theorem update_byte {i : ℕ} (hi : i < string.length) (hcovered : ¬ plan.Covers i) :
    some (st.buffer i) = if plan.needed ≠ mi.size ∧ mi.size ≤ i ∧ (i : ℤ) ≤ plan.needed then some 0
      else string[i]? := by
  have hbuffer : (packInto mi string).buffer i = string[i] := by
    show string.getD i 0 = _
    rw [List.getD_eq_getElem?_getD, List.getElem?_eq_getElem hi]
    rfl
  have hbyte := hobeys.byte hcovered
  rw [hobeys.length, hbuffer] at hbyte
  rw [hbyte, List.getElem?_eq_getElem hi]
  show some (if plan.needed ≠ mi.size ∧ mi.size ≤ i ∧ (i : ℤ) ≤ plan.needed then 0
    else string[i]) = _
  split_ifs <;> rfl

include hsize

/-- When it grows, the string ends where the buffer does, and the buffer has zeros from the
size of the type on. -/
theorem update_of_ne (hneed : plan.needed ≠ mi.size) :
    PackUpdates string st.result plan ↔ UpdateFits mi.size string plan := by
  have hcur := update_cur_of_ne hobeys hneed
  have hnonneg : 0 ≤ st.cur := by
    rw [hcur]
    exact hsize.trans (update_le hobeys)
  have hbyte (i : ℕ) (hi : i < string.length) (hlong : (string.length : ℤ) ≤ plan.needed)
      (hcovered : ¬ plan.Covers i) :
      st.result[i]? = if mi.size ≤ i then some 0 else string[i]? := by
    have hlt : (i : ℤ) < plan.needed := (Int.ofNat_lt.mpr hi).trans_le hlong
    rw [PackInfo.result_get (hcur ▸ hlt), update_byte hobeys hi hcovered]
    exact if_congr ⟨fun h => h.2.1, fun h => ⟨hneed, h, hlt.le⟩⟩ rfl rfl
  constructor
  · rintro ⟨hlength, hkept⟩
    rw [PackInfo.result_length hnonneg, hcur] at hlength
    have hlong : (string.length : ℤ) ≤ plan.needed := by
      rw [hlength]
      exact le_max_left _ _
    refine ⟨fun _ => hlong, fun _ i hi hbehind hcovered => ?_⟩
    rw [← hkept i hi hcovered, hbyte i hi hlong hcovered, if_pos hbehind]
  · rintro ⟨hreaches, hzeros⟩
    constructor
    · rw [PackInfo.result_length hnonneg, hcur]
      exact (max_eq_right (hreaches hneed)).symm
    · intro i hi hcovered
      rw [hbyte i hi (hreaches hneed) hcovered]
      split_ifs with hbehind
      · exact (hzeros hneed i hi hbehind hcovered).symm
      · rfl

end Update

end ConvertBinaryC
