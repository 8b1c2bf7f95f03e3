import ConvertBinaryC.CTLibLayout

/-! What `get_type_info` reports about a declarator (`ctlib/layout.c`). -/
namespace ConvertBinaryC

/-- The size of an array that the code computes if every product is a long. -/
abbrev unsignedProduct (size : ℤ) (dims : List Value) : ℤ := productAs u32 size dims

theorem arraySize_ok_iff {size r : ℤ} {dims : List Value} :
    arraySize size dims = .ok r ↔ FitsAs u32 size dims ∧ r = unsignedProduct size dims :=
  timesAs_ok_iff

theorem unsignedProduct_modEq (m : ℤ) (dims : List Value) :
    unsignedProduct m dims ≡ m * (dims.map Value.iv).prod [ZMOD 4294967296] :=
  productAs_modEq (fun _ => Int.mod_modEq _ _) m dims

theorem unsignedProduct_range {size : ℤ} (hsize : 0 ≤ size) (hlt : size < 4294967296)
    (dims : List Value) : 0 ≤ unsignedProduct size dims ∧ unsignedProduct size dims < 4294967296 :=
  productAs_induction (P := fun x => 0 ≤ x ∧ x < 4294967296)
    (fun x => ⟨u32_nonneg x, u32_lt x⟩) ⟨hsize, hlt⟩ dims

@[simp] theorem TypeInfo.declare_nil (info : TypeInfo) :
    info.declare [] = .ok { info with item_size := info.size } := by
  unfold declare
  rw [List.any_nil, Bool.or_false]
  rfl

theorem TypeInfo.declare_ok_iff {info info' : TypeInfo} {dims : List Value} :
    info.declare dims = .ok info' ↔ FitsAs u32 info.size dims ∧ info' = { info with
      item_size := info.size
      size := unsignedProduct info.size dims
      riskyVal := info.riskyVal || dims.any Value.risky } := by
  constructor
  · intro h
    obtain ⟨size, hsize, h⟩ := FoldRules.bind_ok h
    obtain ⟨hfits, rfl⟩ := arraySize_ok_iff.mp hsize
    exact ⟨hfits, (Except.ok.inj h).symm⟩
  · rintro ⟨hfits, rfl⟩
    unfold declare
    rw [arraySize_ok_iff.mpr ⟨hfits, rfl⟩]
    rfl

section Declare
variable {arch : NativeArch} {pLP : LayoutParam}

/-- Without a pointer the type is asked for, and the dimensions are applied to it. -/
theorem getTypeInfo_declare (fuel : ℕ) (st : LayoutState) (type : TypeSpec) {d : Declarator}
    (hplain : d.pointer_flag = false) :
    getTypeInfo arch pLP fuel st type (some d) = (getTypeInfo arch pLP fuel st type none >>= fun r =>
      r.2.declare d.dims >>= fun info => .ok (r.1, info)) := by
  cases fuel with
  | zero => rfl
  | succ fuel =>
    have hflag : (some d).any Declarator.pointer_flag = (none : Option Declarator).any
        Declarator.pointer_flag := hplain
    unfold getTypeInfo
    rw [hflag, bind_assoc]
    congr 1
    funext ⟨st', info⟩
    dsimp only [Option.map_none, Option.getD_none]
    rw [TypeInfo.declare_nil]
    rfl

end Declare

end ConvertBinaryC
