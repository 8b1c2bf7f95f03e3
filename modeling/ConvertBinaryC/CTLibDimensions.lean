import ConvertBinaryC.CTLibTypes

/-! A size that is multiplied by the dimensions of an array, which are long values. -/
namespace ConvertBinaryC

/-- Each product is taken as a long and stored in the smaller type of the size. -/
def timesAs (store : ℤ → ℤ) (size : ℤ) (dims : List Value) : Call ℤ :=
  dims.foldlM (fun size pValue => do
    let p ← long (size * pValue.iv)
    .ok (store p)) size

/-- The product of dimensions as it is stored after each factor. -/
def productAs (store : ℤ → ℤ) (m : ℤ) (dims : List Value) : ℤ :=
  dims.foldl (fun m pValue => store (m * pValue.iv)) m

/-- Every product is a long. -/
def FitsAs (store : ℤ → ℤ) : ℤ → List Value → Prop
  | _, [] => True
  | m, pValue :: dims => IsLong (m * pValue.iv) ∧ FitsAs store (store (m * pValue.iv)) dims

instance decidableFitsAs (store : ℤ → ℤ) : ∀ m dims, Decidable (FitsAs store m dims)
  | _, [] => inferInstanceAs (Decidable True)
  | m, pValue :: dims =>
    have := decidableFitsAs store (store (m * pValue.iv)) dims
    inferInstanceAs (Decidable (IsLong (m * pValue.iv) ∧ _))

/-- The loop `size *= dimension` with an int. -/
def timesDims (size : ℤ) (dims : List Value) : Call ℤ := timesAs i32 size dims

/-- The size of one element at a dimension: the inner dimensions, last one first. -/
def elementStride (pDecl : Declarator) (dimension : ℕ) : Call ℤ :=
  timesDims pDecl.item_size (pDecl.dims.drop (dimension + 1)).reverse

abbrev product (m : ℤ) (dims : List Value) : ℤ := productAs i32 m dims

abbrev ProductsFit (m : ℤ) (dims : List Value) : Prop := FitsAs i32 m dims

theorem timesAs_ok_iff {store : ℤ → ℤ} {dims : List Value} {m r : ℤ} :
    timesAs store m dims = .ok r ↔ FitsAs store m dims ∧ r = productAs store m dims := by
  unfold timesAs
  induction dims generalizing m with
  | nil =>
    rw [List.foldlM_nil]
    exact ⟨fun h => ⟨trivial, (Except.ok.inj h).symm⟩, fun h => congrArg _ h.2.symm⟩
  | cons pValue dims ih =>
    rw [List.foldlM_cons, FitsAs, productAs, List.foldl_cons]
    by_cases hlong : IsLong (m * pValue.iv)
    · rw [long, if_pos hlong, call_bind_apply, call_bind_apply, ih]
      exact ⟨fun h => ⟨⟨hlong, h.1⟩, h.2⟩, fun h => ⟨h.1.2, h.2⟩⟩
    · rw [long, if_neg hlong, call_bind_error, call_bind_error]
      exact ⟨fun h => (nomatch h), fun h => absurd h.1.1 hlong⟩

theorem timesDims_ok_iff {dims : List Value} {m r : ℤ} :
    timesDims m dims = .ok r ↔ ProductsFit m dims ∧ r = product m dims := timesAs_ok_iff

/-- A conversion that keeps residues keeps those of products. -/
theorem productAs_modEq {store : ℤ → ℤ} (hstore : ∀ x, store x ≡ x [ZMOD 4294967296]) (m : ℤ)
    (dims : List Value) :
    productAs store m dims ≡ m * (dims.map Value.iv).prod [ZMOD 4294967296] := by
  unfold productAs
  induction dims generalizing m with
  | nil => rw [List.foldl_nil, List.map_nil, List.prod_nil, mul_one]
  | cons v dims ih =>
    rw [List.foldl_cons, List.map_cons, List.prod_cons, ← mul_assoc]
    exact (ih _).trans ((hstore _).mul_right _)

/-- What holds of the size and of all that is stored holds of the product. -/
theorem productAs_induction {store : ℤ → ℤ} {P : ℤ → Prop} (hstore : ∀ x, P (store x)) {m : ℤ}
    (hm : P m) (dims : List Value) : P (productAs store m dims) := by
  unfold productAs
  induction dims generalizing m with
  | nil => exact hm
  | cons v dims ih => exact ih (hstore _)

/-- Storing a product as an int keeps its residue. -/
theorem product_append_modEq {dims : List Value} {d : Value} {n : ℤ}
    (h : product 1 dims ≡ n [ZMOD 4294967296]) :
    product 1 (dims ++ [d]) ≡ n * d.iv [ZMOD 4294967296] := by
  rw [product, productAs, List.foldl_append]
  calc i32 (product 1 dims * d.iv) ≡ product 1 dims * d.iv [ZMOD 4294967296] := Int.bmod_emod
    _ ≡ n * d.iv [ZMOD 4294967296] := h.mul_right _

theorem i32_eq_zero {x : ℤ} : i32 x = 0 ↔ 4294967296 ∣ x := by
  rw [Int.dvd_iff_emod_eq_zero]
  constructor
  · intro h
    have hemod : i32 x % 4294967296 = x % 4294967296 := Int.bmod_emod
    rw [h] at hemod
    exact hemod.symm
  · intro h
    rw [← i32_emod, h]
    rfl

theorem product_modEq (m : ℤ) (dims : List Value) :
    product m dims ≡ m * (dims.map Value.iv).prod [ZMOD 4294967296] :=
  productAs_modEq (fun _ => Int.bmod_emod) m dims

theorem product_int {m : ℤ} (hm : m = i32 m) (dims : List Value) :
    product m dims = i32 (m * (dims.map Value.iv).prod) := by
  have hrange : product m dims = i32 (product m dims) :=
    productAs_induction (P := fun x => x = i32 x) (fun x => (i32_idem x).symm) hm dims
  rw [hrange]
  exact i32_congr (product_modEq m dims)

end ConvertBinaryC
