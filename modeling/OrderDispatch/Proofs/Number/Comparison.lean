import OrderDispatch.Proofs.Number.Operations

/-!
# Doubles compared

Doubles are compared by their exponents first and by their significands then. For those that are not
below zero this is the order of the numbers they are, so that a bound checked on doubles is a bound
on numbers.

    IsAmount x → IsAmount y → (x ≤ y ↔ size x ≤ size y)        (le_iff_size_le)
    IsAmount x → IsAmount y → (x < y ↔ size x < size y)        (lt_iff_size_lt)
-/

namespace OrderDispatch.Binary64

open Float.Model Float.Model.UnpackedFloat

/-- A finite double that is not below zero. -/
structure IsAmount (x : Float) : Prop where
  isFinite : isFinite x = true
  nonneg : ¬ x < 0

theorem lt_iff_unpack (x y : Float) : x < y ↔ x.toModel.unpack.lt y.toModel.unpack = true :=
  decide_eq_true_iff

theorem le_iff_unpack (x y : Float) : x ≤ y ↔ x.toModel.unpack.le y.toModel.unpack = true :=
  decide_eq_true_iff

/-! ## Signs -/

theorem ofBitVec_unpackSign (x : Float) :
    Sign.ofBitVec (@unpackSign Format.binary64 x.toBits.toBitVec) =
      if isNegative x then .negative else .positive := by
  have hsign : signBit = 2 ^ 63 := rfl
  have hbit := toNat_unpackSign x.toBits.toBitVec
  have hlt := (@unpackSign Format.binary64 x.toBits.toBitVec).isLt
  have hzero : @unpackSign Format.binary64 x.toBits.toBitVec = 0#1 ↔ isNegative x = false := by
    rw [← BitVec.toNat_inj]
    unfold isNegative
    rw [hsign, beq_eq_false_iff_ne]
    show _ = 0 ↔ x.toBits.toBitVec.toNat / 2 ^ 63 ≠ 1
    omega
  unfold Sign.ofBitVec
  cases hneg : isNegative x with
  | false => rw [if_pos (hzero.2 hneg), if_neg Bool.false_ne_true]
  | true => rw [if_neg fun h => by simp [hzero.1 h] at hneg, if_pos rfl]

/-- A number is unpacked with the sign of its sign bit. -/
theorem sign_of_unpack (x : Float) (s : Sign) (m : Nat) (e : Int) (hpos : 0 < m)
    (h : x.toModel.unpack = .finite s m e hpos) :
    s = if isNegative x then .negative else .positive := by
  rw [← ofBitVec_unpackSign]
  unfold Float.Model.unpack UnpackedFloat.unpack at h
  simp only at h
  split at h
  · split at h <;> cases h
  · split at h
    · split at h
      · cases h
      · injection h with hs
        exact hs.symm
    · injection h with hs
      exact hs.symm

/-- An amount is a zero or a positive number. -/
theorem IsAmount.unpack (x : Float) (h : IsAmount x) :
    (mantissa x = 0 ∧ ∃ s, x.toModel.unpack = .zero s) ∨
      ∃ hpos, x.toModel.unpack = .finite .positive (mantissa x) (exponent x) hpos := by
  rcases unpack_of_isFinite x h.isFinite with hzero | ⟨s, hpos, hf⟩
  · exact .inl hzero
  · cases s with
    | positive => exact .inr ⟨hpos, hf⟩
    | negative =>
      refine absurd ((lt_iff_unpack x 0).2 ?_) h.nonneg
      rw [hf]
      rfl

/-- The only amount with a minus sign is zero. -/
theorem IsAmount.sign (x : Float) (h : IsAmount x) : mantissa x = 0 ∨ isNegative x = false := by
  rcases h.unpack with ⟨hzero, -⟩ | ⟨hpos, hf⟩
  · exact .inl hzero
  · right
    have hsign := sign_of_unpack x _ _ _ hpos hf
    cases hneg : isNegative x with
    | false => rfl
    | true =>
      rw [hneg] at hsign
      cases hsign

/-! ## Order -/

/-- The double of the greater exponent is the greater one: only at the least exponent is a
significand without its hidden bit. -/
theorem size_lt_of_exponent_lt (x y : Float) (h : exponent x < exponent y) : size x < size y := by
  have hm : (mantissa x : ℚ) < 2 ^ 53 := by exact_mod_cast mantissa_lt x
  have hleast : -1074 ≤ exponent x := by
    unfold exponent
    omega
  have hn : (2 : ℚ) ^ 52 ≤ mantissa y := by
    exact_mod_cast mantissa_of_exponent y (by omega)
  unfold size
  calc (mantissa x : ℚ) * 2 ^ exponent x
      < 2 ^ 53 * 2 ^ exponent x := mul_lt_mul_of_pos_right hm (two_zpow_pos _)
    _ = 2 ^ 52 * 2 ^ (exponent x + 1) := by
      rw [zpow_add_one₀ (by norm_num)]
      ring
    _ ≤ 2 ^ 52 * 2 ^ exponent y :=
      mul_le_mul_of_nonneg_left ((two_zpow_le _ _).2 h) (by norm_num)
    _ ≤ mantissa y * 2 ^ exponent y := mul_le_mul_of_nonneg_right hn (two_zpow_pos _).le

/-- Comparing exponents and then significands compares the numbers. -/
theorem compare_parts (x y : Float) :
    (compare (exponent x) (exponent y)).then (compare (mantissa x) (mantissa y)) =
      compare (size x) (size y) := by
  rcases lt_trichotomy (exponent x) (exponent y) with h | h | h
  · rw [compare_lt_iff_lt.2 h, compare_lt_iff_lt.2 (size_lt_of_exponent_lt x y h)]
    rfl
  · rw [compare_eq_iff_eq.2 h]
    show compare (mantissa x) (mantissa y) = _
    have hpos := two_zpow_pos (exponent y)
    unfold size
    rw [h]
    rcases lt_trichotomy (mantissa x) (mantissa y) with hm | hm | hm
    · rw [compare_lt_iff_lt.2 hm, eq_comm, compare_lt_iff_lt]
      exact mul_lt_mul_of_pos_right (by exact_mod_cast hm) hpos
    · rw [hm, compare_eq_iff_eq.2 rfl, eq_comm, compare_eq_iff_eq]
    · rw [compare_gt_iff_gt.2 hm, eq_comm, compare_gt_iff_gt]
      exact mul_lt_mul_of_pos_right (by exact_mod_cast hm) hpos
  · rw [compare_gt_iff_gt.2 h, compare_gt_iff_gt.2 (size_lt_of_exponent_lt y x h)]
    rfl

/-- Amounts are compared as the numbers they are. -/
theorem compare_unpack (x y : Float) (hx : IsAmount x) (hy : IsAmount y) :
    x.toModel.unpack.compare y.toModel.unpack = some (compare (size x) (size y)) := by
  have hzero : ∀ z, mantissa z = 0 → size z = 0 := by
    intro z hz
    unfold size
    rw [hz, Nat.cast_zero, zero_mul]
  have hpositive : ∀ z, 0 < mantissa z → 0 < size z := by
    intro z hz
    exact mul_pos (by exact_mod_cast hz) (two_zpow_pos _)
  rcases hx.unpack with ⟨hmx, s, hux⟩ | ⟨hmx, hux⟩ <;>
    rcases hy.unpack with ⟨hmy, t, huy⟩ | ⟨hmy, huy⟩ <;> rw [hux, huy]
  · rw [hzero x hmx, hzero y hmy, compare_eq_iff_eq.2 rfl]
    rfl
  · rw [hzero x hmx, compare_lt_iff_lt.2 (hpositive y hmy)]
    rfl
  · rw [hzero y hmy, compare_gt_iff_gt.2 (hpositive x hmx)]
    rfl
  · rw [← compare_parts]
    rfl

theorem le_iff_size_le (x y : Float) (hx : IsAmount x) (hy : IsAmount y) :
    x ≤ y ↔ size x ≤ size y := by
  rw [le_iff_unpack, ← compare_le_iff_le]
  unfold UnpackedFloat.le
  rw [compare_unpack x y hx hy]
  cases compare (size x) (size y) <;> simp

theorem lt_iff_size_lt (x y : Float) (hx : IsAmount x) (hy : IsAmount y) :
    x < y ↔ size x < size y := by
  rw [lt_iff_unpack, ← compare_lt_iff_lt]
  unfold UnpackedFloat.lt
  rw [compare_unpack x y hx hy]
  cases compare (size x) (size y) <;> simp

end OrderDispatch.Binary64
