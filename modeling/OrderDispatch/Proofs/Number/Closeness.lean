import OrderDispatch.Proofs.Number.Distance
import OrderDispatch.Proofs.Number.Places

/-!
# How near the decimal of a double is

Below `2 ^ 96` a double has a decimal of its sign that differs from it by no more than one part in
`2 ^ 48` and a unit in the last of 28 places. What is lost are bits for which there was no room
(`shiftDown_value`), and digits that were dropped: all those beyond the bits of a fraction, and all
those without a place. A double without a fraction loses neither.

    |(ofFloat x).value - signedSize x| ≤ |signedSize x| / 2 ^ 48 + 1 / 10 ^ 28       (ofFloat_near)
-/

namespace OrderDispatch.Decimal

open Binary64 (isFinite size signedSize)

/-- A decimal of the sign of a double is as far from it as their magnitudes are from each other. -/
theorem abs_value_sub_signedSize (x : Float) (m s : Nat) :
    |value ⟨Binary64.isNegative x, m, s⟩ - signedSize x| = |(m : ℚ) / 10 ^ s - size x| := by
  unfold value signed signedSize
  cases Binary64.isNegative x with
  | false => simp
  | true =>
    simp only [if_true]
    rw [← abs_neg]
    congr 1
    push_cast
    ring

/-! ## Dropped digits -/

/-- What settles at some places is near what it was. -/
theorem Settles.error {m k q s : Nat} (h : Settles m k q s) :
    |(q : ℚ) / 10 ^ s - m / 10 ^ k| ≤ m / 10 ^ k / 2 ^ 49 + 5 / 9 / 10 ^ 28 := by
  have hunit := places_pos s
  have hnonneg : (0 : ℚ) ≤ m / 10 ^ k / 2 ^ 49 := by positivity
  have hdropped : |(q : ℚ) / 10 ^ s - m / 10 ^ k| ≤ 5 / 9 / 10 ^ s := by
    have hexact : (m : ℚ) / 10 ^ k = m / 10 ^ (k - s) / 10 ^ s := by
      rw [h.inUnits, mul_div_cancel_left₀ _ hunit.ne']
    rw [hexact, ← sub_div, abs_div, abs_of_pos hunit, h.mantissa]
    exact div_le_div_of_nonneg_right (iterate_dropDigit_error _ m) hunit.le
  by_cases hall : s = k
  · rw [h.mantissa, hall, Nat.sub_self, Function.iterate_zero_apply, sub_self, abs_zero]
    positivity
  by_cases hlast : s = maxScale
  · rw [hlast] at hdropped ⊢
    exact hdropped.trans (le_add_of_nonneg_left hnonneg)
  · -- The mantissa with one digit more is so great that a unit is little next to it.
    have hgreat := h.great hall hlast
    refine hdropped.trans (le_add_of_le_of_nonneg ?_ (by positivity))
    rw [div_le_div_iff₀ hunit (by positivity), mul_comm (_ / _ : ℚ) (10 ^ s)]
    linarith

/-- What vanishes for want of places was small. -/
theorem small_of_gone (m k d : Nat) (hd : d + maxScale < k) (h : dropDigit^[d] m < 10) :
    (m : ℚ) / 10 ^ k ≤ 1 / 10 ^ 28 := by
  have hlast : (dropDigit^[d] m : ℚ) ≤ 9 := by exact_mod_cast Nat.lt_succ_iff.1 h
  have herror := (abs_le.1 (iterate_dropDigit_error d m)).1
  obtain ⟨j, rfl⟩ : ∃ j, k = d + (29 + j) := ⟨k - d - 29, by unfold maxScale at hd; omega⟩
  have hj : (1 : ℚ) ≤ 10 ^ j := one_le_pow₀ (by norm_num)
  rw [pow_add, pow_add, ← div_div, div_le_div_iff₀ (by positivity) (by positivity)]
  linarith

/-! ## Lost bits -/

/-- What the factors of two of a double with a fraction come to. -/
theorem exists_shifted (x : Float) (hfin : isFinite x = true) (hm : Binary64.mantissa x ≠ 0)
    (k : Nat) (hk : k ≠ 0) (he : Binary64.exponent x = -k) :
    ∃ m' k' : Nat,
      ofFloat? x = (settle? m' (-k')).map (fun (m, s) => ⟨Binary64.isNegative x, m, s⟩) ∧
      (m' : ℚ) / 10 ^ k' ≤ size x ∧ size x * (1 - 1 / 2 ^ 80) ≤ m' / 10 ^ k' := by
  obtain ⟨m', k', hshift, hle, hge⟩ := shiftDown_value k (Binary64.mantissa x) k le_rfl
  have hexact : (Binary64.mantissa x : ℚ) * 5 ^ k / 10 ^ k = size x := by
    rw [Binary64.size_of_exponent x k he, show (10 : ℚ) = 2 * 5 by norm_num, mul_pow,
      mul_div_mul_right _ _ (by positivity)]
  rw [hexact] at hle hge
  have hcount : k ≤ 1074 := by
    have := (Binary64.exponent_bounds x hfin).1
    omega
  refine ⟨m', k', ?_, hle, le_trans ?_ hge⟩
  · have hneg : (-(k : ℤ)) < 0 := by omega
    simp only [ofFloat?, hfin, hm, he, Bool.not_true, Bool.false_eq_true, if_false, if_pos hneg,
      neg_neg, Int.toNat_natCast, hshift, Option.bind_some]
  · exact mul_le_mul_of_nonneg_left (le_keep_pow k hcount) (Binary64.size_nonneg x)

/-! ## All doubles -/

/-- A double that is a natural has itself for a decimal. -/
theorem ofFloat?_of_whole (x : Float) (hfin : isFinite x = true) (n : Nat) (hn : size x = n)
    (h : n < limit) : ofFloat? x = some ⟨Binary64.isNegative x, n, 0⟩ := by
  by_cases hm : Binary64.mantissa x = 0
  · obtain rfl : n = 0 := by
      have hzero : (n : ℚ) = 0 := by rw [← hn, size, hm, Nat.cast_zero, zero_mul]
      exact_mod_cast hzero
    exact ofFloat?_of_mantissa x hfin hm
  rcases le_or_gt 0 (Binary64.exponent x) with he | he
  · obtain ⟨k, he⟩ := Int.eq_ofNat_of_zero_le he
    have hmantissa : Binary64.mantissa x * 2 ^ k = n := by
      rw [size, he, zpow_natCast] at hn
      exact_mod_cast hn
    rw [ofFloat?_of_nonneg_exponent x hfin hm k he, hmantissa, if_pos h]
  · obtain ⟨k, hk⟩ := Int.eq_ofNat_of_zero_le (Int.neg_nonneg_of_nonpos he.le)
    have he' : Binary64.exponent x = -k := by omega
    have hmantissa : Binary64.mantissa x = n * 2 ^ k := by
      rw [Binary64.size_of_exponent x k he', div_eq_iff (by positivity)] at hn
      exact_mod_cast hn
    have hneg : (-(k : ℤ)) < 0 := by omega
    simp only [ofFloat?, hfin, hm, he', Bool.not_true, Bool.false_eq_true, if_false, if_pos hneg,
      neg_neg, Int.toNat_natCast]
    rw [hmantissa, shiftDown_mul, neg_add_cancel]
    simp only [Option.bind_some, settle?_whole, Option.map_some]

/-- A double below the bound of all mantissas has a decimal of its sign and near its magnitude. -/
theorem ofFloat?_near (x : Float) (hfin : isFinite x = true) (h : size x < 2 ^ 96) :
    ∃ m s, ofFloat? x = some ⟨Binary64.isNegative x, m, s⟩ ∧
      |(m : ℚ) / 10 ^ s - size x| ≤ size x / 2 ^ 48 + 1 / 10 ^ 28 ∧
      ∀ n : Nat, size x = n → (m : ℚ) / 10 ^ s = n := by
  have hnonneg := Binary64.size_nonneg x
  by_cases hwhole : ∃ n : Nat, size x = n
  · obtain ⟨n, hn⟩ := hwhole
    have hroom : n < limit := by
      rw [hn] at h
      rw [limit_eq]
      exact_mod_cast h
    refine ⟨n, 0, ofFloat?_of_whole x hfin n hn hroom, ?_⟩
    rw [pow_zero, div_one, ← hn, sub_self, abs_zero]
    exact ⟨by positivity, fun _ hn' => hn'⟩
  -- Only a negative exponent makes a fraction.
  have hm : Binary64.mantissa x ≠ 0 := fun hm => hwhole ⟨0, by simp [size, hm]⟩
  have he : Binary64.exponent x < 0 := by
    by_contra hnonneg
    obtain ⟨k, he⟩ := Int.eq_ofNat_of_zero_le (not_lt.1 hnonneg)
    exact hwhole ⟨Binary64.mantissa x * 2 ^ k, by simp [size, he]⟩
  obtain ⟨k, hk⟩ := Int.eq_ofNat_of_zero_le (Int.neg_nonneg_of_nonpos he.le)
  obtain ⟨m', k', hshifted, hle, hge⟩ := exists_shifted x hfin hm k (by omega) (by omega)
  obtain ⟨⟨m, s⟩, hsettle, -, hcases⟩ := settle?_cases m' k'
  refine ⟨m, s, by rw [hshifted, hsettle]; rfl, ?_, fun n hn => absurd ⟨n, hn⟩ hwhole⟩
  have hlost : |(m' : ℚ) / 10 ^ k' - size x| ≤ size x / 2 ^ 80 := by
    rw [abs_le]
    constructor <;> linarith
  rcases hcases with ⟨rfl, d, hd, hgone⟩ | ⟨q, t, hsettles, hvalue⟩
  · have hsmall := small_of_gone m' k' d hd hgone
    rw [Nat.cast_zero, zero_div, zero_sub, abs_neg, abs_of_nonneg hnonneg]
    linarith
  · rw [hvalue]
    calc |(q : ℚ) / 10 ^ t - size x|
        ≤ |(q : ℚ) / 10 ^ t - m' / 10 ^ k'| + |(m' : ℚ) / 10 ^ k' - size x| :=
          abs_sub_le _ _ _
      _ ≤ m' / 10 ^ k' / 2 ^ 49 + 5 / 9 / 10 ^ 28 + size x / 2 ^ 80 :=
        add_le_add hsettles.error hlost
      _ ≤ size x / 2 ^ 48 + 1 / 10 ^ 28 := by linarith

/-- The decimal of a finite double below `2 ^ 96` in magnitude is off by no more than one part in
`2 ^ 48` of it and a unit in the last of 28 places. It is the double itself if that is a whole
number, and it has room in its bits and places. -/
theorem ofFloat_near (x : Float) (hfin : isFinite x = true) (h : |signedSize x| < 2 ^ 96) :
    ofFloat? x = some (ofFloat x) ∧
      |(ofFloat x).value - signedSize x| ≤ 1 / 2 ^ 48 * |signedSize x| + 1 / 10 ^ 28 ∧
      ((∃ z : ℤ, signedSize x = z) → (ofFloat x).value = signedSize x) ∧
      (ofFloat x).mantissa < 2 ^ 96 ∧ (ofFloat x).scale ≤ 28 := by
  rw [Binary64.abs_signedSize] at h ⊢
  obtain ⟨m, s, hsome, hnear, hwhole⟩ := ofFloat?_near x hfin h
  have hof : ofFloat x = ⟨Binary64.isNegative x, m, s⟩ := by rw [ofFloat, hsome, Option.getD_some]
  have hfits := fits_ofFloat x
  refine ⟨by rw [hsome, hof], ?_, ?_, hfits.mantissa, hfits.scale⟩
  · rw [hof, abs_value_sub_signedSize, one_div_mul_eq_div]
    exact hnear
  · rintro ⟨z, hz⟩
    have hnat : size x = (z.natAbs : ℕ) := by
      rw [← Binary64.abs_signedSize, hz, Nat.cast_natAbs, Int.cast_abs]
    rw [← sub_eq_zero, ← abs_eq_zero, hof, abs_value_sub_signedSize, hwhole _ hnat, hnat, sub_self,
      abs_zero]

/-- The double nearest to a tenth is a fraction, and minus three is not. -/
theorem ofFloat_near_tenth :
    isFinite 0.1 = true ∧ |signedSize 0.1| < 2 ^ 96 ∧
      |(1 : ℚ) / 10 - signedSize 0.1| ≤ 1 / 2 ^ 48 * |signedSize 0.1| + 1 / 10 ^ 28 ∧
      isFinite (-3) = true ∧ |signedSize (-3)| < 2 ^ 96 ∧
      (ofFloat (-3)).value = signedSize (-3) := by
  have htenth : isFinite 0.1 = true := by decide
  have hthree : isFinite (-3) = true := by decide
  have hsize : size 0.1 = 7205759403792794 / 2 ^ 56 := by
    have hm : Binary64.mantissa 0.1 = 7205759403792794 := by decide
    rw [Binary64.size_of_exponent 0.1 56 (by decide), hm]
    norm_num
  have hsigned : signedSize (-3) = (-3 : ℤ) := by
    have hm : Binary64.mantissa (-3) = 6755399441055744 := by decide
    have hneg : Binary64.isNegative (-3) = true := by decide
    unfold signedSize
    rw [if_pos hneg, Binary64.size_of_exponent (-3) 51 (by decide), hm]
    norm_num
  have hroom : |signedSize 0.1| < 2 ^ 96 := by
    rw [Binary64.abs_signedSize, hsize]
    norm_num
  have hroom' : |signedSize (-3)| < 2 ^ 96 := by
    rw [hsigned]
    norm_num
  have hdecimal : ofFloat 0.1 = ⟨false, 1, 1⟩ := by decide
  obtain ⟨-, hnear, -⟩ := ofFloat_near 0.1 htenth hroom
  obtain ⟨-, -, hwhole, -⟩ := ofFloat_near (-3) hthree hroom'
  rw [hdecimal, value_nonneg, pow_one, Nat.cast_one] at hnear
  exact ⟨htenth, hroom, hnear, hthree, hroom', hwhole ⟨-3, hsigned⟩⟩

end OrderDispatch.Decimal
