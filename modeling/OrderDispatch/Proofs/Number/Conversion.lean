import OrderDispatch.Proofs.Number.Comparison
import OrderDispatch.Proofs.Number.Value

/-!
# The decimal of a double

Which doubles have a decimal, and that the decimal of a double is not below any natural that the
double is not below: every step of the conversion keeps the mantissa above the natural, scaled to
the places of the mantissa.

    ofFloat? x = none ↔ 2 ^ 96 ≤ size x                     (ofFloat?_eq_none_iff)
    n ≤ size x → size x < 2 ^ 96 → n ≤ (ofFloat x).value     (natCast_le_ofFloat)

A double of `2 ^ 96` or more is taken for zero.
-/

namespace OrderDispatch.Decimal

open Binary64 (IsAmount isFinite size)

/-! ## From great doubles -/

/-- Doubling goes through to the end, or there is no decimal. -/
theorem shiftUp_self (count m : Nat) (h : m < limit) :
    shiftUp count m count = if m * 2 ^ count < limit then some (m * 2 ^ count, 0) else none := by
  induction count generalizing m with
  | zero =>
    rw [pow_zero, mul_one, if_pos h]
    rfl
  | succ count ih =>
    rw [pow_succ', ← mul_assoc, mul_comm m 2]
    unfold shiftUp
    split
    · next hroom =>
      rw [← ih (2 * m) hroom, Nat.cast_succ, add_sub_cancel_right]
    · next hroom =>
      have hgrown : 2 * m ≤ 2 * m * 2 ^ count := Nat.le_mul_of_pos_right _ (Nat.two_pow_pos count)
      rw [if_pos (by push_cast; omega), if_neg (by omega)]

theorem settle?_whole (m : Nat) : settle? m 0 = some (m, 0) := rfl

/-! ## From small doubles -/

/-- Halving a mantissa drops no more than the last bit, which no multiple of two needs. -/
theorem le_shiftDown (count m k : Nat) (hk : count ≤ k) :
    ∃ m' k' : Nat, shiftDown count m (-k) = (m', -(k' : ℤ)) ∧
      ∀ n, n * (2 ^ k * 5 ^ (k - count)) ≤ m → n * 10 ^ k' ≤ m' := by
  induction count generalizing m k with
  | zero =>
    refine ⟨m, k, rfl, fun n h => ?_⟩
    rwa [Nat.sub_zero, ← mul_pow] at h
  | succ count ih =>
    obtain ⟨j, rfl⟩ : ∃ j, k = j + 1 := ⟨k - 1, by omega⟩
    have hhalf : ∃ m' k' : Nat, shiftDown count (m / 2) (-(j + 1 : ℕ) + 1) = (m', -(k' : ℤ)) ∧
        ∀ n, n * (2 ^ (j + 1) * 5 ^ (j + 1 - (count + 1))) ≤ m → n * 10 ^ k' ≤ m' := by
      obtain ⟨m', k', hshift, hle⟩ := ih (m / 2) j (by omega)
      refine ⟨m', k', ?_, fun n h => hle n ?_⟩
      · rw [← hshift]
        congr 1
        push_cast
        ring
      · rw [Nat.le_div_iff_mul_le (by decide)]
        rw [Nat.add_sub_add_right, pow_succ] at h
        calc n * (2 ^ j * 5 ^ (j - count)) * 2 = n * (2 ^ j * 2 * 5 ^ (j - count)) := by ring
          _ ≤ m := h
    unfold shiftDown
    split
    · exact hhalf
    · split
      · obtain ⟨m', k', hshift, hle⟩ := ih (5 * m) (j + 1) (by omega)
        refine ⟨m', k', hshift, fun n h => hle n ?_⟩
        rw [show j + 1 - count = j + 1 - (count + 1) + 1 by omega, pow_succ]
        calc n * (2 ^ (j + 1) * (5 ^ (j + 1 - (count + 1)) * 5))
            = 5 * (n * (2 ^ (j + 1) * 5 ^ (j + 1 - (count + 1)))) := by ring
          _ ≤ 5 * m := Nat.mul_le_mul_left 5 h
      · exact hhalf

theorem le_dropDigit (n places m : Nat) (h : n * 10 ^ (places + 1) ≤ m) :
    n * 10 ^ places ≤ dropDigit m := by
  rw [pow_succ, ← mul_assoc] at h
  have hdiv : n * 10 ^ places ≤ m / 10 := (Nat.le_div_iff_mul_le (by decide)).2 h
  unfold dropDigit
  split <;> omega

theorem le_fitScale (n count m : Nat) (h : n * 10 ^ (count + maxScale) ≤ m) :
    n * 10 ^ (fitScale count m).2 ≤ (fitScale count m).1 := by
  induction count generalizing m with
  | zero =>
    rw [Nat.zero_add] at h
    exact h
  | succ count ih =>
    rw [Nat.add_right_comm] at h
    unfold fitScale
    split
    · next hgone =>
      -- Only a number below one vanishes on the way.
      have hten : 10 ≤ 10 ^ (count + maxScale + 1) := Nat.le_self_pow (by omega) 10
      obtain rfl : n = 0 := by
        by_contra hn
        have hle : 10 ^ (count + maxScale + 1) ≤ n * 10 ^ (count + maxScale + 1) :=
          Nat.le_mul_of_pos_left _ (Nat.pos_of_ne_zero hn)
        omega
      rw [Nat.zero_mul]
    · exact ih _ (le_dropDigit n _ m h)

theorem le_dropExcess (n places m : Nat) (h : n * 10 ^ places ≤ m) :
    n * 10 ^ (dropExcess places m).2 ≤ (dropExcess places m).1 := by
  induction places generalizing m with
  | zero => exact h
  | succ places ih =>
    unfold dropExcess
    split
    · exact ih _ (le_dropDigit n places m h)
    · exact h

theorem le_dropZeros (n places m : Nat) (h : n * 10 ^ places ≤ m) :
    n * 10 ^ (dropZeros places m).2 ≤ (dropZeros places m).1 := by
  induction places generalizing m with
  | zero => exact h
  | succ places ih =>
    unfold dropZeros
    split
    · refine ih _ ((Nat.le_div_iff_mul_le (by decide)).2 ?_)
      rwa [pow_succ, ← mul_assoc] at h
    · exact h

/-- A number without a factor of ten always has a decimal. -/
theorem le_settle? (m k : Nat) :
    ∃ r, settle? m (-k) = some r ∧ ∀ n, n * 10 ^ k ≤ m → n * 10 ^ r.2 ≤ r.1 := by
  have hplaces : (-(-(k : ℤ))).toNat = k := by omega
  unfold settle?
  rw [if_neg (by omega), hplaces]
  by_cases hscale : maxScale < k
  · simp only [if_pos hscale]
    refine ⟨_, rfl, fun n h => le_dropZeros n _ _ (le_dropExcess n _ _ (le_fitScale n _ _ ?_))⟩
    rwa [Nat.sub_add_cancel hscale.le]
  · simp only [if_neg hscale]
    exact ⟨_, rfl, fun n h => le_dropZeros n _ _ (le_dropExcess n _ _ h)⟩

/-! ## All doubles -/

theorem mantissa_lt_limit (x : Float) : Binary64.mantissa x < limit :=
  (Binary64.mantissa_lt x).trans (by decide)

theorem ofFloat?_of_mantissa (x : Float) (hfin : isFinite x = true)
    (hm : Binary64.mantissa x = 0) : ofFloat? x = some ⟨Binary64.isNegative x, 0, 0⟩ := by
  simp [ofFloat?, hfin, hm]

/-- A double without places has itself for a decimal, as far as there is room. -/
theorem ofFloat?_of_nonneg_exponent (x : Float) (hfin : isFinite x = true)
    (hm : Binary64.mantissa x ≠ 0) (k : Nat) (he : Binary64.exponent x = k) :
    ofFloat? x =
      if Binary64.mantissa x * 2 ^ k < limit then
        some ⟨Binary64.isNegative x, Binary64.mantissa x * 2 ^ k, 0⟩
      else none := by
  simp only [ofFloat?, hfin, hm, he, Bool.not_true, Bool.false_eq_true, if_false,
    if_neg (Int.not_lt.2 k.cast_nonneg), Int.toNat_natCast]
  rw [shiftUp_self k _ (mantissa_lt_limit x)]
  split <;> simp [settle?_whole]

/-- A double with places always has a decimal. -/
theorem ofFloat?_of_neg_exponent (x : Float) (hfin : isFinite x = true)
    (hm : Binary64.mantissa x ≠ 0) (k : Nat) (hk : k ≠ 0) (he : Binary64.exponent x = -k) :
    ∃ m s, ofFloat? x = some ⟨Binary64.isNegative x, m, s⟩ ∧
      ∀ n, n * 2 ^ k ≤ Binary64.mantissa x → n * 10 ^ s ≤ m := by
  obtain ⟨m', k', hshift, hle'⟩ := le_shiftDown k (Binary64.mantissa x) k le_rfl
  obtain ⟨⟨m, s⟩, hsettle, hle⟩ := le_settle? m' k'
  refine ⟨m, s, ?_, fun n h => hle n (hle' n ?_)⟩
  · have hneg : (-(k : ℤ)) < 0 := by omega
    simp only [ofFloat?, hfin, hm, he, Bool.not_true, Bool.false_eq_true, if_false, if_pos hneg,
      neg_neg, Int.toNat_natCast, hshift, Option.bind_some, hsettle, Option.map_some]
  · rwa [Nat.sub_self, pow_zero, mul_one]

/-- A finite double is too great for a decimal, or it has one of its sign that is not below any
natural that the double is not below. -/
theorem ofFloat?_cases (x : Float) (hfin : isFinite x = true) :
    2 ^ 96 ≤ size x ∧ ofFloat? x = none ∨
      size x < 2 ^ 96 ∧ ∃ m s, ofFloat? x = some ⟨Binary64.isNegative x, m, s⟩ ∧
        ∀ n : Nat, (n : ℚ) ≤ size x → n * 10 ^ s ≤ m := by
  by_cases hm : Binary64.mantissa x = 0
  · have hsize : size x = 0 := by simp [size, hm]
    refine .inr ⟨by rw [hsize]; positivity, 0, 0, ofFloat?_of_mantissa x hfin hm, fun n hn => ?_⟩
    rw [hsize] at hn
    rw [pow_zero, mul_one]
    exact_mod_cast hn
  rcases le_or_gt 0 (Binary64.exponent x) with he | he
  · obtain ⟨k, he⟩ := Int.eq_ofNat_of_zero_le he
    have hsize : size x = ((Binary64.mantissa x * 2 ^ k : ℕ) : ℚ) := by
      simp [size, he]
    rw [ofFloat?_of_nonneg_exponent x hfin hm k he, hsize]
    split
    · next hroom =>
      rw [limit_eq] at hroom
      refine .inr ⟨by exact_mod_cast hroom, _, _, rfl, fun n hn => ?_⟩
      rw [pow_zero, mul_one]
      exact_mod_cast hn
    · next hroom =>
      rw [limit_eq, Nat.not_lt] at hroom
      exact .inl ⟨by exact_mod_cast hroom, rfl⟩
  · obtain ⟨k, hk⟩ := Int.eq_ofNat_of_zero_le (Int.neg_nonneg_of_nonpos he.le)
    have hexp : Binary64.exponent x = -k := by omega
    have hsize : size x = Binary64.mantissa x / 2 ^ k := by
      simp [size, hexp, div_eq_mul_inv]
    have hpos : (0 : ℚ) < 2 ^ k := by positivity
    obtain ⟨m, s, hsome, hle⟩ := ofFloat?_of_neg_exponent x hfin hm k (by omega) hexp
    refine .inr ⟨?_, m, s, hsome, fun n hn => hle n ?_⟩
    · have hlt : (Binary64.mantissa x : ℚ) < 2 ^ 96 := by
        exact_mod_cast (Binary64.mantissa_lt x).trans (by decide)
      rw [hsize]
      exact (div_le_self (Nat.cast_nonneg _) (one_le_pow₀ one_le_two)).trans_lt hlt
    · rw [hsize, le_div_iff₀ hpos] at hn
      exact_mod_cast hn

theorem ofFloat?_eq_none_iff (x : Float) (hfin : isFinite x = true) :
    ofFloat? x = none ↔ 2 ^ 96 ≤ size x := by
  rcases ofFloat?_cases x hfin with ⟨hsize, hnone⟩ | ⟨hsize, m, s, hsome, -⟩
  · exact iff_of_true hnone hsize
  · exact iff_of_false (by simp [hsome]) hsize.not_ge

/-- A double that is too great is taken for zero. -/
theorem ofFloat_of_le_size (x : Float) (hfin : isFinite x = true) (h : 2 ^ 96 ≤ size x) :
    ofFloat x = zero := by
  rw [ofFloat, (ofFloat?_eq_none_iff x hfin).2 h, Option.getD_none]

/-- The decimal of an amount is not below any natural that the amount is not below, if it is not too
great. -/
theorem natCast_le_ofFloat (n : Nat) (x : Float) (h : IsAmount x) (hroom : size x < 2 ^ 96)
    (hn : (n : ℚ) ≤ size x) : (n : ℚ) ≤ (ofFloat x).value := by
  rcases ofFloat?_cases x h.isFinite with ⟨hgreat, -⟩ | ⟨-, m, s, hsome, hle⟩
  · exact absurd hgreat hroom.not_ge
  rcases h.sign with hzero | hsign
  · rw [ofFloat, ofFloat?_of_mantissa x h.isFinite hzero, Option.getD_some, value_zero _ rfl]
    simpa [size, hzero] using hn
  · rw [ofFloat, hsome, Option.getD_some, hsign, value_nonneg, le_div_iff₀ (places_pos s)]
    exact_mod_cast hle n hn

/-- The decimal of an amount is not below zero. -/
theorem value_ofFloat_nonneg (x : Float) (h : IsAmount x) : 0 ≤ (ofFloat x).value := by
  rcases lt_or_ge (size x) (2 ^ 96) with hroom | hgreat
  · exact_mod_cast natCast_le_ofFloat 0 x h hroom (by exact_mod_cast Binary64.size_nonneg x)
  · rw [ofFloat_of_le_size x h.isFinite hgreat, value_zero zero rfl]

end OrderDispatch.Decimal
