import OrderDispatch.Proofs.Number.Nearest
import OrderDispatch.Proofs.Number.Value

/-!
# The error of decimal arithmetic

A product or a sum loses the least count of places with which it has room. What is left is off by at
most half a unit in its last place, and that is little next to the number itself: either all 28
places are left, or one place more would have taken the mantissa to `2 ^ 96`.

    a.mul b = .ok c → |c.value - a.value * b.value| ≤ (1 + a.value * b.value) / 10 ^ 28   (mul_error)
    a.add b = .ok c → |c.value - (a.value + b.value)| ≤ (1 + a.value + b.value) / 10 ^ 28 (add_error)

for exact results that are not negative. A result that has room, be it once zeros at its end are
dropped, loses nothing at all.
-/

namespace OrderDispatch.Decimal

/-! ## The least count of places -/

theorem reduceFrom_least (m scale fuel dropped : Nat) (h : fuel + dropped = scale + 1)
    (r : Nat × Nat) (hr : reduceFrom m scale fuel dropped = some r) :
    ∃ k ≤ scale, r = (roundHalfEven m (10 ^ k), scale - k) ∧
      ∀ j, dropped ≤ j → j < k → ¬ Room (roundHalfEven m (10 ^ j)) (scale - j) := by
  induction fuel generalizing dropped with
  | zero => cases hr
  | succ fuel ih =>
    unfold reduceFrom at hr
    simp only at hr
    split at hr
    · cases hr
      exact ⟨dropped, by omega, rfl, fun j hj hlt => absurd hlt (Nat.not_lt.2 hj)⟩
    · next hroom =>
      obtain ⟨k, hk, hreduced, hleast⟩ := ih (dropped + 1) (by omega) hr
      refine ⟨k, hk, hreduced, fun j hj hlt => ?_⟩
      rcases hj.eq_or_lt with rfl | hj
      · exact fun hfits => hroom ⟨hfits.mantissa, hfits.scale⟩
      · exact hleast j hj hlt

/-- What there is room for has lost no more places than it must. -/
theorem reduce_least (m scale : Nat) (r : Nat × Nat) (h : reduce m scale = some r) :
    ∃ k ≤ scale, r = (roundHalfEven m (10 ^ k), scale - k) ∧
      ∀ j < k, ¬ Room (roundHalfEven m (10 ^ j)) (scale - j) := by
  obtain ⟨k, hk, hreduced, hleast⟩ := reduceFrom_least m scale (scale + 1) 0 rfl r h
  exact ⟨k, hk, hreduced, fun j => hleast j (Nat.zero_le j)⟩

/-! ## The unit in the last place -/

theorem roundHalfEven_one (m : Nat) : roundHalfEven m 1 = m := by
  simp [roundHalfEven, Nat.mod_one]

/-- A number that is rounded to so many places is off by half a unit in the last place. -/
theorem round_error (m k s : Nat) :
    |(roundHalfEven m (10 ^ k) : ℚ) / 10 ^ s - m / 10 ^ (k + s)| ≤ 1 / 2 / 10 ^ s := by
  have herror := Binary64.roundHalfEven_error m (10 ^ k) (Nat.pow_pos (by decide))
  have hsplit : (m : ℚ) / 10 ^ (k + s) = m / ((10 ^ k : ℕ) : ℚ) / 10 ^ s := by
    rw [pow_add, div_mul_eq_div_div]
    norm_cast
  rw [hsplit, ← sub_div, abs_div, abs_of_pos (places_pos s)]
  exact div_le_div_of_nonneg_right herror (places_pos s).le

/-- Where one place more has no room, a unit in the last place is little next to the number. -/
theorem unit_le (m j s : Nat) (h : ¬ Room (roundHalfEven m (10 ^ j)) (s + 1)) :
    1 / 2 / 10 ^ s ≤ (1 + (m : ℚ) / 10 ^ (j + 1 + s)) / 10 ^ 28 := by
  have hnonneg : 0 ≤ (m : ℚ) / 10 ^ (j + 1 + s) := by positivity
  have hfull : limit ≤ roundHalfEven m (10 ^ j) ∨ 28 ≤ s := by
    by_contra hroom
    rw [not_or, not_le, not_le] at hroom
    exact h ⟨hroom.1, hroom.2⟩
  rcases hfull with hbits | hplaces
  · have hceiling := (ceiling_le_div_iff m j).2 ((le_roundHalfEven_limit m j).1 hbits)
    have hsplit : (m : ℚ) / 10 ^ (j + 1 + s) = m / 10 ^ j / (10 * 10 ^ s) := by
      rw [div_div, pow_add, pow_succ, mul_assoc]
    have hgreat : 5 * 10 ^ 28 ≤ (m : ℚ) / 10 ^ j := by
      refine le_trans ?_ hceiling
      norm_num [ceiling]
    rw [hsplit] at hnonneg ⊢
    rw [le_div_iff₀ (by positivity)]
    calc (1 / 2 / 10 ^ s * 10 ^ 28 : ℚ) = 5 * 10 ^ 28 / (10 * 10 ^ s) := by
          rw [div_mul_eq_mul_div, div_mul_eq_div_div]
          norm_num
      _ ≤ (m : ℚ) / 10 ^ j / (10 * 10 ^ s) := div_le_div_of_nonneg_right hgreat (by positivity)
      _ ≤ 1 + (m : ℚ) / 10 ^ j / (10 * 10 ^ s) := le_add_of_nonneg_left zero_le_one
  · have hten : (10 : ℚ) ^ 28 ≤ 10 ^ s := pow_le_pow_right₀ (by norm_num) hplaces
    calc (1 / 2 / 10 ^ s : ℚ) ≤ 1 / 2 / 10 ^ 28 :=
          div_le_div_of_nonneg_left (by norm_num) (by positivity) hten
      _ ≤ (1 + (m : ℚ) / 10 ^ (j + 1 + s)) / 10 ^ 28 :=
        div_le_div_of_nonneg_right (by linarith) (by positivity)

/-- What there is room for is little off. -/
theorem reduce_error (m scale : Nat) (r : Nat × Nat) (h : reduce m scale = some r) :
    |(r.1 : ℚ) / 10 ^ r.2 - m / 10 ^ scale| ≤ (1 + (m : ℚ) / 10 ^ scale) / 10 ^ 28 := by
  obtain ⟨k, hk, rfl, hleast⟩ := reduce_least m scale r h
  obtain ⟨s, rfl⟩ := Nat.exists_eq_add_of_le hk
  simp only [Nat.add_sub_cancel_left] at hleast ⊢
  cases k with
  | zero =>
    rw [pow_zero, roundHalfEven_one, Nat.zero_add, sub_self, abs_zero]
    positivity
  | succ j =>
    refine (round_error m (j + 1) s).trans (unit_le m j s ?_)
    have hroom := hleast j (Nat.lt_succ_self j)
    rwa [show j + 1 + s - j = s + 1 by omega] at hroom

/-! ## Products and sums -/

theorem mul_error (a b c : Decimal) (h : 0 ≤ a.value * b.value) (hc : a.mul b = .ok c) :
    |c.value - a.value * b.value| ≤ (1 + a.value * b.value) / 10 ^ 28 := by
  rcases mul_cases a b with ⟨hzero, hmul⟩ | ⟨m, scale, _, habs, hsign, hmul⟩
  · cases hmul.symm.trans hc
    rw [hzero, value_zero zero rfl, sub_zero, abs_zero]
    positivity
  · rw [abs_of_nonneg h] at habs
    rw [hmul, hsign h] at hc
    split at hc
    · next m scale hreduce =>
      cases hc
      have herror := reduce_error _ _ _ hreduce
      rw [Bool.and_false, value_nonneg, habs]
      exact herror
    · cases hc

theorem add_error (a b c : Decimal) (h : 0 ≤ a.value + b.value) (hc : a.add b = .ok c) :
    |c.value - (a.value + b.value)| ≤ (1 + (a.value + b.value)) / 10 ^ 28 := by
  have hexact : ∀ v : ℚ, 0 ≤ v → |v - v| ≤ (1 + v) / 10 ^ 28 := by
    intro v hv
    rw [sub_self, abs_zero]
    positivity
  rcases add_cases a b with ⟨hzero, hadd⟩ | ⟨hzero, hadd⟩ | ⟨total, scale, hsum, hadd⟩
  · cases hadd.symm.trans hc
    rw [hzero, zero_add] at h ⊢
    exact hexact _ h
  · cases hadd.symm.trans hc
    rw [hzero, add_zero] at h ⊢
    exact hexact _ h
  · have htotal : 0 ≤ total := by
      rw [hsum, le_div_iff₀ (places_pos scale), zero_mul] at h
      exact_mod_cast h
    obtain ⟨n, rfl⟩ := Int.eq_ofNat_of_zero_le htotal
    rw [hadd] at hc
    split at hc
    · next m scale hreduce =>
      cases hc
      have herror := reduce_error _ _ _ hreduce
      rw [decide_eq_false (by omega), value_nonneg, hsum]
      exact herror
    · cases hc

/-! ## Nothing lost -/

/-- What has room as it is stays as it is. -/
theorem reduce_exact (m scale : Nat) (h : Room m scale) : reduce m scale = some (m, scale) := by
  unfold reduce reduceFrom
  simp only [pow_zero, roundHalfEven_one, Nat.sub_zero]
  exact if_pos ⟨h.mantissa, h.scale⟩

theorem roundHalfEven_mul (n den : Nat) (hden : 0 < den) : roundHalfEven (n * den) den = n :=
  Nat.le_antisymm (roundHalfEven_le n _ den hden le_rfl) (le_roundHalfEven n _ den hden le_rfl)

/-- What has room once zeros at its end are dropped is the same number. -/
theorem reduce_value (n j scale : Nat) (hj : j ≤ scale) (h : Room n (scale - j)) :
    ∃ r, reduce (n * 10 ^ j) scale = some r ∧
      (r.1 : ℚ) / 10 ^ r.2 = ((n * 10 ^ j : ℕ) : ℚ) / 10 ^ scale := by
  have hten : ∀ k, 0 < 10 ^ k := fun k => Nat.pow_pos (by decide)
  cases hreduce : reduce (n * 10 ^ j) scale with
  | none =>
    have hgreat := (reduce_eq_none_iff _ _).1 hreduce
    have hsmall : n * 10 ^ j ≤ (limit - 1) * 10 ^ scale :=
      Nat.mul_le_mul (Nat.le_sub_one_of_lt h.mantissa) (Nat.pow_le_pow_right (by decide) hj)
    have hscale := hten scale
    rw [limit_eq] at hgreat hsmall
    omega
  | some r =>
    obtain ⟨k, hk, rfl, hleast⟩ := reduce_least _ _ _ hreduce
    refine ⟨_, rfl, ?_⟩
    -- No more places are dropped than there are zeros.
    have hkj : k ≤ j := by
      by_contra hlt
      refine hleast j (Nat.lt_of_not_le hlt) ?_
      rwa [roundHalfEven_mul n _ (hten j)]
    obtain ⟨i, rfl⟩ := Nat.exists_eq_add_of_le hkj
    obtain ⟨s, rfl⟩ := Nat.exists_eq_add_of_le hk
    rw [add_comm k i, pow_add, ← mul_assoc, roundHalfEven_mul _ _ (hten k), Nat.add_sub_cancel_left]
    push_cast
    rw [pow_add 10 k s, mul_comm (10 ^ k : ℚ) (10 ^ s), mul_div_mul_right _ _ (places_pos k).ne']

/-- A product with room is the plain one. -/
theorem mul_exact (a b : Decimal) (ha : a.mantissa ≠ 0) (hb : b.mantissa ≠ 0)
    (hsign : a.isNegative = b.isNegative)
    (h : Room (a.mantissa * b.mantissa) (a.scale + b.scale)) :
    a.mul b = .ok ⟨false, a.mantissa * b.mantissa, a.scale + b.scale⟩ := by
  unfold mul
  rw [if_neg (not_or.2 ⟨ha, hb⟩), reduce_exact _ _ h]
  simp only [hsign, bne_self_eq_false, Bool.and_false]

/-- A product that has room once zeros at its end are dropped is the same number. -/
theorem mul_value (a b : Decimal) (n j : Nat) (h : 0 ≤ a.value * b.value)
    (hmantissa : a.mantissa * b.mantissa = n * 10 ^ j) (hj : j ≤ a.scale + b.scale)
    (hroom : Room n (a.scale + b.scale - j)) (c : Decimal) (hc : a.mul b = .ok c) :
    c.value = a.value * b.value := by
  unfold mul at hc
  split at hc
  · next hzero =>
    cases hc
    rw [value_zero zero rfl]
    rcases hzero with ha | hb
    · rw [value_zero a ha, zero_mul]
    · rw [value_zero b hb, mul_zero]
  · next hzero =>
    obtain ⟨ha, hb⟩ := not_or.1 hzero
    obtain ⟨r, hr, hvalue⟩ := reduce_value n j _ hj hroom
    rw [hmantissa, hr, isNegative_eq_of_mul_nonneg a b ha hb h] at hc
    simp only [bne_self_eq_false, Bool.and_false] at hc
    cases hc
    rw [value_nonneg, hvalue, ← hmantissa, ← abs_value_mul, abs_of_nonneg h]

/-- A sum with room is the plain one, at the greater scale. -/
theorem add_exact (m s n p : Nat) (hm : m = 0 → s = 0) (hn : n = 0 → p = 0)
    (h : Room (m * 10 ^ (max s p - s) + n * 10 ^ (max s p - p)) (max s p)) :
    add ⟨false, m, s⟩ ⟨false, n, p⟩ =
      .ok ⟨false, m * 10 ^ (max s p - s) + n * 10 ^ (max s p - p), max s p⟩ := by
  unfold add
  split
  · next hzero =>
    obtain rfl : m = 0 := hzero
    obtain rfl := hm rfl
    simp
  split
  · next hzero =>
    obtain rfl : n = 0 := hzero
    obtain rfl := hn rfl
    simp
  · have htotal : signed ⟨false, m, s⟩ * 10 ^ (max s p - s) +
        signed ⟨false, n, p⟩ * 10 ^ (max s p - p) =
        ((m * 10 ^ (max s p - s) + n * 10 ^ (max s p - p) : ℕ) : ℤ) := by
      push_cast
      rfl
    simp only [htotal, Int.natAbs_natCast, reduce_exact _ _ h]
    rw [decide_eq_false (by omega)]

end OrderDispatch.Decimal
