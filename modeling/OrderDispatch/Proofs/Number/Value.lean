import OrderDispatch.Proofs.Number.Decimal

/-!
# Decimals as numbers

The exact number that a decimal is, and what products and sums of decimals make of it. They have no
room exactly from half below `2 ^ 96` on, and rounding never brings a number past a natural.

    (∃ c, a.mul b = .ok c) ↔ |a.value * b.value| < ceiling     (mul_isOk_iff)
    (∃ c, a.add b = .ok c) ↔ |a.value + b.value| < ceiling     (add_isOk_iff)
    n ≤ a.value * b.value → a.mul b = .ok c → n ≤ c.value       (natCast_le_mul, natCast_le_add)
    |a.value * b.value| ≤ n → a.mul b = .ok c → |c.value| ≤ n   (abs_mul_le, abs_add_le)
-/

namespace OrderDispatch

/-! ## Rounding a quotient -/

/-- Rounding does not bring a quotient below a natural. -/
theorem le_roundHalfEven (n num den : Nat) (hden : 0 < den) (h : n * den ≤ num) :
    n ≤ roundHalfEven num den := by
  have hle : n ≤ num / den := (Nat.le_div_iff_mul_le hden).2 h
  unfold roundHalfEven
  simp only
  split <;> omega

/-- Rounding does not bring a quotient above a natural. -/
theorem roundHalfEven_le (n num den : Nat) (hden : 0 < den) (h : num ≤ n * den) :
    roundHalfEven num den ≤ n := by
  have hdiv := Nat.div_add_mod num den
  have hle : num / den ≤ n := Nat.div_le_of_le_mul (by rwa [mul_comm])
  unfold roundHalfEven
  simp only
  rcases hle.lt_or_eq with hlt | heq
  · split <;> omega
  · -- Nothing is left over that could be rounded up.
    rw [heq, mul_comm den n] at hdiv
    rw [if_neg (by omega), heq]

/-- A quotient is rounded to an even natural, or above it, from half below that natural on. -/
theorem le_roundHalfEven_iff (n num den : Nat) (hden : 0 < den) (heven : n % 2 = 0) (hn : 0 < n) :
    n ≤ roundHalfEven num den ↔ (2 * n - 1) * den ≤ 2 * num := by
  have hdiv := Nat.div_add_mod num den
  have hmod := Nat.mod_lt num hden
  unfold roundHalfEven
  simp only
  generalize num / den = q at hdiv ⊢
  generalize num % den = r at hdiv hmod ⊢
  rcases lt_trichotomy n (q + 1) with hlt | rfl | hgt
  · have hle : (2 * n - 1) * den ≤ (2 * q) * den := Nat.mul_le_mul_right den (by omega)
    rw [show (2 * q) * den = 2 * (den * q) by ring] at hle
    constructor
    · omega
    · split <;> omega
  · -- The natural is the next one above the quotient, which is odd.
    rw [show (2 * (q + 1) - 1) * den = 2 * (den * q) + den by
      rw [show 2 * (q + 1) - 1 = 2 * q + 1 by omega]
      ring]
    split <;> omega
  · have hge : (2 * q + 3) * den ≤ (2 * n - 1) * den := Nat.mul_le_mul_right den (by omega)
    rw [show (2 * q + 3) * den = 2 * (den * q) + 3 * den by ring] at hge
    split <;> omega

namespace Decimal

/-! ## Reducing -/

/-- A mantissa is in the way of a scale if it is too great even without any places. -/
theorem le_roundHalfEven_limit (m scale : Nat) :
    limit ≤ roundHalfEven m (10 ^ scale) ↔ (2 * limit - 1) * 10 ^ scale ≤ 2 * m :=
  le_roundHalfEven_iff limit m _ (Nat.pow_pos (by decide)) (by decide) (by decide)

theorem reduceFrom_eq_none_iff (m scale fuel dropped : Nat) (h : fuel + dropped = scale + 1) :
    reduceFrom m scale fuel dropped = none ↔
      fuel = 0 ∨ (2 * limit - 1) * 10 ^ scale ≤ 2 * m := by
  induction fuel generalizing dropped with
  | zero => simp [reduceFrom]
  | succ fuel ih =>
    have hstep := le_roundHalfEven_limit m dropped
    have hlast := le_roundHalfEven_limit m scale
    have hten : 10 ^ dropped ≤ 10 ^ scale := Nat.pow_le_pow_right (by decide) (by omega)
    have hmono : (2 * limit - 1) * 10 ^ dropped ≤ (2 * limit - 1) * 10 ^ scale :=
      Nat.mul_le_mul_left _ hten
    unfold reduceFrom
    simp only
    split
    · next hroom =>
      simp only [reduceCtorEq, Nat.succ_ne_zero, false_or, false_iff]
      intro htoo
      exact absurd (hstep.2 (hmono.trans htoo)) (Nat.not_le.2 hroom.1)
    · next hroom =>
      rw [ih (dropped + 1) (by omega)]
      simp only [Nat.succ_ne_zero, false_or, or_iff_right_iff_imp]
      rintro rfl
      obtain rfl : dropped = scale := by omega
      rw [Nat.sub_self] at hroom
      exact hlast.1 (Nat.not_lt.1 fun hlt => hroom ⟨hlt, Nat.zero_le _⟩)

/-- There is no room exactly if the number without its places is too great. -/
theorem reduce_eq_none_iff (m scale : Nat) :
    reduce m scale = none ↔ (2 * limit - 1) * 10 ^ scale ≤ 2 * m := by
  unfold reduce
  rw [reduceFrom_eq_none_iff m scale (scale + 1) 0 rfl]
  simp

theorem reduceFrom_eq_some (m scale fuel dropped : Nat) (h : fuel + dropped = scale + 1)
    (r : Nat × Nat) (hr : reduceFrom m scale fuel dropped = some r) :
    ∃ k ≤ scale, r = (roundHalfEven m (10 ^ k), scale - k) := by
  induction fuel generalizing dropped with
  | zero => cases hr
  | succ fuel ih =>
    unfold reduceFrom at hr
    simp only at hr
    split at hr
    · cases hr
      exact ⟨dropped, by omega, rfl⟩
    · exact ih (dropped + 1) (by omega) hr

/-- What there is room for has lost some of its places. -/
theorem reduce_eq_some (m scale : Nat) (r : Nat × Nat) (h : reduce m scale = some r) :
    ∃ k ≤ scale, r = (roundHalfEven m (10 ^ k), scale - k) :=
  reduceFrom_eq_some m scale (scale + 1) 0 rfl r h

/-- A number that is not below a natural is not brought below it. -/
theorem le_reduce (n m scale : Nat) (r : Nat × Nat) (hr : reduce m scale = some r)
    (h : n * 10 ^ scale ≤ m) : n * 10 ^ r.2 ≤ r.1 := by
  obtain ⟨k, hk, rfl⟩ := reduce_eq_some m scale r hr
  apply le_roundHalfEven _ _ _ (Nat.pow_pos (by decide))
  rw [mul_assoc, ← pow_add, Nat.sub_add_cancel hk]
  exact h

/-- A number that is not above a natural is not brought above it. -/
theorem reduce_le (n m scale : Nat) (r : Nat × Nat) (hr : reduce m scale = some r)
    (h : m ≤ n * 10 ^ scale) : r.1 ≤ n * 10 ^ r.2 := by
  obtain ⟨k, hk, rfl⟩ := reduce_eq_some m scale r hr
  apply roundHalfEven_le _ _ _ (Nat.pow_pos (by decide))
  rw [mul_assoc, ← pow_add, Nat.sub_add_cancel hk]
  exact h

/-! ## The number of a decimal -/

/-- The number that a decimal is. -/
def value (a : Decimal) : ℚ := a.signed / 10 ^ a.scale

/-- The least magnitude that has no room. -/
def ceiling : ℚ := 2 ^ 96 - 1 / 2

theorem ceiling_pos : 0 < ceiling := by norm_num [ceiling]

theorem places_pos (scale : Nat) : (0 : ℚ) < 10 ^ scale := by positivity

theorem value_zero (a : Decimal) (h : a.mantissa = 0) : a.value = 0 := by
  unfold value signed
  rw [h]
  split <;> simp

theorem abs_value (a : Decimal) : |a.value| = a.mantissa / 10 ^ a.scale := by
  unfold value signed
  rw [abs_div, abs_of_pos (places_pos a.scale)]
  congr 1
  split <;> simp

theorem value_nonneg (m scale : Nat) : value ⟨false, m, scale⟩ = m / 10 ^ scale := by
  simp [value, signed]

theorem value_ne_zero (a : Decimal) (h : a.mantissa ≠ 0) : a.value ≠ 0 := by
  rw [← abs_ne_zero, abs_value]
  have hm : (a.mantissa : ℚ) ≠ 0 := by exact_mod_cast h
  exact div_ne_zero hm (places_pos _).ne'

theorem isNegative_iff (a : Decimal) (h : a.mantissa ≠ 0) : a.isNegative = true ↔ a.value < 0 := by
  have hm : (0 : ℚ) < a.mantissa := by exact_mod_cast Nat.pos_of_ne_zero h
  have hpos : 0 < (a.mantissa : ℚ) / 10 ^ a.scale := div_pos hm (places_pos _)
  unfold value signed
  cases a.isNegative with
  | false => simpa using hpos.le
  | true => simpa [neg_div] using hpos

/-- Decimals whose product is not below zero have one sign. -/
theorem isNegative_eq_of_mul_nonneg (a b : Decimal) (ha : a.mantissa ≠ 0) (hb : b.mantissa ≠ 0)
    (h : 0 ≤ a.value * b.value) : a.isNegative = b.isNegative := by
  rw [Bool.eq_iff_iff, isNegative_iff a ha, isNegative_iff b hb]
  have hane := value_ne_zero a ha
  have hbne := value_ne_zero b hb
  constructor
  · intro hneg
    exact lt_of_le_of_ne (nonpos_of_mul_nonneg_right h hneg) hbne
  · intro hneg
    exact lt_of_le_of_ne (nonpos_of_mul_nonneg_left h hneg) hane

theorem ceiling_le_div_iff (m scale : Nat) :
    ceiling ≤ (m : ℚ) / 10 ^ scale ↔ (2 * limit - 1) * 10 ^ scale ≤ 2 * m := by
  have hceiling : (2 * ceiling : ℚ) = ((2 * limit - 1 : ℕ) : ℚ) := by
    rw [show 2 * limit - 1 = 2 * 2 ^ 96 - 1 from rfl]
    unfold ceiling
    norm_num
  rw [le_div_iff₀ (places_pos scale), ← mul_le_mul_iff_right₀ (zero_lt_two' ℚ), ← mul_assoc,
    hceiling]
  norm_cast

/-- A decimal in its bits is below the ceiling itself. -/
theorem abs_value_lt (a : Decimal) (h : a.Fits) : |a.value| < ceiling := by
  have hlimit := h.mantissa
  have hten : 1 ≤ 10 ^ a.scale := Nat.one_le_pow _ _ (by decide)
  rw [abs_value, ← not_le, ceiling_le_div_iff, limit_eq]
  rw [limit_eq] at hlimit
  omega

/-! ## Products -/

theorem abs_value_mul (a b : Decimal) : |a.value * b.value| =
    ((a.mantissa * b.mantissa : ℕ) : ℚ) / 10 ^ (a.scale + b.scale) := by
  rw [abs_mul, abs_value, abs_value, div_mul_div_comm, ← pow_add, Nat.cast_mul]

/-- A product is zero, or it is what there is room for of the exact one. -/
theorem mul_cases (a b : Decimal) :
    a.value * b.value = 0 ∧ a.mul b = .ok zero ∨
      ∃ (m scale : ℕ) (isNegative : Bool), |a.value * b.value| = m / 10 ^ scale ∧
        (0 ≤ a.value * b.value → isNegative = false) ∧
        a.mul b = match reduce m scale with
          | some (m, scale) => .ok ⟨m != 0 && isNegative, m, scale⟩
          | none => .error .multiplication := by
  by_cases hzero : a.mantissa = 0 ∨ b.mantissa = 0
  · refine .inl ⟨?_, if_pos hzero⟩
    rcases hzero with ha | hb
    · rw [value_zero a ha, zero_mul]
    · rw [value_zero b hb, mul_zero]
  · obtain ⟨ha, hb⟩ := not_or.1 hzero
    refine .inr ⟨_, _, a.isNegative != b.isNegative, abs_value_mul a b, fun h => ?_, if_neg hzero⟩
    rw [isNegative_eq_of_mul_nonneg a b ha hb h, bne_self_eq_false]

/-- A product has room exactly if the exact product is below the ceiling. -/
theorem mul_isOk_iff (a b : Decimal) :
    (∃ c, a.mul b = .ok c) ↔ |a.value * b.value| < ceiling := by
  rcases mul_cases a b with ⟨hzero, hmul⟩ | ⟨m, scale, _, habs, -, hmul⟩
  · rw [hzero, abs_zero]
    exact iff_of_true ⟨_, hmul⟩ ceiling_pos
  · rw [habs, hmul, ← not_le, ceiling_le_div_iff, ← reduce_eq_none_iff]
    cases reduce m scale <;> simp

/-- A product is not rounded below a natural. -/
theorem natCast_le_mul (n : Nat) (a b c : Decimal) (h : (n : ℚ) ≤ a.value * b.value)
    (hc : a.mul b = .ok c) : (n : ℚ) ≤ c.value := by
  have hnonneg : 0 ≤ a.value * b.value := n.cast_nonneg.trans h
  rcases mul_cases a b with ⟨hzero, hmul⟩ | ⟨m, scale, _, habs, hsign, hmul⟩
  · cases hmul.symm.trans hc
    rwa [hzero, ← value_zero zero rfl] at h
  · rw [hsign hnonneg] at hmul
    rw [← abs_of_nonneg hnonneg, habs, le_div_iff₀ (places_pos _)] at h
    rw [hmul] at hc
    split at hc
    · next m scale hreduce =>
      cases hc
      rw [Bool.and_false, value_nonneg, le_div_iff₀ (places_pos _)]
      exact_mod_cast le_reduce n _ _ _ hreduce (by exact_mod_cast h)
    · cases hc

/-- A product is not rounded above a natural. -/
theorem abs_mul_le (n : Nat) (a b c : Decimal) (h : |a.value * b.value| ≤ n)
    (hc : a.mul b = .ok c) : |c.value| ≤ n := by
  rcases mul_cases a b with ⟨-, hmul⟩ | ⟨m, scale, _, habs, -, hmul⟩
  · cases hmul.symm.trans hc
    rw [value_zero zero rfl, abs_zero]
    exact n.cast_nonneg
  · rw [habs, div_le_iff₀ (places_pos _)] at h
    rw [hmul] at hc
    split at hc
    · next m scale hreduce =>
      cases hc
      rw [abs_value, div_le_iff₀ (places_pos _)]
      exact_mod_cast reduce_le n _ _ _ hreduce (by exact_mod_cast h)
    · cases hc

/-! ## Sums -/

/-- The sum of two decimals at their common scale. -/
theorem value_add (a b : Decimal) :
    a.value + b.value = ((a.signed * 10 ^ (max a.scale b.scale - a.scale) +
      b.signed * 10 ^ (max a.scale b.scale - b.scale) : ℤ) : ℚ) / 10 ^ max a.scale b.scale := by
  have hscale : ∀ (s : ℤ) (k l : ℕ), k ≤ l →
      (s : ℚ) / 10 ^ k = ((s * 10 ^ (l - k) : ℤ) : ℚ) / 10 ^ l := by
    intro s k l hkl
    have hten : (10 : ℚ) ^ l = 10 ^ (l - k) * 10 ^ k := by rw [← pow_add, Nat.sub_add_cancel hkl]
    rw [hten]
    push_cast
    field_simp
  unfold value
  rw [hscale a.signed _ _ (le_max_left a.scale b.scale),
    hscale b.signed _ _ (le_max_right a.scale b.scale), ← add_div, Int.cast_add]

/-- A sum is one of its operands where the other is zero, or what there is room for of the exact
one. -/
theorem add_cases (a b : Decimal) :
    a.value = 0 ∧ a.add b = .ok b ∨ b.value = 0 ∧ a.add b = .ok a ∨
      ∃ (total : ℤ) (scale : ℕ), a.value + b.value = total / 10 ^ scale ∧
        a.add b = match reduce total.natAbs scale with
          | some (m, scale) => .ok ⟨total < 0, m, scale⟩
          | none => .error .addition := by
  unfold add
  split
  · next ha => exact .inl ⟨value_zero a ha, rfl⟩
  split
  · next hb => exact .inr (.inl ⟨value_zero b hb, rfl⟩)
  · exact .inr (.inr ⟨_, _, value_add a b, rfl⟩)

theorem abs_div_places (total : ℤ) (scale : Nat) :
    |(total : ℚ) / 10 ^ scale| = (total.natAbs : ℚ) / 10 ^ scale := by
  rw [abs_div, abs_of_pos (places_pos scale), ← Int.cast_abs, Int.abs_eq_natAbs, Int.cast_natCast]

/-- A sum has room exactly if the exact sum is below the ceiling. -/
theorem add_isOk_iff (a b : Decimal) (ha : a.Fits) (hb : b.Fits) :
    (∃ c, a.add b = .ok c) ↔ |a.value + b.value| < ceiling := by
  rcases add_cases a b with ⟨hzero, hadd⟩ | ⟨hzero, hadd⟩ | ⟨total, scale, hsum, hadd⟩
  · rw [hzero, zero_add]
    exact iff_of_true ⟨_, hadd⟩ (abs_value_lt b hb)
  · rw [hzero, add_zero]
    exact iff_of_true ⟨_, hadd⟩ (abs_value_lt a ha)
  · rw [hsum, hadd, abs_div_places, ← not_le (a := ceiling), ceiling_le_div_iff,
      ← reduce_eq_none_iff]
    cases reduce total.natAbs scale <;> simp

/-- A sum is not rounded below a natural. -/
theorem natCast_le_add (n : Nat) (a b c : Decimal) (h : (n : ℚ) ≤ a.value + b.value)
    (hc : a.add b = .ok c) : (n : ℚ) ≤ c.value := by
  rcases add_cases a b with ⟨hzero, hadd⟩ | ⟨hzero, hadd⟩ | ⟨total, scale, hsum, hadd⟩
  · cases hadd.symm.trans hc
    rwa [hzero, zero_add] at h
  · cases hadd.symm.trans hc
    rwa [hzero, add_zero] at h
  · rw [hsum, le_div_iff₀ (places_pos _)] at h
    have hle : ((n * 10 ^ scale : ℕ) : ℤ) ≤ total := by exact_mod_cast h
    have hnonneg : ¬ total < 0 := by omega
    rw [hadd] at hc
    split at hc
    · next m scale hreduce =>
      cases hc
      rw [decide_eq_false hnonneg, value_nonneg, le_div_iff₀ (places_pos _)]
      exact_mod_cast le_reduce n _ _ _ hreduce (by omega)
    · cases hc

/-- A sum is not rounded above a natural. -/
theorem abs_add_le (n : Nat) (a b c : Decimal) (h : |a.value + b.value| ≤ n)
    (hc : a.add b = .ok c) : |c.value| ≤ n := by
  rcases add_cases a b with ⟨hzero, hadd⟩ | ⟨hzero, hadd⟩ | ⟨total, scale, hsum, hadd⟩
  · cases hadd.symm.trans hc
    rwa [hzero, zero_add] at h
  · cases hadd.symm.trans hc
    rwa [hzero, add_zero] at h
  · rw [hsum, abs_div_places, div_le_iff₀ (places_pos _)] at h
    rw [hadd] at hc
    split at hc
    · next m scale hreduce =>
      cases hc
      rw [abs_value, div_le_iff₀ (places_pos _)]
      exact_mod_cast reduce_le n _ _ _ hreduce (by exact_mod_cast h)
    · cases hc

end Decimal

end OrderDispatch
