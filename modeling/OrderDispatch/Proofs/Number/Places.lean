import OrderDispatch.Proofs.Number.Conversion

/-!
# Digits dropped one by one

The conversion of a double drops the digits that it has too many one at a time, and rounds at each
of them. All in all that is one division, by which a number goes up from four ninths on and not from
a half on: with `ones d = 1…1` of `d` digits,

    dropDigit^[d] m = (m + 5 * ones d) / 10 ^ d                        (iterate_dropDigit)
    |dropDigit^[d] m - m / 10 ^ d| ≤ 5 / 9                              (iterate_dropDigit_error)

`Settles m k q s` says where the dropping ends: a mantissa `m` at `k` places is left as `q` at `s`
places, in the bits of a fraction and at no more than the greatest scale, and no digit was dropped
without need.
-/

namespace OrderDispatch.Decimal

/-! ## One division -/

/-- The number that is written with so many ones. -/
def ones : Nat → Nat
  | 0 => 0
  | count + 1 => 10 * ones count + 1

theorem ones_succ (count : Nat) : ones (count + 1) = 10 * ones count + 1 := rfl

theorem ones_eq (count : Nat) : 9 * ones count + 1 = 10 ^ count := by
  induction count with
  | zero => rfl
  | succ count ih =>
    rw [pow_succ, ← ih, ones_succ]
    ring

theorem dropDigit_eq (m : Nat) : dropDigit m = (m + 5) / 10 := by
  unfold dropDigit
  split <;> omega

theorem iterate_dropDigit (d m : Nat) : dropDigit^[d] m = (m + 5 * ones d) / 10 ^ d := by
  induction d generalizing m with
  | zero => simp [ones]
  | succ d ih =>
    have hsum : m + 5 * ones (d + 1) = (m + 5) + 10 * (5 * ones d) := by
      rw [ones_succ]
      ring
    rw [Function.iterate_succ_apply, ih, dropDigit_eq, hsum, pow_succ', ← Nat.div_div_eq_div_mul,
      Nat.add_mul_div_left _ _ (by decide)]

/-- Between which numbers the last digit is dropped. -/
theorem iterate_dropDigit_bounds (d m : Nat) :
    (dropDigit^[d] m : ℚ) ≤ m / 10 ^ d + 5 / 9 * (1 - 1 / 10 ^ d) ∧
      (m : ℚ) / 10 ^ d + 5 / 9 * (1 - 1 / 10 ^ d) < dropDigit^[d] m + 1 := by
  have hten : 0 < 10 ^ d := Nat.pow_pos (by decide)
  have hpos := places_pos d
  have hones : (9 * ones d + 1 : ℚ) = 10 ^ d := by exact_mod_cast ones_eq d
  have hexact : (m : ℚ) / 10 ^ d + 5 / 9 * (1 - 1 / 10 ^ d) = (m + 5 * ones d) / 10 ^ d := by
    rw [← hones] at hpos ⊢
    field_simp
    ring
  rw [hexact, iterate_dropDigit, le_div_iff₀ hpos, div_lt_iff₀ hpos]
  constructor
  · exact_mod_cast Nat.div_mul_le_self (m + 5 * ones d) (10 ^ d)
  · exact_mod_cast (Nat.div_lt_iff_lt_mul hten).1 (Nat.lt_succ_self ((m + 5 * ones d) / 10 ^ d))

theorem iterate_dropDigit_error (d m : Nat) :
    |(dropDigit^[d] m : ℚ) - m / 10 ^ d| ≤ 5 / 9 := by
  cases d with
  | zero => norm_num
  | succ d =>
    obtain ⟨hle, hlt⟩ := iterate_dropDigit_bounds (d + 1) m
    have hpos := places_pos d
    have hsmall : (1 : ℚ) / 10 ^ (d + 1) ≤ 1 / 10 := by
      rw [pow_succ]
      refine div_le_div_of_nonneg_left zero_le_one (by norm_num) ?_
      have hone : (1 : ℚ) ≤ 10 ^ d := one_le_pow₀ (by norm_num)
      linarith
    have hnonneg : (0 : ℚ) ≤ 1 / 10 ^ (d + 1) := by positivity
    rw [abs_le]
    constructor <;> linarith

/-! ## Where the dropping ends -/

/-- The mantissa `m` at `k` places is left as `q` at `s` places. -/
structure Settles (m k q s : Nat) : Prop where
  places : s ≤ k
  mantissa : q = dropDigit^[k - s] m
  scale : s ≤ maxScale
  /-- The last digit had no place, or was beyond the bits of a fraction. -/
  needed : s = k ∨ s = maxScale ∨ Binary64.hiddenBit ≤ dropDigit^[k - s - 1] m
  enough : s = 0 ∨ q < Binary64.hiddenBit

namespace Settles

variable {m k q s : Nat} (h : Settles m k q s)

include h

/-- A mantissa in units of the last place that is left. -/
theorem inUnits : (m : ℚ) / 10 ^ (k - s) = 10 ^ s * (m / 10 ^ k) := by
  have hk : (10 : ℚ) ^ k = 10 ^ (k - s) * 10 ^ s := by
    rw [← pow_add, Nat.sub_add_cancel h.places]
  rw [hk]
  field_simp

/-- Between which numbers the last digit was dropped. -/
theorem bounds : (q : ℚ) ≤ 10 ^ s * (m / 10 ^ k) + 5 / 9 * (1 - 1 / 10 ^ (k - s)) ∧
    10 ^ s * (m / 10 ^ k) + 5 / 9 * (1 - 1 / 10 ^ (k - s)) < (q : ℚ) + 1 := by
  rw [← h.inUnits, h.mantissa]
  exact iterate_dropDigit_bounds (k - s) m

/-- A digit that had its place was dropped from a mantissa of at least `2 ^ 52`. -/
theorem great (hdropped : s ≠ k) (hplace : s ≠ maxScale) :
    (2 ^ 52 : ℚ) ≤ 10 * (10 ^ s * (m / 10 ^ k)) + 5 / 9 := by
  have hbits := (h.needed.resolve_left hdropped).resolve_left hplace
  have hbefore := (abs_le.1 (iterate_dropDigit_error (k - s - 1) m)).2
  have hcast : (2 ^ 52 : ℚ) ≤ (dropDigit^[k - s - 1] m : ℕ) := by exact_mod_cast hbits
  have hten : (m : ℚ) / 10 ^ (k - s - 1) = 10 * (10 ^ s * (m / 10 ^ k)) := by
    have hplaces := h.places
    rw [← h.inUnits, show k - s = k - s - 1 + 1 by omega, pow_succ, Nat.add_sub_cancel]
    field_simp
  rw [hten] at hbefore
  linarith

end Settles

theorem dropExcess_cases (k m : Nat) :
    ∃ d ≤ k, dropExcess k m = (dropDigit^[d] m, k - d) ∧
      (d = 0 ∨ Binary64.hiddenBit ≤ dropDigit^[d - 1] m) ∧
      (d = k ∨ dropDigit^[d] m < Binary64.hiddenBit) := by
  induction k generalizing m with
  | zero => exact ⟨0, le_rfl, rfl, .inl rfl, .inl rfl⟩
  | succ k ih =>
    unfold dropExcess
    split
    · next hgreat =>
      obtain ⟨d, hd, hdrop, hneeded, henough⟩ := ih (dropDigit m)
      refine ⟨d + 1, by omega, ?_, .inr ?_, ?_⟩
      · rw [hdrop, Function.iterate_succ_apply, Nat.add_sub_add_right]
      · rcases d with - | d
        · exact hgreat
        · rw [Nat.add_sub_cancel, Function.iterate_succ_apply]
          exact hneeded.resolve_left (Nat.succ_ne_zero d)
      · rw [Function.iterate_succ_apply]
        exact henough.imp_left (congrArg (· + 1))
    · next hsmall =>
      exact ⟨0, Nat.zero_le _, rfl, .inl rfl, .inr (Nat.lt_of_not_le hsmall)⟩

theorem settles_dropExcess (k m : Nat) (h : k ≤ maxScale) :
    Settles m k (dropExcess k m).1 (dropExcess k m).2 := by
  obtain ⟨d, hd, hdrop, hneeded, henough⟩ := dropExcess_cases k m
  rw [hdrop]
  have hback : k - (k - d) = d := by omega
  refine ⟨Nat.sub_le k d, by rw [hback], (Nat.sub_le k d).trans h, ?_, ?_⟩
  · rw [hback]
    rcases hneeded with rfl | hneeded
    · exact .inl rfl
    · exact .inr (.inr hneeded)
  · rcases henough with rfl | henough
    · exact .inl (Nat.sub_self _)
    · exact .inr henough

/-- A mantissa vanishes while digits without a place are dropped, or they are all dropped. -/
theorem fitScale_cases (count m : Nat) :
    (fitScale count m = (0, 0) ∧ ∃ d < count, dropDigit^[d] m < 10) ∨
      fitScale count m = (dropDigit^[count] m, maxScale) := by
  induction count generalizing m with
  | zero => exact .inr rfl
  | succ count ih =>
    unfold fitScale
    split
    · next hgone => exact .inl ⟨rfl, 0, Nat.succ_pos count, by simpa using hgone⟩
    · rcases ih (dropDigit m) with ⟨hgone, d, hd, hlt⟩ | hleft
      · exact .inl ⟨hgone, d + 1, by omega, by rwa [Function.iterate_succ_apply]⟩
      · exact .inr (by rw [hleft, Function.iterate_succ_apply])

/-- Zeros at the end are dropped, and the number stays. -/
theorem dropZeros_value (k m : Nat) :
    ((dropZeros k m).1 : ℚ) / 10 ^ (dropZeros k m).2 = m / 10 ^ k ∧
      ((dropZeros k m).2 = 0 ∨ (dropZeros k m).1 % 10 ≠ 0) := by
  induction k generalizing m with
  | zero => exact ⟨rfl, .inl rfl⟩
  | succ k ih =>
    unfold dropZeros
    split
    · next hzero =>
      obtain ⟨hvalue, hend⟩ := ih (m / 10)
      refine ⟨hvalue.trans ?_, hend⟩
      obtain ⟨n, rfl⟩ := Nat.dvd_of_mod_eq_zero hzero
      have hpos := (places_pos k).ne'
      rw [Nat.mul_div_cancel_left n (by decide), pow_succ]
      push_cast
      field_simp
    · next hdigit => exact ⟨rfl, .inr hdigit⟩

/-- A number without a factor of ten settles, unless it is too small for the places there are. -/
theorem settle?_cases (m k : Nat) :
    ∃ r, settle? m (-k) = some r ∧ (r.2 = 0 ∨ r.1 % 10 ≠ 0) ∧
      ((r.1 = 0 ∧ ∃ d, d + maxScale < k ∧ dropDigit^[d] m < 10) ∨
        ∃ q s, Settles m k q s ∧ (r.1 : ℚ) / 10 ^ r.2 = q / 10 ^ s) := by
  have hplaces : (-(-(k : ℤ))).toNat = k := by omega
  unfold settle?
  rw [if_neg (by omega), hplaces]
  by_cases hscale : maxScale < k
  · simp only [if_pos hscale]
    rcases fitScale_cases (k - maxScale) m with ⟨hgone, d, hd, hlt⟩ | hleft
    · rw [hgone]
      exact ⟨_, rfl, .inl rfl, .inl ⟨rfl, d, by omega, hlt⟩⟩
    · rw [hleft]
      simp only
      obtain ⟨hvalue, hend⟩ := dropZeros_value (dropExcess maxScale (dropDigit^[k - maxScale] m)).2
        (dropExcess maxScale (dropDigit^[k - maxScale] m)).1
      have hsettles := settles_dropExcess maxScale (dropDigit^[k - maxScale] m) le_rfl
      generalize (dropExcess maxScale (dropDigit^[k - maxScale] m)).1 = q at hsettles hvalue hend
      generalize (dropExcess maxScale (dropDigit^[k - maxScale] m)).2 = s at hsettles hvalue hend
      obtain ⟨hs, hq, -, hneeded, henough⟩ := hsettles
      have hsplit : k - s = (maxScale - s) + (k - maxScale) := by omega
      refine ⟨_, rfl, hend, .inr ⟨q, s, ⟨by omega, ?_, hs, ?_, henough⟩, hvalue⟩⟩
      · rw [hsplit, Function.iterate_add_apply, hq]
      · rcases hneeded with rfl | rfl | hneeded
        · exact .inr (.inl rfl)
        · exact .inr (.inl rfl)
        · by_cases hlast : s = maxScale
          · exact .inr (.inl hlast)
          · right; right
            rw [show k - s - 1 = (maxScale - s - 1) + (k - maxScale) by omega,
              Function.iterate_add_apply]
            exact hneeded
  · simp only [if_neg hscale]
    obtain ⟨hvalue, hend⟩ := dropZeros_value (dropExcess k m).2 (dropExcess k m).1
    exact ⟨_, rfl, hend, .inr ⟨_, _, settles_dropExcess k m (Nat.le_of_not_lt hscale), hvalue⟩⟩

/-! ## Factors of two -/

/-- The share of a mantissa that one lost bit can take: there was no room for five times it. -/
def bitLoss : ℚ := 5 / 2 ^ 96

/-- Trading factors of two for factors of ten loses next to nothing. -/
theorem shiftDown_value (count m k : Nat) (hk : count ≤ k) :
    ∃ m' k' : Nat, shiftDown count m (-k) = (m', -(k' : ℤ)) ∧
      (m' : ℚ) / 10 ^ k' ≤ m * 5 ^ count / 10 ^ k ∧
      (m : ℚ) * 5 ^ count / 10 ^ k * (1 - bitLoss) ^ count ≤ m' / 10 ^ k' := by
  have hloss : 0 ≤ 1 - bitLoss := by norm_num [bitLoss]
  have hkeep : 1 - bitLoss ≤ 1 := by norm_num [bitLoss]
  induction count generalizing m k with
  | zero => exact ⟨m, k, rfl, by simp, by simp⟩
  | succ count ih =>
    obtain ⟨j, rfl⟩ : ∃ j, k = j + 1 := ⟨k - 1, by omega⟩
    have hpow : (0 : ℚ) ≤ (1 - bitLoss) ^ count := pow_nonneg hloss count
    have hplaces := places_pos j
    -- Half a mantissa, or what is left of it without its last bit.
    have hhalf : (m : ℚ) * (1 - bitLoss) ≤ 2 * ((m / 2 : ℕ) : ℚ) →
        ∃ m' k' : Nat, shiftDown count (m / 2) (-(j + 1 : ℕ) + 1) = (m', -(k' : ℤ)) ∧
          (m' : ℚ) / 10 ^ k' ≤ m * 5 ^ (count + 1) / 10 ^ (j + 1) ∧
          (m : ℚ) * 5 ^ (count + 1) / 10 ^ (j + 1) * (1 - bitLoss) ^ (count + 1) ≤
            m' / 10 ^ k' := by
      intro hkept
      obtain ⟨m', k', hshift, hle, hge⟩ := ih (m / 2) j (by omega)
      have hfloor : 2 * ((m / 2 : ℕ) : ℚ) ≤ m := by exact_mod_cast Nat.mul_div_le m 2
      have hscaled : (m : ℚ) * 5 ^ (count + 1) / 10 ^ (j + 1) = m / 2 * (5 ^ count / 10 ^ j) := by
        rw [pow_succ, pow_succ]
        field_simp
        ring
      have hunit : (0 : ℚ) ≤ 5 ^ count / 10 ^ j := by positivity
      rw [mul_div_assoc] at hle hge
      rw [hscaled]
      refine ⟨m', k', ?_, ?_, ?_⟩
      · rw [← hshift]
        congr 1
        push_cast
        ring
      · exact hle.trans (mul_le_mul_of_nonneg_right (by linarith) hunit)
      · calc (m : ℚ) / 2 * (5 ^ count / 10 ^ j) * (1 - bitLoss) ^ (count + 1)
            = m * (1 - bitLoss) / 2 * (5 ^ count / 10 ^ j) * (1 - bitLoss) ^ count := by ring
          _ ≤ ((m / 2 : ℕ) : ℚ) * (5 ^ count / 10 ^ j) * (1 - bitLoss) ^ count :=
            mul_le_mul_of_nonneg_right (mul_le_mul_of_nonneg_right (by linarith) hunit) hpow
          _ ≤ m' / 10 ^ k' := hge
    unfold shiftDown
    split
    · next heven =>
      have hexact : 2 * ((m / 2 : ℕ) : ℚ) = m := by
        exact_mod_cast Nat.mul_div_cancel' (Nat.dvd_of_mod_eq_zero heven)
      refine hhalf ?_
      rw [hexact]
      exact mul_le_of_le_one_right (Nat.cast_nonneg m) hkeep
    · next hodd =>
      split
      · obtain ⟨m', k', hshift, hle, hge⟩ := ih (5 * m) (j + 1) (by omega)
        have hscaled : ((5 * m : ℕ) : ℚ) * 5 ^ count / 10 ^ (j + 1) =
            m * 5 ^ (count + 1) / 10 ^ (j + 1) := by
          rw [pow_succ 5 count]
          push_cast
          ring
        rw [hscaled] at hle hge
        refine ⟨m', k', hshift, hle, le_trans ?_ hge⟩
        rw [pow_succ (1 - bitLoss)]
        exact mul_le_mul_of_nonneg_left (mul_le_of_le_one_right hpow hkeep) (by positivity)
      · next hfull =>
        -- An odd mantissa loses one of at least `2 ^ 96 / 5`.
        refine hhalf ?_
        have hm : (2 ^ 96 : ℚ) ≤ 5 * m := by
          rw [Nat.not_lt, limit_eq] at hfull
          exact_mod_cast hfull
        have hfloor : ((m / 2 : ℕ) : ℚ) * 2 + 1 = m := by
          exact_mod_cast (show m / 2 * 2 + 1 = m by omega)
        have hbit : 1 ≤ (m : ℚ) * bitLoss := by
          unfold bitLoss
          rw [mul_div_assoc', le_div_iff₀ (by positivity)]
          linarith
        linarith

/-- A mantissa with all the factors of two is divided by them. -/
theorem shiftDown_mul (count n : Nat) (p : Int) :
    shiftDown count (n * 2 ^ count) p = (n, p + count) := by
  induction count generalizing p with
  | zero => simp [shiftDown]
  | succ count ih =>
    unfold shiftDown
    rw [pow_succ, ← mul_assoc, Nat.mul_mod_left, if_pos rfl, Nat.mul_div_cancel _ (by decide), ih]
    congr 1
    push_cast
    ring

/-- No more than so little is lost, however small the double. -/
theorem le_keep_pow (count : Nat) (h : count ≤ 1074) : 1 - 1 / 2 ^ 80 ≤ (1 - bitLoss) ^ count := by
  have hbernoulli := one_add_mul_le_pow (show (-2 : ℚ) ≤ -bitLoss by norm_num [bitLoss]) count
  have hcount : (count : ℚ) ≤ 1074 := by exact_mod_cast h
  have hloss : (count : ℚ) * bitLoss ≤ 1074 * bitLoss :=
    mul_le_mul_of_nonneg_right hcount (by norm_num [bitLoss])
  have hlittle : 1074 * bitLoss ≤ 1 / 2 ^ 80 := by norm_num [bitLoss]
  rw [← sub_eq_add_neg, mul_neg] at hbernoulli
  linarith

end OrderDispatch.Decimal
