import Mathlib
import OrderDispatch.Proofs.Number.Bits

/-!
# The nearest double

What `nearestBits` picks, in exact rational arithmetic. A positive quotient `q` has a unit `2 ^ u`
with `q < 2 ^ (u + 53)`, and `2 ^ (u + 52) ≤ q` but for the least unit; the double is the nearest
multiple of that unit.

    |size (ofRatio negative num den) - q| ≤ 2 ^ u / 2              (size_ofRatio)
    size (ofNat n) ≤ n * (1 + 2⁻⁵³)                                  (size_ofNat)
    bits three below infinity or less → q ≤ (2 ^ 53 - 7/2) * 2 ^ 971  (ratio_le_of_nearestBits)
-/

namespace OrderDispatch.Binary64

/-! ## Binary logarithms -/

theorem two_zpow_pos (k : ℤ) : (0 : ℚ) < 2 ^ k := zpow_pos (by norm_num) k

theorem two_zpow_le (j k : ℤ) : (2 : ℚ) ^ j ≤ 2 ^ k ↔ j ≤ k :=
  zpow_le_zpow_iff_right₀ (by norm_num)

theorem two_zpow_lt (j k : ℤ) : (2 : ℚ) ^ j < 2 ^ k ↔ j < k :=
  zpow_lt_zpow_iff_right₀ (by norm_num)

/-- A quotient over a power, as a quotient of naturals. -/
theorem scaled_pow_eq (base num den : Nat) (u : ℤ) (hbase : 0 < base) (hden : 0 < den) :
    ((num * base ^ (-u).toNat : ℕ) : ℚ) / ((den * base ^ u.toNat : ℕ) : ℚ) =
      num / den / (base : ℚ) ^ u := by
  have hb : (base : ℚ) ≠ 0 := by exact_mod_cast hbase.ne'
  have hd : (den : ℚ) ≠ 0 := by exact_mod_cast hden.ne'
  push_cast
  rcases Int.le_total 0 u with h | h
  · obtain ⟨n, rfl⟩ := Int.eq_ofNat_of_zero_le h
    simp only [Int.toNat_natCast, Int.toNat_neg_natCast, pow_zero, mul_one, zpow_natCast]
    field_simp
  · obtain ⟨n, hn⟩ := Int.eq_ofNat_of_zero_le (Int.neg_nonneg_of_nonpos h)
    obtain rfl : u = -n := by omega
    simp only [neg_neg, Int.toNat_natCast, Int.toNat_neg_natCast, pow_zero, mul_one, zpow_neg,
      zpow_natCast]
    field_simp

theorem scaled_eq (num den : Nat) (u : ℤ) (hden : 0 < den) :
    ((num * 2 ^ (-u).toNat : ℕ) : ℚ) / ((den * 2 ^ u.toNat : ℕ) : ℚ) = num / den / 2 ^ u := by
  have h := scaled_pow_eq 2 num den u (by decide) hden
  rwa [Nat.cast_ofNat] at h

theorem atLeastTwoPow_iff (num den : Nat) (k : ℤ) (hden : 0 < den) :
    atLeastTwoPow num den k = true ↔ (2 : ℚ) ^ k ≤ num / den := by
  have hpos : (0 : ℚ) < ((den * 2 ^ k.toNat : ℕ) : ℚ) := by
    exact_mod_cast Nat.mul_pos hden (Nat.pow_pos (by decide))
  have hscaled := scaled_eq num den k hden
  have hone : (2 : ℚ) ^ k ≤ num / den ↔ 1 ≤ (num : ℚ) / den / 2 ^ k := by
    rw [le_div_iff₀ (two_zpow_pos k), one_mul]
  rw [hone, ← hscaled, le_div_iff₀ hpos, one_mul, Nat.cast_le]
  unfold atLeastTwoPow
  exact decide_eq_true_iff

theorem log2_bounds (n : Nat) (hn : 0 < n) :
    (2 : ℚ) ^ (n.log2 : ℤ) ≤ n ∧ (n : ℚ) < 2 ^ (n.log2 + 1 : ℤ) := by
  constructor
  · rw [zpow_natCast]
    exact_mod_cast Nat.log2_self_le hn.ne'
  · rw [show (n.log2 + 1 : ℤ) = ((n.log2 + 1 : ℕ) : ℤ) by push_cast; rfl, zpow_natCast]
    exact_mod_cast Nat.lt_log2_self

/-- `floorLog2` is the binary logarithm of a quotient, rounded down. -/
theorem floorLog2_spec (num den : Nat) (hnum : 0 < num) (hden : 0 < den) :
    (2 : ℚ) ^ floorLog2 num den ≤ num / den ∧ (num : ℚ) / den < 2 ^ (floorLog2 num den + 1) := by
  obtain ⟨hlow, hhigh⟩ := log2_bounds num hnum
  obtain ⟨hlow', hhigh'⟩ := log2_bounds den hden
  have hd : (0 : ℚ) < den := by exact_mod_cast hden
  have hupper : (num : ℚ) / den < 2 ^ ((num.log2 : ℤ) - den.log2 + 1) := by
    rw [div_lt_iff₀ hd]
    calc (num : ℚ) < 2 ^ (num.log2 + 1 : ℤ) := hhigh
      _ = 2 ^ ((num.log2 : ℤ) - den.log2 + 1) * 2 ^ (den.log2 : ℤ) := by
        rw [← zpow_add₀ (by norm_num)]
        congr 1
        omega
      _ ≤ 2 ^ ((num.log2 : ℤ) - den.log2 + 1) * den :=
        mul_le_mul_of_nonneg_left hlow' (two_zpow_pos _).le
  have hlower : (2 : ℚ) ^ ((num.log2 : ℤ) - den.log2 - 1) ≤ num / den := by
    rw [le_div_iff₀ hd]
    calc (2 : ℚ) ^ ((num.log2 : ℤ) - den.log2 - 1) * den
        ≤ 2 ^ ((num.log2 : ℤ) - den.log2 - 1) * 2 ^ (den.log2 + 1 : ℤ) :=
          mul_le_mul_of_nonneg_left hhigh'.le (two_zpow_pos _).le
      _ = 2 ^ (num.log2 : ℤ) := by
        rw [← zpow_add₀ (by norm_num)]
        congr 1
        omega
      _ ≤ num := hlow
  unfold floorLog2
  simp only
  split
  · next h => exact ⟨(atLeastTwoPow_iff num den _ hden).1 h, hupper⟩
  · next h =>
    refine ⟨hlower, ?_⟩
    rw [sub_add_cancel]
    exact lt_of_not_ge fun hge => h ((atLeastTwoPow_iff num den _ hden).2 hge)

/-! ## Rounding -/

/-- Rounding moves a quotient by at most a half. -/
theorem roundHalfEven_error (num den : Nat) (hden : 0 < den) :
    |(roundHalfEven num den : ℚ) - num / den| ≤ 1 / 2 := by
  have hd : (0 : ℚ) < den := by exact_mod_cast hden
  have hmod := Nat.div_add_mod num den
  have hlt := Nat.mod_lt num hden
  have hbounds : 2 * (den * roundHalfEven num den) ≤ 2 * num + den ∧
      2 * num ≤ 2 * (den * roundHalfEven num den) + den := by
    unfold roundHalfEven
    simp only
    split
    · rw [Nat.mul_add]
      omega
    · omega
  have hlow : (2 * (den * roundHalfEven num den) : ℚ) ≤ 2 * num + den := by
    exact_mod_cast hbounds.1
  have hhigh : (2 * num : ℚ) ≤ 2 * (den * roundHalfEven num den) + den := by
    exact_mod_cast hbounds.2
  rw [abs_le, ← sub_nonneg, ← sub_nonneg (a := (1 : ℚ) / 2)]
  constructor
  · rw [show (roundHalfEven num den : ℚ) - num / den - -(1 / 2) =
      (2 * (den * roundHalfEven num den) + den - 2 * num) / (2 * den) by field_simp; ring]
    exact div_nonneg (by linarith) (by linarith)
  · rw [show (1 / 2 : ℚ) - (roundHalfEven num den - num / den) =
      (2 * num + den - 2 * (den * roundHalfEven num den)) / (2 * den) by field_simp; ring]
    exact div_nonneg (by linarith) (by linarith)

/-- The exponent of the unit that a quotient is rounded to. -/
def unitExponent (num den : Nat) : Int := max (floorLog2 num den - 52) (-1074)

/-- A quotient in units, rounded. -/
def significand (num den : Nat) : Nat :=
  roundHalfEven (num * 2 ^ (-unitExponent num den).toNat) (den * 2 ^ (unitExponent num den).toNat)

theorem nearestBits_eq (num den : Nat) :
    nearestBits num den =
      min ((unitExponent num den + 1074).toNat * hiddenBit + significand num den) infinityBits :=
  rfl

/-- The rounded significand is the nearest one, and has 53 bits but at the least unit. -/
theorem significand_spec (num den : Nat) (hnum : 0 < num) (hden : 0 < den) :
    -1074 ≤ unitExponent num den ∧
    (num : ℚ) / den < 2 ^ (unitExponent num den + 53) ∧
    (unitExponent num den = -1074 ∨ (2 : ℚ) ^ (unitExponent num den + 52) ≤ num / den) ∧
    |(significand num den : ℚ) - num / den / 2 ^ unitExponent num den| ≤ 1 / 2 := by
  obtain ⟨hlow, hhigh⟩ := floorLog2_spec num den hnum hden
  refine ⟨le_max_right _ _, ?_, ?_, ?_⟩
  · refine lt_of_lt_of_le hhigh ((two_zpow_le _ _).2 ?_)
    unfold unitExponent
    omega
  · rcases le_total (floorLog2 num den - 52) (-1074) with h | h
    · left
      exact max_eq_right h
    · right
      refine le_trans ((two_zpow_le _ _).2 ?_) hlow
      unfold unitExponent
      omega
  · have hpos : 0 < den * 2 ^ (unitExponent num den).toNat :=
      Nat.mul_pos hden (Nat.pow_pos (by decide))
    have herror := roundHalfEven_error (num * 2 ^ (-unitExponent num den).toNat) _ hpos
    rwa [scaled_eq num den _ hden] at herror

theorem significand_bounds (num den : Nat) (hnum : 0 < num) (hden : 0 < den) :
    significand num den ≤ 2 ^ 53 ∧
      (unitExponent num den = -1074 ∨ 2 ^ 52 ≤ significand num den) := by
  obtain ⟨-, hhigh, hlow, herror⟩ := significand_spec num den hnum hden
  have hunit := two_zpow_pos (unitExponent num den)
  rw [abs_le] at herror
  constructor
  · have hscaled : (num : ℚ) / den / 2 ^ unitExponent num den < 2 ^ 53 := by
      rw [div_lt_iff₀ hunit, ← zpow_natCast, ← zpow_add₀ (by norm_num)]
      rwa [add_comm] at hhigh
    have hlt : (significand num den : ℚ) < (2 ^ 53 + 1 : ℕ) := by
      push_cast
      linarith
    exact Nat.lt_succ_iff.1 (by exact_mod_cast hlt)
  · rcases hlow with h | h
    · exact .inl h
    · right
      have hscaled : (2 : ℚ) ^ 52 ≤ num / den / 2 ^ unitExponent num den := by
        rw [le_div_iff₀ hunit, ← zpow_natCast, ← zpow_add₀ (by norm_num)]
        rwa [add_comm] at h
      have hlt : ((2 ^ 52 : ℕ) : ℚ) < (significand num den + 1 : ℕ) := by
        push_cast
        linarith
      exact Nat.lt_succ_iff.1 (by exact_mod_cast hlt)

/-! ## The size of a double -/

/-- The magnitude of a finite double. -/
def size (x : Float) : ℚ := mantissa x * 2 ^ exponent x

theorem size_nonneg (x : Float) : 0 ≤ size x :=
  mul_nonneg (Nat.cast_nonneg _) (two_zpow_pos _).le

/-- What is assembled from a significand in its unit is that number. -/
theorem size_ofParts (negative : Bool) (u : Int) (s : Nat) (hu : -1074 ≤ u) (hs : s ≤ 2 ^ 53)
    (hnormal : u = -1074 ∨ 2 ^ 52 ≤ s)
    (hbits : (u + 1074).toNat * hiddenBit + s < infinityBits) :
    size (ofParts negative ((u + 1074).toNat * hiddenBit + s)) = s * 2 ^ u ∧
      exponent (ofParts negative ((u + 1074).toNat * hiddenBit + s)) ≤ u + 1 ∧
      (2 ^ 52 ≤ s → 2 ^ 52 ≤ mantissa (ofParts negative ((u + 1074).toNat * hiddenBit + s)) ∧
        u ≤ exponent (ofParts negative ((u + 1074).toNat * hiddenBit + s))) := by
  have hexp := biasedExponent_ofParts negative _ hbits
  have hfrac := fraction_ofParts negative _ hbits
  have hhid : hiddenBit = 4503599627370496 := rfl
  obtain ⟨k, rfl⟩ : ∃ k : ℕ, u = (k : ℤ) - 1074 := ⟨(u + 1074).toNat, by omega⟩
  have hk : ((k : ℤ) - 1074 + 1074).toNat = k := by omega
  rw [hk] at hexp hfrac hbits ⊢
  rw [hhid] at hexp hfrac
  rw [hhid]
  generalize hx : ofParts negative (k * 4503599627370496 + s) = x at hexp hfrac ⊢
  by_cases hsub : s < 4503599627370496
  · -- A subnormal double, or zero: the unit is the least one.
    have hk0 : k = 0 := by omega
    have hb : biasedExponent x = 0 := by omega
    have hm : mantissa x = s := by
      unfold mantissa
      rw [if_pos hb]
      omega
    have he : exponent x = (k : ℤ) - 1074 := by
      unfold exponent
      rw [hb, hk0]
      rfl
    unfold size
    rw [hm, he]
    exact ⟨rfl, by omega, by omega⟩
  by_cases hcarry : s < 9007199254740992
  · have hb : biasedExponent x = k + 1 := by omega
    have hm : mantissa x = s := by
      unfold mantissa
      rw [if_neg (by omega), hhid]
      omega
    have he : exponent x = (k : ℤ) - 1074 := by
      unfold exponent
      rw [hb]
      omega
    unfold size
    rw [hm, he]
    exact ⟨rfl, by omega, fun hle => ⟨hle, le_rfl⟩⟩
  · -- The significand was rounded up to the next power of two, which carries into the exponent.
    have hs' : s = 9007199254740992 := by omega
    have hb : biasedExponent x = k + 2 := by omega
    have hm : mantissa x = 4503599627370496 := by
      unfold mantissa
      rw [if_neg (by omega), hhid]
      omega
    have he : exponent x = (k : ℤ) - 1074 + 1 := by
      unfold exponent
      rw [hb]
      omega
    unfold size
    rw [hm, he, hs', zpow_add_one₀ (by norm_num)]
    refine ⟨?_, le_rfl, fun _ => ⟨by norm_num, by omega⟩⟩
    push_cast
    ring

/-- The greatest finite double. -/
def greatest : ℚ := (2 ^ 53 - 1) * 2 ^ (971 : ℤ)

theorem greatest_lt : greatest < 2 ^ (1024 : ℤ) := by
  rw [show (1024 : ℤ) = 53 + 971 by rfl, zpow_add₀ (by norm_num)]
  unfold greatest
  exact mul_lt_mul_of_pos_right (by norm_num) (two_zpow_pos 971)

/-- A quotient that is not above the greatest double is rounded to a finite one. -/
theorem nearestBits_lt (num den : Nat) (hnum : 0 < num) (hden : 0 < den)
    (h : (num : ℚ) / den ≤ greatest) :
    (unitExponent num den + 1074).toNat * hiddenBit + significand num den < infinityBits := by
  obtain ⟨hunit, -, hlow, herror⟩ := significand_spec num den hnum hden
  have hs := (significand_bounds num den hnum hden).1
  have hinf : infinityBits = 2047 * 4503599627370496 := rfl
  have hhid : hiddenBit = 4503599627370496 := rfl
  rw [hinf, hhid]
  have hle : unitExponent num den ≤ 971 := by
    rcases hlow with hlow | hlow
    · omega
    · have hlt : (2 : ℚ) ^ (unitExponent num den + 52) < 2 ^ (1024 : ℤ) := by
        exact lt_of_le_of_lt (hlow.trans h) greatest_lt
      have := (two_zpow_lt _ _).1 hlt
      omega
  rcases lt_or_eq_of_le hle with hlt | heq
  · omega
  · have htop : significand num den < 2 ^ 53 := by
      have hscaled : (num : ℚ) / den / 2 ^ unitExponent num den ≤ 2 ^ 53 - 1 := by
        rw [div_le_iff₀ (two_zpow_pos _), heq]
        exact h
      rw [abs_le] at herror
      have hlt : (significand num den : ℚ) < (2 ^ 53 : ℕ) := by
        push_cast
        linarith
      exact_mod_cast hlt
    omega

/-- The nearest double to a quotient in the range of doubles: it is finite, off by at most half a
unit, and normal if the significand has all its bits. -/
theorem size_ofRatio (negative : Bool) (num den : Nat) (hnum : 0 < num) (hden : 0 < den)
    (h : (num : ℚ) / den ≤ greatest) :
    isFinite (ofRatio negative num den) = true ∧
    |size (ofRatio negative num den) - num / den| ≤ 2 ^ unitExponent num den / 2 ∧
    exponent (ofRatio negative num den) ≤ unitExponent num den + 1 ∧
    (2 ^ 52 ≤ significand num den → 2 ^ 52 ≤ mantissa (ofRatio negative num den) ∧
      unitExponent num den ≤ exponent (ofRatio negative num den)) := by
  have hlt := nearestBits_lt num den hnum hden h
  obtain ⟨hunit, -, -, herror⟩ := significand_spec num den hnum hden
  obtain ⟨hs, hnormal⟩ := significand_bounds num den hnum hden
  have hbits : nearestBits num den =
      (unitExponent num den + 1074).toNat * hiddenBit + significand num den := by
    rw [nearestBits_eq, min_eq_left hlt.le]
  unfold ofRatio
  rw [if_neg hnum.ne', hbits]
  obtain ⟨hsize, hexp, hfull⟩ := size_ofParts negative _ _ hunit hs hnormal hlt
  refine ⟨isFinite_ofParts negative _ hlt, ?_, hexp, hfull⟩
  have hpos := two_zpow_pos (unitExponent num den)
  have hscaled : (significand num den * 2 ^ unitExponent num den - num / den : ℚ) =
      (significand num den - num / den / 2 ^ unitExponent num den) * 2 ^ unitExponent num den := by
    rw [sub_mul, div_mul_cancel₀ _ hpos.ne']
  rw [hsize, hscaled, abs_mul, abs_of_pos hpos]
  calc |(significand num den : ℚ) - num / den / 2 ^ unitExponent num den| *
        2 ^ unitExponent num den
      ≤ 1 / 2 * 2 ^ unitExponent num den := mul_le_mul_of_nonneg_right herror hpos.le
    _ = 2 ^ unitExponent num den / 2 := by ring

theorem ofNat_zero : mantissa (ofNat 0) = 0 ∧ isFinite (ofNat 0) = true := by
  decide

/-- The double nearest to a natural exceeds it by no more than one part in `2 ^ 53`. -/
theorem size_ofNat (n : Nat) (h : (n : ℚ) ≤ greatest) :
    isFinite (ofNat n) = true ∧ size (ofNat n) ≤ n * (1 + 1 / 2 ^ 53) := by
  rcases Nat.eq_zero_or_pos n with rfl | hn
  · obtain ⟨hm, hfin⟩ := ofNat_zero
    refine ⟨hfin, ?_⟩
    unfold size
    rw [hm]
    simp
  · have hq : (n : ℚ) / (1 : ℕ) = n := by simp
    obtain ⟨hfin, herror, -⟩ := size_ofRatio false n 1 hn Nat.one_pos (by rwa [hq])
    obtain ⟨-, hhigh, hlow, -⟩ := significand_spec n 1 hn Nat.one_pos
    rw [hq] at herror hhigh hlow
    have hone : (1 : ℚ) ≤ n := by exact_mod_cast hn
    have hunit : (2 : ℚ) ^ (unitExponent n 1 + 52) ≤ n := by
      rcases hlow with hlow | hlow
      · -- No positive natural is below the normal doubles.
        rw [hlow] at hhigh
        have hsmall : (2 : ℚ) ^ ((-1074 : ℤ) + 53) ≤ 1 :=
          zpow_le_one_of_nonpos₀ (by norm_num) (by norm_num)
        linarith
      · exact hlow
    refine ⟨hfin, ?_⟩
    rw [zpow_add₀ (by norm_num)] at hunit
    rw [abs_le] at herror
    have hhalf : (2 : ℚ) ^ unitExponent n 1 / 2 ≤ n * (1 / 2 ^ 53) := by
      norm_num at hunit ⊢
      linarith
    show size (ofRatio false n 1) ≤ _
    linarith

theorem greatest_eq : greatest = (((2 ^ 53 - 1) * 2 ^ 971 : ℕ) : ℚ) := by
  unfold greatest
  rw [show (971 : ℤ) = ((971 : ℕ) : ℤ) by rfl, zpow_natCast, Nat.cast_mul, Nat.cast_pow]
  congr 1
  norm_num

theorem natCast_le_greatest (n k : Nat) (h : n < 2 ^ k) (hk : k ≤ 1023) : (n : ℚ) ≤ greatest := by
  have hn : n ≤ 2 ^ 52 * 2 ^ 971 := by
    rw [← pow_add]
    exact h.le.trans (pow_le_pow_right₀ one_le_two hk)
  have hle : 2 ^ 52 * 2 ^ 971 ≤ (2 ^ 53 - 1) * 2 ^ 971 := Nat.mul_le_mul_right _ (by decide)
  rw [greatest_eq]
  exact_mod_cast hn.trans hle

theorem ofRatio_zero : ∀ negative,
    isFinite (ofRatio negative 0 1) = true ∧ exponent (ofRatio negative 0 1) = -1074 := by
  decide

/-- The double nearest to a natural below `2 ^ k`, with either sign. -/
theorem exponent_ofRatio_one (negative : Bool) (n k : Nat) (h : n < 2 ^ k) (hk : k ≤ 1023) :
    isFinite (ofRatio negative n 1) = true ∧
      exponent (ofRatio negative n 1) ≤ max ((k : ℤ) - 52) (-1073) := by
  rcases Nat.eq_zero_or_pos n with rfl | hn
  · obtain ⟨hfin, hexp⟩ := ofRatio_zero negative
    exact ⟨hfin, by omega⟩
  · have hq : (n : ℚ) / (1 : ℕ) = n := by simp
    have hle := natCast_le_greatest n k h hk
    obtain ⟨hfin, -, hexp, -⟩ := size_ofRatio negative n 1 hn Nat.one_pos (by rwa [hq])
    have hlog : floorLog2 n 1 < k := by
      rw [← two_zpow_lt]
      refine lt_of_le_of_lt (floorLog2_spec n 1 hn Nat.one_pos).1 ?_
      rw [hq, zpow_natCast]
      exact_mod_cast h
    have hunit : unitExponent n 1 = max (floorLog2 n 1 - 52) (-1074) := rfl
    exact ⟨hfin, by omega⟩

/-- The double nearest to a positive natural is a normal one. -/
theorem normal_ofNat (n : Nat) (hn : 0 < n) (h : (n : ℚ) ≤ greatest) :
    2 ^ 52 ≤ mantissa (ofNat n) ∧ -52 ≤ exponent (ofNat n) := by
  have hq : (n : ℚ) / (1 : ℕ) = n := by simp
  obtain ⟨-, -, -, hfull⟩ := size_ofRatio false n 1 hn Nat.one_pos (by rwa [hq])
  have hlog : -1 < floorLog2 n 1 := by
    have hhigh := (floorLog2_spec n 1 hn Nat.one_pos).2
    rw [hq] at hhigh
    have hlt : (2 : ℚ) ^ (0 : ℤ) < 2 ^ (floorLog2 n 1 + 1) := by
      refine lt_of_le_of_lt ?_ hhigh
      exact_mod_cast hn
    have := (two_zpow_lt _ _).1 hlt
    omega
  have hunit : unitExponent n 1 = max (floorLog2 n 1 - 52) (-1074) := rfl
  obtain ⟨hm, he⟩ := hfull ((significand_bounds n 1 hn Nat.one_pos).2.resolve_left (by omega))
  exact ⟨hm, le_trans (by omega) he⟩

/-- A quotient beyond the fourth double from the top is rounded to one of the top three, or to
infinity. -/
theorem ratio_le_of_nearestBits (num den : Nat) (hnum : 0 < num) (hden : 0 < den)
    (h : nearestBits num den < infinityBits - 3) :
    (num : ℚ) / den ≤ (2 ^ 53 - 7 / 2) * 2 ^ (971 : ℤ) := by
  by_contra hgt
  rw [not_le] at hgt
  obtain ⟨hunit, hhigh, hlow, herror⟩ := significand_spec num den hnum hden
  obtain ⟨hs, hnormal⟩ := significand_bounds num den hnum hden
  have hinf : infinityBits = 2047 * 4503599627370496 := rfl
  have hhid : hiddenBit = 4503599627370496 := rfl
  rw [nearestBits_eq, hinf, hhid] at h
  have hge : 971 ≤ unitExponent num den := by
    have hlt : (2 : ℚ) ^ (1023 : ℤ) < 2 ^ (unitExponent num den + 53) := by
      refine lt_of_le_of_lt ?_ (hgt.trans hhigh)
      rw [show (1023 : ℤ) = 52 + 971 by rfl, zpow_add₀ (by norm_num)]
      exact mul_le_mul_of_nonneg_right (by norm_num) (two_zpow_pos 971).le
    have := (two_zpow_lt _ _).1 hlt
    omega
  rcases lt_or_eq_of_le hge with hlt | heq
  · omega
  · have htop : 2 ^ 53 - 4 < significand num den := by
      have hscaled : (2 ^ 53 - 7 / 2 : ℚ) < num / den / 2 ^ unitExponent num den := by
        rw [lt_div_iff₀ (two_zpow_pos _), ← heq]
        exact hgt
      rw [abs_le] at herror
      have hlt : ((2 ^ 53 : ℕ) : ℚ) < (significand num den + 4 : ℕ) := by
        push_cast
        linarith
      have := Nat.cast_lt.1 hlt
      omega
    omega

end OrderDispatch.Binary64
