import OrderDispatch.Proofs.Number.Operations

/-!
# The nearest double

A finite double is a number with a sign, and the double that a quotient is rounded to is no farther
from it than any other:

    |signedSize (ofRatio false num den) - num / den| ≤ |signedSize y - num / den|   (ofRatio_nearest)

Doubles of no lesser exponent than the unit of the quotient are integers in that unit, and the
quotient is rounded to the nearest integer. All others are below its binade, and an integer too.
-/

namespace OrderDispatch.Binary64

/-- The number that a finite double is. -/
def signedSize (x : Float) : ℚ := if isNegative x then -size x else size x

theorem abs_signedSize (x : Float) : |signedSize x| = size x := by
  unfold signedSize
  split
  · rw [abs_neg, abs_of_nonneg (size_nonneg x)]
  · rw [abs_of_nonneg (size_nonneg x)]

theorem size_of_exponent (x : Float) (k : Nat) (he : exponent x = -k) :
    size x = mantissa x / 2 ^ k := by
  simp [size, he, div_eq_mul_inv]

/-- The nearest double to a quotient is its rounded significand, in its unit. -/
theorem size_ofRatio_eq (negative : Bool) (num den : Nat) (hnum : 0 < num) (hden : 0 < den)
    (h : (num : ℚ) / den ≤ greatest) :
    size (ofRatio negative num den) = significand num den * 2 ^ unitExponent num den := by
  have hlt := nearestBits_lt num den hnum hden h
  obtain ⟨hunit, -⟩ := significand_spec num den hnum hden
  obtain ⟨hs, hnormal⟩ := significand_bounds num den hnum hden
  unfold ofRatio
  rw [if_neg hnum.ne', nearestBits_eq, min_eq_left hlt.le]
  exact (size_ofParts negative _ _ hunit hs hnormal hlt).1

/-- In its unit, a quotient is rounded to the nearest integer. -/
theorem significand_nearest (num den : Nat) (hnum : 0 < num) (hden : 0 < den) (z : ℤ) :
    |significand num den * 2 ^ unitExponent num den - (num : ℚ) / den| ≤
      |z * 2 ^ unitExponent num den - (num : ℚ) / den| := by
  obtain ⟨-, -, -, herror⟩ := significand_spec num den hnum hden
  have hpos := two_zpow_pos (unitExponent num den)
  generalize unitExponent num den = u at *
  have hscaled : ∀ v : ℚ, v * 2 ^ u - num / den = (v - num / den / 2 ^ u) * 2 ^ u := by
    intro v
    rw [sub_mul, div_mul_cancel₀ _ hpos.ne']
  rw [hscaled, hscaled, abs_mul, abs_mul]
  refine mul_le_mul_of_nonneg_right ?_ (abs_nonneg _)
  by_cases hz : z = significand num den
  · rw [hz, Int.cast_natCast]
  · have hone : (1 : ℚ) ≤ |(z : ℚ) - significand num den| := by
      exact_mod_cast Int.one_le_abs (sub_ne_zero.2 hz)
    have htri := abs_sub_le (z : ℚ) (num / den / 2 ^ u) (significand num den)
    rw [abs_sub_comm (num / den / 2 ^ u : ℚ) (significand num den)] at htri
    linarith

/-- A double is an integer in every unit that is no greater than its own. -/
theorem exists_signedSize (x : Float) (u : ℤ) (hu : u ≤ exponent x) :
    ∃ z : ℤ, signedSize x = z * 2 ^ u := by
  obtain ⟨j, hj⟩ := Int.eq_ofNat_of_zero_le (sub_nonneg.2 hu)
  have hsize : size x = ((mantissa x * 2 ^ j : ℤ) : ℚ) * 2 ^ u := by
    unfold size
    rw [show exponent x = j + u by omega, zpow_add₀ (by norm_num), zpow_natCast]
    push_cast
    ring
  unfold signedSize
  split
  · exact ⟨-(mantissa x * 2 ^ j), by rw [hsize, Int.cast_neg, neg_mul]⟩
  · exact ⟨mantissa x * 2 ^ j, hsize⟩

/-- A double with a lesser exponent is below the binade of a unit. -/
theorem signedSize_le (x : Float) (u : ℤ) (hu : exponent x < u) : signedSize x ≤ 2 ^ (u + 52) := by
  calc signedSize x ≤ |signedSize x| := le_abs_self _
    _ = mantissa x * 2 ^ exponent x := abs_signedSize x
    _ ≤ 2 ^ 53 * 2 ^ exponent x := by
      refine mul_le_mul_of_nonneg_right ?_ (two_zpow_pos _).le
      exact_mod_cast (mantissa_lt x).le
    _ = 2 ^ (exponent x + 53) := by
      rw [zpow_add₀ (by norm_num), mul_comm]
      norm_cast
    _ ≤ 2 ^ (u + 52) := (two_zpow_le _ _).2 (by omega)

/-- No double is nearer to a quotient than the one it is rounded to. -/
theorem ofRatio_nearest (num den : Nat) (hnum : 0 < num) (hden : 0 < den)
    (h : (num : ℚ) / den ≤ greatest) (y : Float) :
    |size (ofRatio false num den) - num / den| ≤ |signedSize y - num / den| := by
  obtain ⟨hleast, -, hlow, -⟩ := significand_spec num den hnum hden
  rw [size_ofRatio_eq false num den hnum hden h]
  rcases le_or_gt (unitExponent num den) (exponent y) with hle | hlt
  · obtain ⟨z, hz⟩ := exists_signedSize y _ hle
    rw [hz]
    exact significand_nearest num den hnum hden z
  · -- The least double of the binade is nearer than any below it.
    have hsmall := signedSize_le y _ hlt
    have hbinade : (2 : ℚ) ^ (unitExponent num den + 52) ≤ num / den := by
      refine hlow.resolve_left fun hu => ?_
      have hexp : -1074 ≤ exponent y := by
        unfold exponent
        omega
      omega
    have hfloor := significand_nearest num den hnum hden (2 ^ 52)
    have hpower : (((2 : ℤ) ^ 52 : ℤ) : ℚ) * 2 ^ unitExponent num den =
        2 ^ (unitExponent num den + 52) := by
      rw [zpow_add₀ (by norm_num), mul_comm]
      norm_cast
    rw [hpower, abs_of_nonpos (sub_nonpos.2 hbinade)] at hfloor
    rw [abs_of_nonpos (a := signedSize y - _) (by linarith)]
    linarith

end OrderDispatch.Binary64
