import OrderDispatch.Proofs.Number.Closeness

/-!
# Prices in cents

A price of `N` cents is handed over as the double nearest to `N / 100`, which is a count of units
`1 / 2 ^ t` and off by `r / 25` units for some `r` with `|r| ≤ 12`. In the places that its decimal
has room for that is less than half a unit, so that one rounding would always give the cents back.
Rounding at each digit gives them back as long as the double is less than four ninths of a unit
above them. That leaves two ranges out, in which ten to the places comes next to a power of two,

    10 ^ 6 = 0.954 * 2 ^ 20        429496729602 cents are taken for 4294967296.020001
    10 ^ 9 = 0.931 * 2 ^ 30        419430423 cents are taken for 4194304.230000001

and in them one amount in 25: that with `r = 12`. `slip N` is by how much it goes up.

    (ofFloat (ofCents N)).value = N / 100 + slip N              (value_ofFloat_cents)
-/

namespace OrderDispatch

/-! ## The double of an amount -/

namespace Binary64

/-- The double nearest to so many cents. -/
def ofCents (cents : Nat) : Float := ofRatio false cents 100

theorem cents_le_greatest (N : Nat) (h : N < 10 ^ 13) : (N : ℚ) / (100 : ℕ) ≤ greatest := by
  have hN := natCast_le_greatest N 44 (by omega) (by decide)
  exact (div_le_self (Nat.cast_nonneg N) (by norm_num)).trans hN

theorem isNegative_ofParts (bits : Nat) (h : bits < infinityBits) :
    isNegative (ofParts false bits) = false := by
  have hbits := toBits_ofParts false bits h
  have hinf : infinityBits = 9218868437227405312 := rfl
  have hsign : signBit = 9223372036854775808 := rfl
  unfold isNegative
  rw [hbits, hsign, Nat.div_eq_of_lt (by simp; omega)]
  rfl

theorem isNegative_ofCents (N : Nat) (h : N < 10 ^ 13) : isNegative (ofCents N) = false := by
  rcases Nat.eq_zero_or_pos N with rfl | hpos
  · decide
  · have hlt := nearestBits_lt N 100 hpos (by decide) (cents_le_greatest N h)
    unfold ofCents ofRatio
    rw [if_neg hpos.ne', nearestBits_eq, min_eq_left hlt.le]
    exact isNegative_ofParts _ hlt

/-- No double is nearer to so many cents. -/
theorem ofCents_nearest (N : Nat) (h : N < 10 ^ 13) (y : Float) :
    |signedSize (ofCents N) - N / 100| ≤ |signedSize y - N / 100| := by
  have hsigned : signedSize (ofCents N) = size (ofCents N) := by
    unfold signedSize
    rw [isNegative_ofCents N h, if_neg Bool.false_ne_true]
  rw [hsigned]
  rcases Nat.eq_zero_or_pos N with rfl | hpos
  · have hm : mantissa (ofCents 0) = 0 := by decide
    rw [size, hm]
    simp
  · exact_mod_cast ofRatio_nearest N 100 hpos (by decide) (cents_le_greatest N h) y

end Binary64

namespace Decimal

open Binary64 (isFinite size signedSize ofCents significand unitExponent)

/-! ## The unit of an amount -/

/-- So many cents lie between `2 ^ 52` and `2 ^ 53` units of `1 / 2 ^ t`, and `n` units are `r / 25`
of a unit above them. -/
structure Measured (N t n : Nat) (r : Int) : Prop where
  sixteen_le : 16 ≤ t
  le_fiftyNine : t ≤ 59
  low : 2 ^ 52 * 100 ≤ N * 2 ^ t
  high : N * 2 ^ t < 2 ^ 53 * 100
  normal : 2 ^ 52 ≤ n
  off : (25 * n : ℤ) = N * 2 ^ (t - 2) + r
  neg_le : -12 ≤ r
  le : r ≤ 12

/-- Cents over a unit of `1 / 2 ^ t`. -/
theorem div_unit_eq (N t : Nat) (u : Int) (hu : u = -t) :
    (N : ℚ) / (100 : ℕ) / 2 ^ u = N * 2 ^ t / 100 := by
  rw [hu, zpow_neg, zpow_natCast, Nat.cast_ofNat]
  field_simp

/-- The unit of an amount, and between which numbers of units it lies. -/
theorem exists_unit (N : Nat) (hpos : 0 < N) (h : N < 10 ^ 13) :
    ∃ t : Nat, unitExponent N 100 = -t ∧ 16 ≤ t ∧ t ≤ 59 ∧ 2 ^ 52 * 100 ≤ N * 2 ^ t ∧
      N * 2 ^ t < 2 ^ 53 * 100 := by
  obtain ⟨-, hhigh, hlow, -⟩ := Binary64.significand_spec N 100 hpos (by decide)
  have hfew : (N : ℚ) / (100 : ℕ) < 2 ^ (37 : ℤ) := by
    have hN : (N : ℚ) < 10 ^ 13 := by exact_mod_cast h
    rw [Nat.cast_ofNat, div_lt_iff₀ (by norm_num)]
    norm_num
    linarith
  have hsome : (2 : ℚ) ^ (-7 : ℤ) ≤ N / (100 : ℕ) := by
    have hN : (1 : ℚ) ≤ N := by exact_mod_cast hpos
    rw [Nat.cast_ofNat, le_div_iff₀ (by norm_num)]
    norm_num
    linarith
  have hlower := (Binary64.two_zpow_lt _ _).1 (hsome.trans_lt hhigh)
  have hbinade := hlow.resolve_left (by omega)
  have hupper := (Binary64.two_zpow_lt _ _).1 (hbinade.trans_lt hfew)
  obtain ⟨t, ht⟩ := Int.eq_ofNat_of_zero_le (show 0 ≤ -unitExponent N 100 by omega)
  have hu : unitExponent N 100 = -t := by omega
  have hpower := Binary64.two_zpow_pos (unitExponent N 100)
  rw [zpow_add₀ (by norm_num), mul_comm, ← le_div_iff₀ hpower, div_unit_eq N t _ hu,
    le_div_iff₀ (by norm_num)] at hbinade
  rw [zpow_add₀ (by norm_num), mul_comm, ← div_lt_iff₀ hpower, div_unit_eq N t _ hu,
    div_lt_iff₀ (by norm_num)] at hhigh
  exact ⟨t, hu, by omega, by omega, by exact_mod_cast hbinade, by exact_mod_cast hhigh⟩

theorem exists_measured (N : Nat) (hpos : 0 < N) (h : N < 10 ^ 13) :
    ∃ t n r, Measured N t n r ∧ unitExponent N 100 = -t ∧ significand N 100 = n := by
  obtain ⟨t, hu, hsixteen, hfiftyNine, hlow, hhigh⟩ := exists_unit N hpos h
  obtain ⟨-, -, -, herror⟩ := Binary64.significand_spec N 100 hpos (by decide)
  have hnormal := (Binary64.significand_bounds N 100 hpos (by decide)).2.resolve_left (by omega)
  rw [div_unit_eq N t _ hu] at herror
  -- A hundred times what the rounding adds is a multiple of four.
  have hoff : |4 * (25 * significand N 100 - N * 2 ^ (t - 2) : ℤ)| ≤ 50 := by
    obtain ⟨j, rfl⟩ : ∃ j, t = j + 2 := ⟨t - 2, by omega⟩
    have hexact : ((4 * (25 * significand N 100 - N * 2 ^ j) : ℤ) : ℚ) =
        100 * (significand N 100 - N * 2 ^ (j + 2) / 100) := by
      push_cast
      ring
    have hhundred : |((4 * (25 * significand N 100 - N * 2 ^ j) : ℤ) : ℚ)| ≤ 50 := by
      rw [hexact, abs_mul, abs_of_pos (show (0 : ℚ) < 100 by norm_num)]
      linarith
    exact_mod_cast hhundred
  rw [abs_le] at hoff
  exact ⟨t, significand N 100, 25 * significand N 100 - N * 2 ^ (t - 2),
    ⟨hsixteen, hfiftyNine, hlow, hhigh, hnormal, by omega, by omega, by omega⟩, hu, rfl⟩

/-! ## Amounts that go up -/

/-- Binary and decimal places whose units are as good as equal, the decimal one the greater. -/
def Tight (t s : Nat) : Prop := t = 20 ∧ s = 6 ∨ t = 30 ∧ s = 9

theorem Tight.two_le {t s : Nat} (h : Tight t s) : 2 ≤ s := by
  rcases h with ⟨-, rfl⟩ | ⟨-, rfl⟩ <;> decide

theorem Tight.le_fiftyTwo {t s : Nat} (h : Tight t s) : t ≤ 52 := by
  rcases h with ⟨rfl, -⟩ | ⟨rfl, -⟩ <;> decide

theorem Tight.lt_maxScale {t s : Nat} (h : Tight t s) : s < maxScale := by
  rcases h with ⟨-, rfl⟩ | ⟨-, rfl⟩ <;> decide

/-- The units are closer than two binary places, and than two decimal ones. -/
theorem Tight.bounds {t s : Nat} (h : Tight t s) :
    10 ^ s ≤ 2 ^ t ∧ 2 ^ (t - 1) ≤ 10 ^ s ∧ 2 ^ t < 10 ^ (s + 1) := by
  rcases h with ⟨rfl, rfl⟩ | ⟨rfl, rfl⟩ <;> norm_num

theorem tight_all : ∀ t < 60, ∀ s < 18, 16 ≤ t ∧ 10 ^ s ≤ 2 ^ t ∧ 25 * 2 ^ t ≤ 27 * 10 ^ s →
    t = 20 ∧ s = 6 ∨ t = 30 ∧ s = 9 := by
  decide +kernel

/-- The amounts of cents that go up in the last of `s` places: their doubles are as far above them
as they can be, twelve parts of 25 of a unit `1 / 2 ^ t`. -/
def GoesUp (t s N : Nat) : Prop :=
  100 * 2 ^ (52 - t) ≤ N ∧ N * 10 ^ (s - 2) < 2 ^ 52 ∧ (N * 2 ^ (t - 2) + 12) % 25 = 0

/-- Numbers less than one apart are equal. -/
theorem eq_of_close (a b : Nat) (h : (a : ℚ) < b + 1) (h' : (b : ℚ) < a + 1) : a = b := by
  have hle : a < b + 1 := by exact_mod_cast h
  have hge : b < a + 1 := by exact_mod_cast h'
  omega

/-- A whole count of cents, in two places or more. -/
theorem cents_eq (N s : Nat) (hs : 2 ≤ s) : (10 : ℚ) ^ s * (N / 100) = (N * 10 ^ (s - 2) : ℕ) := by
  obtain ⟨j, rfl⟩ : ∃ j, s = j + 2 := ⟨s - 2, by omega⟩
  rw [Nat.add_sub_cancel, pow_add]
  push_cast
  ring

namespace Measured

variable {N t n : Nat} {r : Int} (hN : Measured N t n r)

include hN

/-- The double of an amount is `r / 25` units off. -/
theorem double_eq : (n : ℚ) / 2 ^ t = N / 100 + r / 25 / 2 ^ t := by
  have ht := hN.sixteen_le
  have hpower : (2 : ℚ) ^ t = 2 ^ (t - 2) * 4 := by
    rw [show (4 : ℚ) = 2 ^ 2 by norm_num, ← pow_add]
    congr 1
    omega
  have hoff : (25 * n : ℚ) = N * 2 ^ (t - 2) + r := by exact_mod_cast hN.off
  rw [hpower, show (r : ℚ) = 25 * n - N * 2 ^ (t - 2) by linarith]
  field_simp
  ring

theorem count_le : n ≤ 2 ^ 53 := by
  have ht := hN.sixteen_le
  have hoff := hN.off
  have hle := hN.le
  have hhigh := hN.high
  obtain ⟨j, rfl⟩ : ∃ j, t = j + 2 := ⟨t - 2, by omega⟩
  rw [Nat.add_sub_cancel] at hoff
  rw [pow_add, ← mul_assoc] at hhigh
  zify at hhigh ⊢
  omega

/-- A double is off by no more than twelve parts of 25 of a unit that is no finer than its own. -/
theorem off_bounds (j : Nat) (hj : 10 ^ j ≤ 2 ^ t) :
    -((10 : ℚ) ^ j / 2 ^ t) * (12 / 25) ≤ 10 ^ j / 2 ^ t * (r / 25) ∧
      (10 : ℚ) ^ j / 2 ^ t * (r / 25) ≤ 10 ^ j / 2 ^ t * (12 / 25) ∧ (10 : ℚ) ^ j / 2 ^ t ≤ 1 := by
  have hP : (10 : ℚ) ^ j ≤ 2 ^ t := by exact_mod_cast hj
  have hlow : (-12 : ℚ) ≤ r := by exact_mod_cast hN.neg_le
  have hhigh : (r : ℚ) ≤ 12 := by exact_mod_cast hN.le
  have hnonneg : (0 : ℚ) ≤ 10 ^ j / 2 ^ t := by positivity
  refine ⟨?_, mul_le_mul_of_nonneg_left (by linarith) hnonneg, (div_le_one (by positivity)).2 hP⟩
  rw [neg_mul, ← mul_neg]
  exact mul_le_mul_of_nonneg_left (by linarith) hnonneg

end Measured

/-! ## What the decimal comes to -/

section Amount

variable {N t n m k q s : Nat} {r : Int} (hN : Measured N t n r)
  (hle : (m : ℚ) / 10 ^ k ≤ n / 2 ^ t) (hge : (n : ℚ) / 2 ^ t * (1 - 1 / 2 ^ 80) ≤ m / 10 ^ k)

include hN hle hge

/-- What is left of an amount, in places that are no finer than its double. -/
theorem Measured.in_places (j : Nat) (hj : 10 ^ j ≤ 2 ^ t) :
    10 ^ j * ((m : ℚ) / 10 ^ k) ≤ 10 ^ j * (N / 100) + 10 ^ j / 2 ^ t * (r / 25) ∧
      10 ^ j * (N / 100) + 10 ^ j / 2 ^ t * (r / 25) - 1 / 2 ^ 27 ≤
        10 ^ j * ((m : ℚ) / 10 ^ k) := by
  have hplaces := places_pos j
  have hexact : 10 ^ j * ((n : ℚ) / 2 ^ t) = 10 ^ j * (N / 100) + 10 ^ j / 2 ^ t * (r / 25) := by
    rw [hN.double_eq]
    ring
  have hfew : 10 ^ j * ((n : ℚ) / 2 ^ t) ≤ 2 ^ 53 := by
    have hj : (10 : ℚ) ^ j ≤ 2 ^ t := by exact_mod_cast hj
    have hn : (n : ℚ) ≤ 2 ^ 53 := by exact_mod_cast hN.count_le
    rw [mul_div_assoc', div_le_iff₀ (by positivity), mul_comm]
    exact mul_le_mul hn hj hplaces.le (by positivity)
  rw [← hexact]
  constructor
  · exact mul_le_mul_of_nonneg_left hle hplaces.le
  · have hscaled := mul_le_mul_of_nonneg_left hge hplaces.le
    rw [← mul_assoc] at hscaled
    linarith

/-- The double of an amount that may go up has digits behind the places it goes up in. -/
theorem Measured.places_lt (hr : r = 12) (j : Nat) (hj : Tight t j) : j + 3 ≤ k := by
  by_contra hfew
  -- Two places more, and what is left were a whole number.
  obtain ⟨i, hi⟩ : ∃ i, j + 2 = i + k := ⟨j + 2 - k, by omega⟩
  have hwhole : 100 * (10 ^ j * ((m : ℚ) / 10 ^ k)) = (m * 10 ^ i : ℕ) := by
    have hten : (100 : ℚ) * 10 ^ j = 10 ^ i * 10 ^ k := by
      rw [← pow_add, ← hi, pow_add]
      norm_num
      ring
    rw [← mul_assoc, hten]
    push_cast
    field_simp
  obtain ⟨hup, hdown⟩ := hN.in_places hle hge j hj.bounds.1
  rw [cents_eq N j hj.two_le, hr] at hup hdown
  generalize N * 10 ^ (j - 2) = whole at hup hdown
  generalize m * 10 ^ i = digits at hwhole
  obtain ⟨c, hc, hc'⟩ : ∃ c : ℕ, (c : ℚ) + 1 / 2 ^ 20 < 100 * (10 ^ j / 2 ^ t * ((12 : ℤ) / 25)) ∧
      100 * ((10 : ℚ) ^ j / 2 ^ t * ((12 : ℤ) / 25)) < c + 1 := by
    rcases hj with ⟨rfl, rfl⟩ | ⟨rfl, rfl⟩
    · exact ⟨45, by norm_num, by norm_num⟩
    · exact ⟨44, by norm_num, by norm_num⟩
  have hlow : 100 * whole + c < digits := by
    have hlt : (100 * whole + c : ℚ) < digits := by linarith
    exact_mod_cast hlt
  have hhigh : digits < 100 * whole + c + 1 := by
    have hlt : (digits : ℚ) < 100 * whole + c + 1 := by linarith
    exact_mod_cast hlt
  omega

variable (hs : Settles m k q s)

include hs

omit hle in
/-- The decimal of an amount has no finer places than its double. -/
theorem Measured.places_le : 10 ^ s ≤ 2 ^ t := by
  rcases hs.enough with rfl | hbits
  · exact Nat.one_le_two_pow
  by_contra hfine
  have hT : (2 : ℚ) ^ t ≤ 2 ^ 59 := pow_le_pow_right₀ (by norm_num) hN.le_fiftyNine
  have hP : (2 : ℚ) ^ t + 1 ≤ 10 ^ s := by exact_mod_cast Nat.not_le.1 hfine
  have hn : (2 : ℚ) ^ 52 ≤ n := by exact_mod_cast hN.normal
  have hq : (q : ℚ) + 1 ≤ 2 ^ 52 := by exact_mod_cast hbits
  have hround := hs.bounds.2
  have hten : (1 : ℚ) / 10 ^ (k - s) ≤ 1 := by
    rw [div_le_one (places_pos _)]
    exact one_le_pow₀ (by norm_num)
  have hshare : (2 : ℚ) ^ t ≤ 10 ^ s * (1 - 1 / 2 ^ 80) := by linarith
  have hsettled := mul_le_mul_of_nonneg_left hge (places_pos s).le
  have hlow : (2 : ℚ) ^ 52 ≤ 10 ^ s * ((n : ℚ) / 2 ^ t * (1 - 1 / 2 ^ 80)) := by
    rw [show (10 : ℚ) ^ s * (n / 2 ^ t * (1 - 1 / 2 ^ 80)) =
      n * (10 ^ s * (1 - 1 / 2 ^ 80)) / 2 ^ t by ring, le_div_iff₀ (by positivity)]
    exact mul_le_mul hn hshare (by positivity) (by positivity)
  linarith

/-- A decimal with all the digits of its double is the amount. -/
theorem Measured.settles_all (hall : s = k) : (q : ℚ) / 10 ^ s = N / 100 := by
  have hplaces := hN.places_le hge hs
  obtain ⟨hup, hdown⟩ := hN.in_places hle hge s hplaces
  obtain ⟨hless, hmore, hshare⟩ := hN.off_bounds s hplaces
  have hleft : 10 ^ s * ((m : ℚ) / 10 ^ k) = q := by
    rw [← hs.inUnits, hs.mantissa, hall, Nat.sub_self, Function.iterate_zero_apply, pow_zero,
      div_one]
  rw [hleft] at hup hdown
  rw [div_eq_div_iff (places_pos s).ne' (by norm_num)]
  by_cases htwo : 2 ≤ s
  · rw [cents_eq N s htwo] at hup hdown
    rw [eq_of_close q (N * 10 ^ (s - 2)) (by linarith) (by linarith), ← cents_eq N s htwo]
    ring
  · -- Without two places, a unit of the double is far less than a cent.
    have hcoarse : (10 : ℚ) ^ s / 2 ^ t ≤ 1 / 1000 := by
      have hT : (2 : ℚ) ^ 16 ≤ 2 ^ t := pow_le_pow_right₀ (by norm_num) hN.sixteen_le
      have hten : (10 : ℚ) ^ s ≤ 10 ^ 1 := pow_le_pow_right₀ (by norm_num) (by omega)
      rw [div_le_iff₀ (by positivity)]
      linarith
    have heq := eq_of_close (q * 100) (N * 10 ^ s) (by push_cast; linarith) (by push_cast; linarith)
    exact_mod_cast heq

/-- A digit is dropped behind four places at least. -/
theorem Measured.four_le (hdropped : s ≠ k) : 4 ≤ s := by
  have hplaces := hN.places_le hge hs
  have hT : 2 ^ t ≤ 2 ^ 59 := Nat.pow_le_pow_right (by decide) hN.le_fiftyNine
  have hlast : s ≠ maxScale := by
    rintro rfl
    exact absurd (hplaces.trans hT) (by decide)
  have hgreat := hs.great hdropped hlast
  by_contra hfew
  have hten : (10 : ℚ) ^ s ≤ 10 ^ 3 := pow_le_pow_right₀ (by norm_num) (by omega)
  have hsize : (m : ℚ) / 10 ^ k ≤ 2 ^ 37 := by
    refine hle.trans ?_
    have hn : (n : ℚ) ≤ 2 ^ 53 := by exact_mod_cast hN.count_le
    have hT : (2 : ℚ) ^ 16 ≤ 2 ^ t := pow_le_pow_right₀ (by norm_num) hN.sixteen_le
    rw [div_le_iff₀ (by positivity)]
    linarith
  have hproduct : 10 ^ s * ((m : ℚ) / 10 ^ k) ≤ 10 ^ 3 * 2 ^ 37 :=
    mul_le_mul hten hsize (by positivity) (by norm_num)
  linarith

/-- If digits are dropped, what is left is the amount, or its double was as far off as it can be. -/
theorem Measured.settles_dropped (hdropped : s ≠ k) :
    q = N * 10 ^ (s - 2) ∨ Tight t s ∧ r = 12 := by
  have hplaces := hN.places_le hge hs
  have hfour := hN.four_le hle hge hs hdropped
  obtain ⟨hup, hdown⟩ := hN.in_places hle hge s hplaces
  obtain ⟨hless, hmore, hshare⟩ := hN.off_bounds s hplaces
  obtain ⟨hround, hround'⟩ := hs.bounds
  rw [cents_eq N s (by omega)] at hup hdown
  have hdigits : (0 : ℚ) < 1 / 10 ^ (k - s) ∧ (1 : ℚ) / 10 ^ (k - s) ≤ 1 / 10 := by
    have hk := hs.places
    refine ⟨by positivity, div_le_div_of_nonneg_left zero_le_one (by norm_num) ?_⟩
    exact le_self_pow₀ (by norm_num) (by omega)
  by_cases hninths : (10 : ℚ) ^ s / 2 ^ t * (r / 25) < 4 / 9
  · left
    exact eq_of_close q _ (by linarith) (by linarith)
  right
  have hr : r = 12 := by
    by_contra hne
    have hle := hN.le
    have hfew : (r : ℚ) ≤ 11 := by exact_mod_cast (show r ≤ 11 by omega)
    have heleven : (10 : ℚ) ^ s / 2 ^ t * (r / 25) ≤ 10 ^ s / 2 ^ t * (11 / 25) :=
      mul_le_mul_of_nonneg_left (by linarith) (by positivity)
    linarith
  have hT : 2 ^ t ≤ 2 ^ 59 := Nat.pow_le_pow_right (by decide) hN.le_fiftyNine
  have hs18 : s < 18 := by
    have hlt : 10 ^ s < 10 ^ 18 := (hplaces.trans hT).trans_lt (by norm_num)
    exact (Nat.pow_lt_pow_iff_right (by norm_num)).1 hlt
  have hclose : 25 * 2 ^ t ≤ 27 * 10 ^ s := by
    rw [hr, not_lt, div_mul_eq_mul_div, le_div_iff₀ (by positivity)] at hninths
    push_cast at hninths
    have hle : (25 * 2 ^ t : ℚ) ≤ 27 * 10 ^ s := by linarith
    exact_mod_cast hle
  have ht : t < 60 := Nat.lt_succ_of_le hN.le_fiftyNine
  exact ⟨tight_all t ht s hs18 ⟨hN.sixteen_le, hplaces, hclose⟩, hr⟩

/-- In tight places an amount whose double is as far off as it can be goes up. -/
theorem Measured.settles_up (htight : Tight t s) (hr : r = 12) : q = N * 10 ^ (s - 2) + 1 := by
  have hbehind := hN.places_lt hle hge hr s htight
  obtain ⟨hup, hdown⟩ := hN.in_places hle hge s (hN.places_le hge hs)
  obtain ⟨hround, hround'⟩ := hs.bounds
  rw [cents_eq N s htight.two_le, hr] at hup hdown
  have hdigits : (0 : ℚ) < 1 / 10 ^ (k - s) ∧ (1 : ℚ) / 10 ^ (k - s) ≤ 1 / 10 ^ 3 := by
    refine ⟨by positivity, div_le_div_of_nonneg_left zero_le_one (by norm_num) ?_⟩
    exact pow_le_pow_right₀ (by norm_num) (by omega)
  have hshare : (446 / 1000 : ℚ) < 10 ^ s / 2 ^ t * ((12 : ℤ) / 25) ∧
      (10 : ℚ) ^ s / 2 ^ t * ((12 : ℤ) / 25) < 46 / 100 := by
    rcases htight with ⟨rfl, rfl⟩ | ⟨rfl, rfl⟩ <;> norm_num
  push_cast at hup hdown
  exact eq_of_close q _ (by push_cast; linarith) (by push_cast; linarith)

/-- Amounts that go up are in the range of their places. -/
theorem Measured.goesUp (htight : Tight t s) (hr : r = 12) : GoesUp t s N := by
  have hup := hN.settles_up hle hge hs htight hr
  have hbits : q < 2 ^ 52 := by
    refine hs.enough.resolve_left ?_
    have htwo := htight.two_le
    omega
  have hlow := hN.low
  have hoff := hN.off
  refine ⟨?_, by omega, ?_⟩
  · refine Nat.le_of_mul_le_mul_right ?_ (Nat.two_pow_pos t)
    rw [mul_assoc, ← pow_add, Nat.sub_add_cancel htight.le_fiftyTwo]
    omega
  · rw [hr] at hoff
    have hcast : 25 * n = N * 2 ^ (t - 2) + 12 := by exact_mod_cast hoff
    omega

/-- In the range of some places, only those amounts go up, and in these places. -/
theorem Measured.of_goesUp (u j : Nat) (htight : Tight u j) (h : GoesUp u j N) :
    t = u ∧ r = 12 ∧ s = j := by
  obtain ⟨hlow, hhigh, hresidue⟩ := h
  have htwo := htight.two_le
  have hle52 := htight.le_fiftyTwo
  obtain ⟨hfine, hnext, hlast⟩ := htight.bounds
  have htu : t ≤ u := by
    by_contra hgt
    have hpow : 2 ^ (u + 1) ≤ 2 ^ t := Nat.pow_le_pow_right (by decide) (by omega)
    have hbinade : 100 * 2 ^ 53 ≤ N * 2 ^ t := by
      calc 100 * 2 ^ 53 = 100 * 2 ^ (52 - u) * 2 ^ (u + 1) := by
            rw [mul_assoc, ← pow_add]
            congr 2
            omega
        _ ≤ N * 2 ^ t := Nat.mul_le_mul hlow hpow
    have hhigh := hN.high
    omega
  have hut : u ≤ t := by
    by_contra hlt
    have hpow : 2 ^ t ≤ 10 ^ j := (Nat.pow_le_pow_right (by decide) (by omega)).trans hnext
    have hbinade : 2 ^ 52 * 100 ≤ N * 10 ^ (j - 2) * 100 := by
      calc 2 ^ 52 * 100 ≤ N * 2 ^ t := hN.low
        _ ≤ N * 10 ^ j := Nat.mul_le_mul_left N hpow
        _ = N * 10 ^ (j - 2) * 100 := by
          rw [mul_assoc, show 100 = 10 ^ 2 from rfl, ← pow_add, Nat.sub_add_cancel htwo]
    omega
  obtain rfl := Nat.le_antisymm htu hut
  have hr : r = 12 := by
    have hoff := hN.off
    have hneg := hN.neg_le
    have hpos := hN.le
    have hcast : ((N * 2 ^ (t - 2) + 12 : ℕ) : ℤ) % 25 = 0 := by exact_mod_cast hresidue
    push_cast at hcast
    omega
  refine ⟨rfl, hr, Nat.le_antisymm ?_ ?_⟩
  · have hlt := (hN.places_le hge hs).trans_lt hlast
    exact Nat.lt_succ_iff.1 ((Nat.pow_lt_pow_iff_right (by norm_num)).1 hlt)
  · -- With fewer places, no digit more would have been dropped.
    by_contra hfewer
    have hbehind := hN.places_lt hle hge hr j htight
    have hgreat := hs.great (by omega) (lt_trans (Nat.not_le.1 hfewer) htight.lt_maxScale).ne
    obtain ⟨hup, -⟩ := hN.in_places hle hge j hfine
    obtain ⟨-, hmore, hshare⟩ := hN.off_bounds j hfine
    have hten : (10 : ℚ) * (10 ^ s * (m / 10 ^ k)) ≤ 10 ^ j * (m / 10 ^ k) := by
      rw [← mul_assoc, ← pow_succ']
      refine mul_le_mul_of_nonneg_right ?_ (by positivity)
      exact pow_le_pow_right₀ (by norm_num) (by omega)
    rw [cents_eq N j htwo] at hup
    have hround : 2 ^ 52 < N * 10 ^ (j - 2) + 2 := by
      have hlt : (2 ^ 52 : ℚ) < (N * 10 ^ (j - 2) : ℕ) + 2 := by linarith
      exact_mod_cast hlt
    -- The amount ends in zeros, and `2 ^ 52` does not.
    have hzeros : N * 10 ^ (j - 2) % 100 = 0 := by
      rcases htight with ⟨-, rfl⟩ | ⟨-, rfl⟩
      · omega
      · omega
    omega

end Amount

/-! ## All amounts -/

/-- By how much an amount of cents goes up when its double is turned into a decimal. -/
def slip (N : Nat) : ℚ :=
  if 429496729600 ≤ N ∧ N ≤ 450359962737 ∧ N % 25 = 2 then 1 / 10 ^ 6
  else if 419430400 ≤ N ∧ N ≤ 450359962 ∧ N % 25 = 23 then 1 / 10 ^ 9
  else 0

/-- What twelve parts of 25 more come to, of units as many as `c` modulo 25. -/
theorem add_twelve_mod (N c : Nat) : (N * c + 12) % 25 = (N % 25 * (c % 25) + 12) % 25 := by
  rw [Nat.add_mod, Nat.mul_mod, ← Nat.add_mod]

theorem goesUp_six (N : Nat) :
    GoesUp 20 6 N ↔ 429496729600 ≤ N ∧ N ≤ 450359962737 ∧ N % 25 = 2 := by
  have hrange : N * 10 ^ (6 - 2) < 2 ^ 52 ↔ N ≤ 450359962737 := by
    norm_num
    omega
  have hresidue : (N * 2 ^ (20 - 2) + 12) % 25 = 0 ↔ N % 25 = 2 := by
    rw [add_twelve_mod, show 2 ^ (20 - 2) % 25 = 19 by norm_num]
    omega
  unfold GoesUp
  rw [hrange, hresidue]
  norm_num

theorem goesUp_nine (N : Nat) :
    GoesUp 30 9 N ↔ 419430400 ≤ N ∧ N ≤ 450359962 ∧ N % 25 = 23 := by
  have hrange : N * 10 ^ (9 - 2) < 2 ^ 52 ↔ N ≤ 450359962 := by
    norm_num
    omega
  have hresidue : (N * 2 ^ (30 - 2) + 12) % 25 = 0 ↔ N % 25 = 23 := by
    rw [add_twelve_mod, show 2 ^ (30 - 2) % 25 = 6 by norm_num]
    omega
  unfold GoesUp
  rw [hrange, hresidue]
  norm_num

theorem slip_nonneg (N : Nat) : 0 ≤ slip N := by
  unfold slip
  split
  · norm_num
  · split <;> norm_num

/-- An amount goes up by a unit in the last of some tight places, or not at all. -/
theorem slip_cases (N : Nat) :
    (slip N = 0 ∧ ∀ t s, Tight t s → ¬ GoesUp t s N) ∨
      ∃ t s, Tight t s ∧ GoesUp t s N ∧ slip N = 1 / 10 ^ s := by
  unfold slip
  split
  · next hsix => exact .inr ⟨20, 6, .inl ⟨rfl, rfl⟩, (goesUp_six N).2 hsix, rfl⟩
  · next hsix =>
    split
    · next hnine => exact .inr ⟨30, 9, .inr ⟨rfl, rfl⟩, (goesUp_nine N).2 hnine, rfl⟩
    · next hnine =>
      refine .inl ⟨rfl, ?_⟩
      rintro t s (⟨rfl, rfl⟩ | ⟨rfl, rfl⟩) hup
      · exact hsix ((goesUp_six N).1 hup)
      · exact hnine ((goesUp_nine N).1 hup)

/-- What the double of an amount settles at is the amount, or goes up. -/
theorem Measured.value {N t n m k q s : Nat} {r : Int} (hN : Measured N t n r)
    (hle : (m : ℚ) / 10 ^ k ≤ n / 2 ^ t) (hge : (n : ℚ) / 2 ^ t * (1 - 1 / 2 ^ 80) ≤ m / 10 ^ k)
    (hs : Settles m k q s) : (q : ℚ) / 10 ^ s = N / 100 + slip N := by
  have hplaces := (places_pos s).ne'
  rcases slip_cases N with ⟨hslip, hnone⟩ | ⟨u, j, htight, hup, hslip⟩
  · rw [hslip, add_zero]
    by_cases hall : s = k
    · exact hN.settles_all hle hge hs hall
    · rcases hN.settles_dropped hle hge hs hall with hq | ⟨htight, hr⟩
      · have hfour := hN.four_le hle hge hs hall
        rw [hq, ← cents_eq N s (by omega), mul_div_cancel_left₀ _ hplaces]
      · exact absurd (hN.goesUp hle hge hs htight hr) (hnone t s htight)
  · obtain ⟨rfl, hr, rfl⟩ := hN.of_goesUp hle hge hs u j htight hup
    rw [hslip, hN.settles_up hle hge hs htight hr, Nat.cast_succ, ← cents_eq N s htight.two_le,
      add_div, mul_div_cancel_left₀ _ hplaces]

/-- The decimal of the double of an amount ends in a digit, or has no places. -/
theorem ofFloat?_cents (N : Nat) (h : N < 10 ^ 13) :
    ∃ m s, ofFloat? (ofCents N) = some ⟨false, m, s⟩ ∧ (m : ℚ) / 10 ^ s = N / 100 + slip N ∧
      (s = 0 ∨ m % 10 ≠ 0) := by
  rcases Nat.eq_zero_or_pos N with rfl | hpos
  · have hzero : ofFloat? (ofCents 0) = some ⟨false, 0, 0⟩ := by decide
    exact ⟨0, 0, hzero, by simp [slip], .inl rfl⟩
  obtain ⟨t, n, r, hN, hunit, hn⟩ := exists_measured N hpos h
  have hgreatest := Binary64.cents_le_greatest N h
  have ht := hN.sixteen_le
  have hsize : size (ofCents N) = n / 2 ^ t := by
    rw [ofCents, Binary64.size_ofRatio_eq false N 100 hpos (by decide) hgreatest, hunit, hn,
      zpow_neg, zpow_natCast, div_eq_mul_inv]
  obtain ⟨hfin, -, hexp, hfull⟩ :=
    Binary64.size_ofRatio false N 100 hpos (by decide) hgreatest
  have hmantissa := (hfull (hn ▸ hN.normal)).1
  rw [hunit] at hexp
  have hneg : Binary64.exponent (ofCents N) < 0 := by
    unfold ofCents
    omega
  obtain ⟨e, he⟩ := Int.eq_ofNat_of_zero_le (Int.neg_nonneg_of_nonpos hneg.le)
  obtain ⟨m, k, hshifted, hle, hge⟩ := exists_shifted (ofCents N) hfin
    (ne_of_gt (lt_of_lt_of_le (by decide) hmantissa)) e (by omega) (by omega)
  rw [hsize] at hle hge
  obtain ⟨⟨m', s'⟩, hsettle, hend, hcases⟩ := settle?_cases m k
  rw [Binary64.isNegative_ofCents N h, hsettle] at hshifted
  refine ⟨m', s', hshifted, ?_, hend⟩
  rcases hcases with ⟨-, d, hd, hgone⟩ | ⟨q, s, hsettles, hvalue⟩
  · -- An amount is too great to vanish.
    have hsmall := small_of_gone m k d hd hgone
    have hn : (2 ^ 52 : ℚ) ≤ n := by exact_mod_cast hN.normal
    have hT : (2 : ℚ) ^ t ≤ 2 ^ 59 := pow_le_pow_right₀ (by norm_num) hN.le_fiftyNine
    have hleast : (1 / 2 ^ 7 : ℚ) ≤ n / 2 ^ t := by
      rw [div_le_div_iff₀ (by norm_num) (by positivity)]
      linarith
    linarith
  · exact hvalue.trans (hN.value hle hge hsettles)

/-- The decimal of a price in cents is the price, but for one in 25 of two ranges. -/
theorem value_ofFloat_cents (N : Nat) (h : N < 10 ^ 13) :
    (ofFloat (ofCents N)).value = N / 100 + slip N := by
  obtain ⟨m, s, hsome, hvalue, -⟩ := ofFloat?_cents N h
  rw [ofFloat, hsome, Option.getD_some, value_nonneg, hvalue]

end Decimal

end OrderDispatch
