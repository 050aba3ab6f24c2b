import OrderDispatch.Proofs.Number.Comparison
import OrderDispatch.Proofs.Number.Distance
import OrderDispatch.Proofs.Number.Legible

/-!
# What digits tell apart

The digits of a finite double stand for an exact number that is rounded to this double, and to no
other. So no two finite doubles are written alike:

    Rounds q x → Rounds q y → x and y have the same bits, sign apart      (Rounds.unique)
    isFinite x → mantissa x ≠ 0 → Rounds (written x) x                    (rounds_written)
    isFinite x → isFinite y → (spelling x = spelling y ↔ x = y)           (spelling_inj)

Rounding looks at a quotient as a number, whatever its numerator and its denominator are. The digits
that are picked are checked by rounding them, so all there is to show of the way they are picked is
that the number checked is the number written: a digit that is dropped is a zero.
-/

namespace OrderDispatch

theorem roundHalfEven_mul (num den k : Nat) (hk : 0 < k) :
    roundHalfEven (num * k) (den * k) = roundHalfEven num den := by
  unfold roundHalfEven
  simp only [Nat.mul_div_mul_right _ _ hk, Nat.mul_mod_mul_right, ← Nat.mul_assoc,
    Nat.mul_lt_mul_right hk, Nat.mul_left_inj hk.ne']

/-- Rounding depends on the quotient alone. -/
theorem roundHalfEven_congr (num den num' den' : Nat) (hden : 0 < den) (hden' : 0 < den')
    (h : num * den' = num' * den) : roundHalfEven num den = roundHalfEven num' den' := by
  rw [← roundHalfEven_mul num den den' hden', h, Nat.mul_comm den den',
    roundHalfEven_mul num' den' den hden]

namespace Binary64

open Json (spelling)

/-! ## The quotient alone -/

section Quotient

variable (num den num' den' : Nat) (hnum : 0 < num) (hden : 0 < den) (hnum' : 0 < num')
  (hden' : 0 < den') (h : (num : ℚ) / den = num' / den')

include hnum hden hnum' hden' h

theorem floorLog2_congr : floorLog2 num den = floorLog2 num' den' := by
  obtain ⟨hlow, hhigh⟩ := floorLog2_spec num den hnum hden
  obtain ⟨hlow', hhigh'⟩ := floorLog2_spec num' den' hnum' hden'
  rw [h] at hlow hhigh
  have hle := (two_zpow_lt _ _).1 (hlow.trans_lt hhigh')
  have hge := (two_zpow_lt _ _).1 (hlow'.trans_lt hhigh)
  omega

/-- The nearest double depends on the quotient alone. -/
theorem nearestBits_congr : nearestBits num den = nearestBits num' den' := by
  have hunit : unitExponent num den = unitExponent num' den' := by
    unfold unitExponent
    rw [floorLog2_congr num den num' den' hnum hden hnum' hden' h]
  have hcross : num * den' = num' * den := by
    rw [div_eq_div_iff (by exact_mod_cast hden.ne') (by exact_mod_cast hden'.ne')] at h
    exact_mod_cast h
  have hsignificand : significand num den = significand num' den' := by
    unfold significand
    rw [hunit]
    refine roundHalfEven_congr _ _ _ _ (Nat.mul_pos hden (Nat.two_pow_pos _))
      (Nat.mul_pos hden' (Nat.two_pow_pos _)) ?_
    rw [Nat.mul_mul_mul_comm, hcross, Nat.mul_mul_mul_comm]
  rw [nearestBits_eq, nearestBits_eq, hunit, hsignificand]

end Quotient

/-- The double that an exact positive number is rounded to, whatever its sign. -/
def Rounds (q : ℚ) (x : Float) : Prop :=
  ∃ num den : Nat, 0 < num ∧ 0 < den ∧ (num : ℚ) / den = q ∧
    nearestBits num den = x.toBits.toNat % signBit

theorem Rounds.unique {q : ℚ} {x y : Float} (hx : Rounds q x) (hy : Rounds q y) :
    x.toBits.toNat % signBit = y.toBits.toNat % signBit := by
  obtain ⟨num, den, hnum, hden, hq, hbits⟩ := hx
  obtain ⟨num', den', hnum', hden', hq', hbits'⟩ := hy
  rw [← hbits, ← hbits']
  exact nearestBits_congr num den num' den' hnum hden hnum' hden' (hq.trans hq'.symm)

/-! ## A double as an exact number -/

theorem magnitudeBits_eq (x : Float) (hfin : isFinite x = true) :
    x.toBits.toNat % signBit = (exponent x + 1074).toNat * hiddenBit + mantissa x := by
  have hlt := magnitudeBits_lt x hfin
  have hsign : signBit = 9223372036854775808 := rfl
  have hhid : hiddenBit = 4503599627370496 := rfl
  have hinf : infinityBits = 9218868437227405312 := rfl
  have hexp : (exponent x + 1074).toNat = max (biasedExponent x) 1 - 1 := by
    unfold exponent
    omega
  rw [hexp]
  unfold mantissa biasedExponent fraction
  rw [hsign, hinf] at hlt
  rw [hsign, hhid, show 2 ^ exponentBits = 2048 from rfl]
  split <;> omega

/-- Finite doubles of the same magnitude have the same bits, sign apart. -/
theorem magnitudeBits_of_size (x y : Float) (hx : isFinite x = true) (hy : isFinite y = true)
    (h : size x = size y) : x.toBits.toNat % signBit = y.toBits.toNat % signBit := by
  have hparts := compare_parts x y
  rw [compare_eq_iff_eq.2 h, Ordering.then_eq_eq, compare_eq_iff_eq, compare_eq_iff_eq] at hparts
  rw [magnitudeBits_eq x hx, magnitudeBits_eq y hy, hparts.1, hparts.2]

theorem magnitude_spec (x : Float) (hx : mantissa x ≠ 0) :
    0 < (magnitude x).1 ∧ 0 < (magnitude x).2 ∧ ((magnitude x).1 : ℚ) / (magnitude x).2 = size x := by
  refine ⟨Nat.mul_pos (Nat.pos_of_ne_zero hx) (Nat.two_pow_pos _), Nat.two_pow_pos _, ?_⟩
  have h := scaled_eq (mantissa x) 1 (-exponent x) Nat.one_pos
  rw [neg_neg, Nat.one_mul] at h
  show ((mantissa x * 2 ^ (exponent x).toNat : ℕ) : ℚ) / ((2 ^ (-exponent x).toNat : ℕ) : ℚ) = _
  rw [h, Nat.cast_one, div_one, zpow_neg, div_inv_eq_mul]
  rfl

theorem size_le_greatest (x : Float) (hfin : isFinite x = true) : size x ≤ greatest := by
  have hm : (mantissa x : ℚ) ≤ 2 ^ 53 - 1 := by
    have : (mantissa x : ℚ) + 1 ≤ 2 ^ 53 := by exact_mod_cast mantissa_lt x
    linarith
  unfold size greatest
  exact mul_le_mul hm ((two_zpow_le _ _).2 (exponent_bounds x hfin).2) (two_zpow_pos _).le
    (by norm_num)

theorem signedSize_abs (x : Float) (hfin : isFinite x = true) : signedSize (abs x) = size x := by
  have hbits := toBits_abs x hfin
  have hsign : signBit = 9223372036854775808 := rfl
  have hhid : hiddenBit = 4503599627370496 := rfl
  have hbiased : biasedExponent (abs x) = biasedExponent x := by
    unfold biasedExponent
    rw [hbits, hsign, hhid, show 2 ^ exponentBits = 2048 from rfl]
    omega
  have hfraction : fraction (abs x) = fraction x := by
    unfold fraction
    rw [hbits, hsign, hhid]
    omega
  have hpositive : isNegative (abs x) = false := by
    unfold isNegative
    rw [hbits, Nat.div_eq_of_lt (Nat.mod_lt _ (by decide))]
    rfl
  unfold signedSize size mantissa exponent
  rw [hpositive, hbiased, hfraction]
  rfl

/-- A finite double is what its own magnitude is rounded to. -/
theorem rounds_size (x : Float) (hfin : isFinite x = true) (hx : mantissa x ≠ 0) :
    Rounds (size x) x := by
  obtain ⟨hnum, hden, hsize⟩ := magnitude_spec x hx
  have hle : ((magnitude x).1 : ℚ) / (magnitude x).2 ≤ greatest := by
    rw [hsize]
    exact size_le_greatest x hfin
  have hnear := ofRatio_nearest _ _ hnum hden hle (abs x)
  rw [hsize, signedSize_abs x hfin, sub_self, abs_zero] at hnear
  have hsame := sub_eq_zero.1 (abs_nonpos_iff.1 hnear)
  have hfinite := (size_ofRatio false _ _ hnum hden hle).1
  have hbits := magnitudeBits_of_size _ x hfinite hfin hsame
  refine ⟨_, _, hnum, hden, hsize, ?_⟩
  rw [← hbits, toBits_ofRatio _ _ hnum, Nat.mod_eq_of_lt]
  have hlt := magnitudeBits_lt _ hfinite
  rw [nearestBits_eq]
  exact (min_le_right _ _).trans_lt (by decide)

/-! ## Digits that are read back -/

/-- The nearest double to a decimal number, but for far exponents. -/
theorem toBits_ofDecimal (digits : Nat) (power : Int) (hd : 0 < digits) :
    (ofDecimal false digits power).toBits.toNat = infinityBits ∨
      (ofDecimal false digits power).toBits.toNat = 0 ∨
      (ofDecimal false digits power).toBits.toNat =
        nearestBits (digits * 10 ^ power.toNat) (10 ^ (-power).toNat) := by
  unfold ofDecimal
  simp only [if_neg hd.ne']
  rcases Int.lt_or_le power 0 with hneg | hnonneg
  · rw [if_neg (by omega), show power.toNat = 0 by omega, pow_zero, mul_one]
    split
    · exact .inr (.inl (toBits_ofParts false 0 (by decide)))
    · exact .inr (.inr (toBits_ofRatio _ _ hd))
  · rw [if_pos hnonneg, show (-power).toNat = 0 by omega, pow_zero]
    split
    · exact .inl toBits_infinity
    · exact .inr (.inr (toBits_ofRatio _ _ (Nat.mul_pos hd (Nat.pow_pos (by decide)))))

/-- Digits that are read back as a double are rounded to it. -/
theorem rounds_of_readsBack (x : Float) (digits : Nat) (grid : Int) (hfin : isFinite x = true)
    (hx : mantissa x ≠ 0) (h : readsBack x digits grid = true) :
    Rounds (decimalValue digits grid) x := by
  have hd : 0 < digits := by
    apply Nat.pos_of_ne_zero
    rintro rfl
    rw [readsBack_zero x grid hfin hx] at h
    cases h
  have hbits : (ofDecimal false digits grid).toBits.toNat = x.toBits.toNat % signBit := by
    unfold readsBack at h
    rw [eq_of_beq h, toBits_abs x hfin]
  refine ⟨digits * 10 ^ grid.toNat, 10 ^ (-grid).toNat, Nat.mul_pos hd (Nat.pow_pos (by decide)),
    Nat.pow_pos (by decide), (decimalValue_eq_div digits grid).symm, ?_⟩
  rcases toBits_ofDecimal digits grid hd with hinf | hzero | hnear
  · exact absurd (hbits.symm.trans hinf) (magnitudeBits_lt x hfin).ne
  · exact absurd ((magnitudeBits_eq_zero_iff x).1 (hbits.symm.trans hzero)) hx
  · exact hnear.symm.trans hbits

/-! ## Digits that are dropped -/

/-- Powers of two and ten compared: `10 ^ 28` is a little above `2 ^ 93`, and `10 ^ 59` a little
below `2 ^ 196`. -/
theorem two_zpow_le_ten_zpow (j k : ℤ)
    (h : 0 ≤ j ∧ 28 * j ≤ 93 * k ∨ j ≤ 0 ∧ 59 * j ≤ 196 * k) : (2 : ℚ) ^ j ≤ 10 ^ k := by
  rcases h with ⟨hj, hle⟩ | ⟨hj, hle⟩
  · refine le_of_pow_le_pow_left₀ (n := 93) (by decide) (by positivity) ?_
    rw [← zpow_natCast, ← zpow_natCast, ← zpow_mul, ← zpow_mul]
    calc (2 : ℚ) ^ (j * (93 : ℕ)) = (2 ^ (93 : ℤ)) ^ j := by rw [← zpow_mul, mul_comm]; rfl
      _ ≤ (10 ^ (28 : ℤ)) ^ j := zpow_le_zpow_left₀ hj (by positivity) (by norm_num)
      _ = 10 ^ (28 * j) := by rw [← zpow_mul]
      _ ≤ 10 ^ (k * (93 : ℕ)) := zpow_le_zpow_right₀ (by norm_num) (by omega)
  · refine le_of_pow_le_pow_left₀ (n := 196) (by decide) (by positivity) ?_
    rw [← zpow_natCast, ← zpow_natCast, ← zpow_mul, ← zpow_mul]
    calc (2 : ℚ) ^ (j * (196 : ℕ)) = ((2 ^ (196 : ℤ)) ^ (-j))⁻¹ := by
          rw [← zpow_mul, ← zpow_neg]
          congr 1
          push_cast
          ring
      _ ≤ ((10 ^ (59 : ℤ)) ^ (-j))⁻¹ :=
        inv_anti₀ (by positivity) (zpow_le_zpow_left₀ (by omega) (by positivity) (by norm_num))
      _ = 10 ^ (59 * j) := by
          rw [← zpow_mul, ← zpow_neg]
          congr 1
          ring
      _ ≤ 10 ^ (k * (196 : ℕ)) := zpow_le_zpow_right₀ (by norm_num) (by omega)

theorem atLeastTenPow_iff (num den : Nat) (p : ℤ) (hden : 0 < den) :
    atLeastTenPow num den p = true ↔ (10 : ℚ) ^ p ≤ num / den := by
  have hpos : (0 : ℚ) < ((den * 10 ^ p.toNat : ℕ) : ℚ) := by
    exact_mod_cast Nat.mul_pos hden (Nat.pow_pos (by decide))
  have hscaled := scaled_pow_eq 10 num den p (by decide) hden
  rw [Nat.cast_ofNat] at hscaled
  have hone : (10 : ℚ) ^ p ≤ num / den ↔ 1 ≤ (num : ℚ) / den / 10 ^ p := by
    rw [le_div_iff₀ (ten_zpow_pos p), one_mul]
  rw [hone, ← hscaled, le_div_iff₀ hpos, one_mul, Nat.cast_le]
  unfold atLeastTenPow
  exact decide_eq_true_iff

/-- The magnitude of a double is below the power of ten of its decimal point. -/
theorem size_lt_tenPow (x : Float) (hfin : isFinite x = true) (hx : mantissa x ≠ 0) :
    size x < 10 ^ decimalPoint (magnitude x).1 (magnitude x).2 := by
  obtain ⟨hnum, hden, hsize⟩ := magnitude_spec x hx
  obtain ⟨hlow, hhigh⟩ := floorLog2_spec _ _ hnum hden
  have hbelow : ∀ p, ¬ atLeastTenPow (magnitude x).1 (magnitude x).2 p = true →
      size x < 10 ^ p := by
    intro p hp
    rw [atLeastTenPow_iff _ _ p hden, not_le, hsize] at hp
    exact hp
  rw [hsize] at hlow hhigh
  unfold decimalPoint
  simp only
  split
  · -- The guess is not two powers off, as the exponents of doubles are small.
    refine hhigh.trans_le (two_zpow_le_ten_zpow _ _ ?_)
    have htop := (two_zpow_lt _ _).1 (hlow.trans_lt
      ((size_le_greatest x hfin).trans_lt greatest_lt))
    have hleast : (2 : ℚ) ^ (-1074 : ℤ) ≤ size x := by
      calc (2 : ℚ) ^ (-1074 : ℤ) ≤ 1 * 2 ^ exponent x := by
            rw [one_mul]
            exact (two_zpow_le _ _).2 (exponent_bounds x hfin).1
        _ ≤ size x := mul_le_mul_of_nonneg_right
          (by exact_mod_cast Nat.pos_of_ne_zero hx) (two_zpow_pos _).le
    have hbottom := (two_zpow_lt _ _).1 (hleast.trans_lt hhigh)
    omega
  · next hguess =>
    split
    · exact hbelow _ hguess
    · next hless => exact hbelow _ hless

/-- The neighbours of a double on a grid have no more digits than are asked for, but for the power
of ten above all of these. -/
theorem neighbours_le (rule : Halfway) (x : Float) (count : Nat) (hfin : isFinite x = true)
    (hx : mantissa x ≠ 0) :
    ∀ d ∈ neighbours rule (magnitude x).1 (magnitude x).2
      (decimalPoint (magnitude x).1 (magnitude x).2 - count), d ≤ 10 ^ count := by
  obtain ⟨-, hden, hsize⟩ := magnitude_spec x hx
  have hlt := size_lt_tenPow x hfin hx
  generalize decimalPoint (magnitude x).1 (magnitude x).2 = point at hlt
  have hscaled := scaled_pow_eq 10 (magnitude x).1 (magnitude x).2 (point - count) (by decide) hden
  have hpos : 0 < (magnitude x).2 * 10 ^ (point - count).toNat :=
    Nat.mul_pos hden (Nat.pow_pos (by decide))
  have hbelow : (magnitude x).1 * 10 ^ (-(point - count)).toNat /
      ((magnitude x).2 * 10 ^ (point - count).toNat) < 10 ^ count := by
    rw [Nat.div_lt_iff_lt_mul hpos]
    have hq : (((magnitude x).1 * 10 ^ (-(point - count)).toNat : ℕ) : ℚ) /
        (((magnitude x).2 * 10 ^ (point - count).toNat : ℕ) : ℚ) < (10 ^ count : ℕ) := by
      rw [hscaled, hsize, Nat.cast_ofNat, div_lt_iff₀ (ten_zpow_pos _), Nat.cast_pow,
        Nat.cast_ofNat, ← zpow_natCast, ← zpow_add₀ (by norm_num), add_sub_cancel]
      exact hlt
    rw [div_lt_iff₀ (by exact_mod_cast hpos)] at hq
    exact_mod_cast hq
  intro d hd
  unfold neighbours at hd
  simp only at hd
  generalize (magnitude x).1 * 10 ^ (-(point - count)).toNat /
    ((magnitude x).2 * 10 ^ (point - count).toNat) = below at hbelow hd
  split at hd
  · simp only [List.mem_cons, List.not_mem_nil, or_false] at hd
    omega
  · simp only [List.mem_cons, List.not_mem_nil, or_false] at hd
    omega

/-- A digit that is dropped is a zero. -/
theorem decimalValue_carried (count digits : Nat) (grid : Int) (hc : 0 < count)
    (hd : digits ≤ 10 ^ count) :
    decimalValue (carried count digits grid).1 (carried count digits grid).2 =
      decimalValue digits grid := by
  unfold carried
  split
  · rfl
  · next hge =>
    obtain rfl : digits = 10 ^ count := by omega
    obtain ⟨n, rfl⟩ : ∃ n, count = n + 1 := ⟨count - 1, by omega⟩
    have h := decimalValue_mul (10 ^ n) 1 (grid + 1)
    rw [Nat.cast_one, add_sub_cancel_right, pow_one, ← pow_succ] at h
    rw [h, pow_succ, Nat.mul_div_cancel _ (by decide)]

/-- The digits of a finite double are rounded to it. -/
theorem rounds_shortest (rule : Halfway) (x : Float) (hfin : isFinite x = true)
    (hx : mantissa x ≠ 0) :
    Rounds (decimalValue (shortest rule x).1 (shortest rule x).2) x := by
  unfold shortest
  cases hs : (List.range 17).findSome? fun n => shortestOf? rule x (n + 1) with
  | none =>
    show Rounds (decimalValue (exactDecimal x).1 (exactDecimal x).2) x
    rw [exactDecimal_value]
    exact rounds_size x hfin hx
  | some p =>
    obtain ⟨n, -, hn⟩ := List.exists_of_findSome?_eq_some hs
    unfold shortestOf? at hn
    obtain ⟨digits, hfind, rfl⟩ := Option.map_eq_some_iff.1 hn
    have hle := neighbours_le rule x (n + 1) hfin hx digits (List.mem_of_find?_eq_some hfind)
    show Rounds (decimalValue (carried (n + 1) digits _).1 (carried (n + 1) digits _).2) x
    rw [decimalValue_carried (n + 1) digits _ (Nat.succ_pos n) hle]
    have hback := List.find?_some hfind
    exact rounds_of_readsBack x digits _ hfin hx hback

/-! ## What is written -/

theorem written_eq_zero_iff (x : Float) (hfin : isFinite x = true) :
    written x = 0 ↔ mantissa x = 0 := by
  by_cases hx : mantissa x = 0
  · exact iff_of_true (written_of_zero x hx) hx
  · refine iff_of_false ?_ hx
    rw [written_of_mantissa x hx]
    have hpos := shortest_pos .toEven x hfin hx
    exact (mul_pos (by exact_mod_cast hpos) (ten_zpow_pos _)).ne'

theorem rounds_written (x : Float) (hfin : isFinite x = true) (hx : mantissa x ≠ 0) :
    Rounds (written x) x := by
  rw [written_of_mantissa x hx]
  exact rounds_shortest .toEven x hfin hx

theorem spelling_negative (x : Float) : (spelling x).negative = isNegative x := by
  unfold spelling
  simp only
  split <;> rfl

/-- No two finite doubles are written alike. -/
theorem spelling_inj (x y : Float) (hx : isFinite x = true) (hy : isFinite y = true) :
    spelling x = spelling y ↔ x = y := by
  refine ⟨fun h => ?_, congrArg spelling⟩
  have hsign : isNegative x = isNegative y := by
    rw [← spelling_negative, ← spelling_negative, h]
  have hvalue : written x = written y := by
    rw [← (spelling_spec x hx).2, ← (spelling_spec y hy).2, h]
  have hbits : x.toBits.toNat % signBit = y.toBits.toNat % signBit := by
    by_cases hzero : mantissa x = 0
    · have hzero' : mantissa y = 0 := by
        rwa [← written_eq_zero_iff y hy, ← hvalue, written_eq_zero_iff x hx]
      rw [(magnitudeBits_eq_zero_iff x).2 hzero, (magnitudeBits_eq_zero_iff y).2 hzero']
    · have hzero' : mantissa y ≠ 0 := by
        rwa [ne_eq, ← written_eq_zero_iff y hy, ← hvalue, written_eq_zero_iff x hx]
      have hrounds := rounds_written x hx hzero
      rw [hvalue] at hrounds
      exact hrounds.unique (rounds_written y hy hzero')
  rw [← ofParts_self x hx, ← ofParts_self y hy, hsign, hbits]

end Binary64

end OrderDispatch
