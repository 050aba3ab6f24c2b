import Mathlib
import OrderDispatch.Proofs.Json.Numeral
import OrderDispatch.Proofs.Number.Operations

/-!
# Written doubles can be read

The quick reading of digits rounds three times and refuses what gets too great on the way. What a
finite double is written as is never refused, and what is read in its place is finite again:

    isFinite x → ∃ y, reread? x = some y ∧ isFinite y                 (reread?_isFinite)

The digits of `x` are no more than the exact number that they stand for, `written x`, and that is
well below the greatest double unless `x` is one of the top three magnitudes; these are looked at
one by one.
-/

namespace OrderDispatch.Binary64

open Json

/-! ## Powers of ten -/

/-- The exact number that digits and a power of ten stand for. -/
def decimalValue (digits : Nat) (power : Int) : ℚ := digits * 10 ^ power

theorem ten_zpow_pos (k : ℤ) : (0 : ℚ) < 10 ^ k := zpow_pos (by norm_num) k

theorem decimalValue_mul (digits n : Nat) (power : Int) :
    decimalValue (digits * 10 ^ n) (power - n) = decimalValue digits power := by
  unfold decimalValue
  push_cast
  rw [zpow_sub₀ (by norm_num), zpow_natCast]
  field_simp

/-- A decimal number as a quotient of naturals. -/
theorem decimalValue_eq_div (digits : Nat) (power : Int) :
    decimalValue digits power =
      ((digits * 10 ^ power.toNat : ℕ) : ℚ) / ((10 ^ (-power).toNat : ℕ) : ℚ) := by
  unfold decimalValue
  rcases Int.le_total 0 power with h | h
  · obtain ⟨n, rfl⟩ := Int.eq_ofNat_of_zero_le h
    simp
  · obtain ⟨n, hn⟩ := Int.eq_ofNat_of_zero_le (Int.neg_nonneg_of_nonpos h)
    obtain rfl : power = -n := by omega
    simp [div_eq_mul_inv]

/-! ## Collected digits -/

/-- The word that takes up digits has room, and with zeros for the digits left out it is no more
than all of them. -/
theorem collect_spec (word : Nat) (digits : List Char) (h : word < UInt64.size) :
    (collect word digits).1 < UInt64.size ∧
      (collect word digits).1 * 10 ^ (collect word digits).2.length ≤
        Nat.ofDigitChars 10 digits word := by
  induction digits generalizing word with
  | nil => exact ⟨h, by simp [collect]⟩
  | cons c cs ih =>
    unfold collect
    simp only
    split
    · next hroom =>
      rw [Nat.ofDigitChars_cons, Nat.ofDigitChars_nil] at hroom ⊢
      rw [Nat.ofDigitChars_cons]
      exact ih _ hroom
    · refine ⟨h, ?_⟩
      rw [Nat.ofDigitChars_eq_ofDigitChars_zero, Nat.mul_comm]
      exact Nat.le_add_right _ _

/-- Digits for which there is room are all taken up. -/
theorem collect_of_lt (word : Nat) (digits : List Char)
    (h : Nat.ofDigitChars 10 digits word < UInt64.size) :
    collect word digits = (Nat.ofDigitChars 10 digits word, []) := by
  induction digits generalizing word with
  | nil => rfl
  | cons c cs ih =>
    rw [Nat.ofDigitChars_cons] at h ⊢
    have hroom : Nat.ofDigitChars 10 [c] word < UInt64.size := by
      refine lt_of_le_of_lt ?_ h
      rw [Nat.ofDigitChars_cons, Nat.ofDigitChars_nil,
        Nat.ofDigitChars_eq_ofDigitChars_zero (l := cs)]
      exact (Nat.le_mul_of_pos_left _ (Nat.pow_pos (by decide))).trans (Nat.le_add_right _ _)
    unfold collect
    simp only
    rw [if_pos hroom, Nat.ofDigitChars_cons, Nat.ofDigitChars_nil, ih _ h]

/-- A word and its power of ten are no more than the digits on both sides of the point, if those
before it have room. -/
theorem collectBoth_spec (whole part : List Char) (power : Int)
    (h : Nat.ofDigitChars 10 whole 0 < UInt64.size) :
    (collectBoth whole part).1 < UInt64.size ∧
      decimalValue (collectBoth whole part).1 ((collectBoth whole part).2 + power) ≤
        decimalValue (Nat.ofDigitChars 10 (whole ++ part) 0) (power - part.length) := by
  obtain ⟨hroom, hle⟩ := collect_spec _ part h
  unfold collectBoth
  simp only [collect_of_lt 0 whole h]
  generalize collect (Nat.ofDigitChars 10 whole 0) part = collected at hroom hle
  obtain ⟨word, ignored⟩ := collected
  refine ⟨hroom, ?_⟩
  rw [← Nat.ofDigitChars_append] at hle
  have hpower : ((([] : List Char).length + ignored.length - part.length : ℤ) + power) -
      ignored.length = power - part.length := by
    rw [List.length_nil]
    omega
  rw [← decimalValue_mul word ignored.length, hpower]
  unfold decimalValue
  exact mul_le_mul_of_nonneg_right (by exact_mod_cast hle) (ten_zpow_pos _).le

/-! ## The digits of a text -/

theorem ofDigitChars_lt (digits : List Char) (h : ∀ c ∈ digits, c.isDigit = true) :
    Nat.ofDigitChars 10 digits 0 < 10 ^ digits.length := by
  induction digits with
  | nil => simp
  | cons c cs ih =>
    have hc : c.toNat - '0'.toNat ≤ 9 := by
      have := h c (by simp)
      simp only [Char.isDigit, Bool.and_eq_true, decide_eq_true_eq, UInt32.le_iff_toNat_le] at this
      have hle : c.toNat ≤ 57 := this.2
      show c.toNat - 48 ≤ 9
      omega
    have hcs := ih fun d hd => h d (by simp [hd])
    rw [Nat.ofDigitChars_cons, Nat.ofDigitChars_eq_ofDigitChars_zero, List.length_cons, pow_succ,
      Nat.mul_zero, Nat.zero_add]
    have := Nat.mul_le_mul_left (10 ^ cs.length) hc
    omega

/-- There is room for the digits before the point, as these are at most 16. -/
theorem positional_room (digits : List Char) (point : Int) (hsig : Significant digits point)
    (h16 : point ≤ 16) : Nat.ofDigitChars 10 (positional digits point).1 0 < UInt64.size := by
  have hlen : (positional digits point).1.length ≤ 16 := by
    unfold positional
    split
    · exact Nat.succ_le_succ (Nat.zero_le 15)
    · simp only [List.length_append, List.length_take, List.length_replicate]
      omega
  calc Nat.ofDigitChars 10 (positional digits point).1 0
      < 10 ^ (positional digits point).1.length :=
        ofDigitChars_lt _ (wholePart_positional digits point hsig).digit
    _ ≤ 10 ^ 16 := Nat.pow_le_pow_right (by decide) hlen
    _ < UInt64.size := by decide

/-- Where the point is put does not change the number. -/
theorem positional_value (digits : List Char) (point : Int) (hne : digits ≠ []) :
    let part := if (positional digits point).2.isEmpty then ['0'] else (positional digits point).2
    decimalValue (Nat.ofDigitChars 10 ((positional digits point).1 ++ part) 0) (0 - part.length) =
      decimalValue (Nat.ofDigitChars 10 digits 0) (point - digits.length) := by
  have hlen := List.length_pos_iff.2 hne
  intro part
  unfold part positional
  split
  · next hpoint =>
    have hnot : (List.replicate (-point).toNat '0' ++ digits).isEmpty = false := by
      simp [hne]
    rw [hnot, if_neg (by decide), Nat.ofDigitChars_append, Nat.ofDigitChars_append,
      Nat.ofDigitChars_replicate_zero, show Nat.ofDigitChars 10 ['0'] 0 = 0 from rfl, Nat.mul_zero]
    congr 1
    rw [List.length_append, List.length_replicate]
    omega
  · next hpoint =>
    simp only
    rcases Nat.lt_or_ge point.toNat digits.length with hlt | hge
    · have hnot : (digits.drop point.toNat).isEmpty = false := by
        simp [List.isEmpty_eq_false_iff]
        omega
      have hzeros : point.toNat - digits.length = 0 := by omega
      rw [hnot, if_neg (by decide), hzeros, List.replicate_zero, List.append_nil,
        List.take_append_drop, List.length_drop]
      congr 1
      omega
    · -- The digits end before the point, and one more zero stands behind it.
      have hnil : digits.drop point.toNat = [] := List.drop_eq_nil_of_le hge
      rw [hnil, List.take_of_length_le hge]
      show decimalValue (Nat.ofDigitChars 10 (_ ++ List.replicate 1 '0') 0) _ = _
      rw [List.append_assoc, ← List.replicate_add, Nat.ofDigitChars_append,
        Nat.ofDigitChars_replicate_zero, Nat.mul_comm, ← decimalValue_mul _
          (point.toNat - digits.length + 1) (point - digits.length)]
      congr 1
      simp
      omega

/-- The exact number that a finite double is written as, without its sign. -/
def written (x : Float) : ℚ :=
  decimalValue (Nat.ofDigitChars 10 (shortestDigits .toEven x).1 0)
    ((shortestDigits .toEven x).2 - (shortestDigits .toEven x).1.length)

/-- The parts of a written double stand for that number. -/
theorem spelling_spec (x : Float) (h : isFinite x = true) :
    Nat.ofDigitChars 10 (spelling x).whole 0 < UInt64.size ∧
      decimalValue (Nat.ofDigitChars 10 ((spelling x).whole ++ (spelling x).part) 0)
        ((spelling x).power - (spelling x).part.length) = written x := by
  have hsig := significant_shortestDigits .toEven x h
  unfold spelling written
  generalize shortestDigits .toEven x = p at hsig
  obtain ⟨digits, point⟩ := p
  simp only at hsig ⊢
  split
  · next hpoint =>
    exact ⟨positional_room digits point hsig hpoint.2, positional_value digits point hsig.nonempty⟩
  · have hlen := List.length_pos_iff.2 hsig.nonempty
    refine ⟨?_, ?_⟩
    · refine lt_of_lt_of_le
        (ofDigitChars_lt _ (wholePart_take_one digits point hsig).digit) ?_
      rw [List.length_take, min_eq_left hlen]
      decide
    · simp only
      rw [List.take_append_drop, List.length_drop]
      congr 1
      omega

/-! ## Digits below the top -/

/-- What the magnitudes three below the greatest one are rounded from is no more than this. -/
def safe : ℚ := (2 ^ 53 - 7 / 2) * 2 ^ (971 : ℤ)

theorem one_le_safe : 1 ≤ safe := by
  unfold safe
  exact one_le_mul_of_one_le_of_one_le (by norm_num) (one_le_zpow₀ (by norm_num) (by norm_num))

/-- A decimal number far below one is told so by its digits and its power of ten. -/
theorem decimalValue_le_one (digits : Nat) (power : Int) (hp : power < 0)
    (h : (Nat.log2 digits : Int) + 3 * power ≤ -1076) : decimalValue digits power ≤ 1 := by
  have hlog : ((digits.log2 + 1 : ℕ) : ℤ) ≤ ((3 * (-power).toNat : ℕ) : ℤ) := by
    push_cast
    omega
  have hdigits : digits ≤ 10 ^ (-power).toNat := by
    calc digits ≤ 2 ^ (digits.log2 + 1) := Nat.lt_log2_self.le
      _ ≤ 2 ^ (3 * (-power).toNat) := Nat.pow_le_pow_right (by decide) (by exact_mod_cast hlog)
      _ = 8 ^ (-power).toNat := Nat.pow_mul 2 3 _
      _ ≤ 10 ^ (-power).toNat := Nat.pow_le_pow_left (by decide) _
  rw [decimalValue_eq_div, show power.toNat = 0 by omega, pow_zero, mul_one]
  exact div_le_one_of_le₀ (by exact_mod_cast hdigits) (by positivity)

theorem toBits_infinity : (infinity false).toBits.toNat = infinityBits := by
  have hbits : (infinity false).toBits = .ofNat infinityBits := by decide
  have hinf : infinityBits = 9218868437227405312 := rfl
  rw [hbits, UInt64.toNat_ofNat', hinf]

/-- The bits that a quotient is rounded to are those of the double, of an infinity too. -/
theorem toBits_ofRatio (num den : Nat) (hnum : 0 < num) :
    (ofRatio false num den).toBits.toNat = nearestBits num den := by
  have hle : nearestBits num den ≤ infinityBits := by
    rw [nearestBits_eq]
    exact min_le_right _ _
  unfold ofRatio
  rw [if_neg hnum.ne']
  rcases lt_or_eq_of_le hle with hlt | heq
  · rw [toBits_ofParts false _ hlt, if_neg (by decide), Nat.add_zero]
  · rw [heq]
    exact toBits_infinity

theorem ratio_le_safe (num den : Nat) (hnum : 0 < num) (hden : 0 < den)
    (h : (ofRatio false num den).toBits.toNat < infinityBits - 3) : (num : ℚ) / den ≤ safe := by
  rw [toBits_ofRatio num den hnum] at h
  exact ratio_le_of_nearestBits num den hnum hden h

/-- A decimal number that is rounded to a magnitude three below the greatest, or less. -/
theorem decimalValue_le_safe (digits : Nat) (power : Int)
    (h : (ofDecimal false digits power).toBits.toNat < infinityBits - 3) :
    decimalValue digits power ≤ safe := by
  rcases Nat.eq_zero_or_pos digits with rfl | hd
  · have hzero : decimalValue 0 power = 0 := by
      unfold decimalValue
      rw [Nat.cast_zero, zero_mul]
    rw [hzero]
    exact zero_le_one.trans one_le_safe
  unfold ofDecimal at h
  simp only [if_neg hd.ne'] at h
  rcases Int.lt_or_le power 0 with hneg | hnonneg
  · rw [if_neg (by omega)] at h
    split at h
    · next hreach => exact (decimalValue_le_one digits power hneg hreach).trans one_le_safe
    · rw [decimalValue_eq_div, show power.toNat = 0 by omega, pow_zero, mul_one]
      exact ratio_le_safe _ _ hd (Nat.pow_pos (by decide)) h
  · rw [if_pos hnonneg] at h
    split at h
    · rw [toBits_infinity] at h
      omega
    · rw [decimalValue_eq_div, show (-power).toNat = 0 by omega, pow_zero]
      exact ratio_le_safe _ _ (Nat.mul_pos hd (Nat.pow_pos (by decide))) Nat.one_pos h

theorem decimalValue_carried_le (count digits : Nat) (grid : Int) :
    decimalValue (carried count digits grid).1 (carried count digits grid).2 ≤
      decimalValue digits grid := by
  unfold carried
  split
  · exact le_rfl
  · have hdiv : ((digits / 10 * 10 : ℕ) : ℚ) ≤ digits := by
      exact_mod_cast Nat.div_mul_le_self digits 10
    unfold decimalValue
    rw [zpow_add_one₀ (by norm_num), mul_comm ((10 : ℚ) ^ grid), ← mul_assoc]
    push_cast at hdiv
    exact mul_le_mul_of_nonneg_right hdiv (ten_zpow_pos grid).le

/-- The exact expansion of a double is its magnitude. -/
theorem exactDecimal_value (x : Float) :
    decimalValue (exactDecimal x).1 (exactDecimal x).2 = size x := by
  unfold exactDecimal decimalValue size
  split
  · next h =>
    obtain ⟨n, hn⟩ := Int.eq_ofNat_of_zero_le h
    simp [hn]
  · next h =>
    obtain ⟨n, hn⟩ := Int.eq_ofNat_of_zero_le (show 0 ≤ -exponent x by omega)
    obtain hexp : exponent x = -n := by omega
    rw [hexp, neg_neg, Int.toNat_natCast, zpow_neg, zpow_neg, zpow_natCast, zpow_natCast,
      show (10 : ℚ) = 2 * 5 by norm_num, mul_pow]
    push_cast
    field_simp

theorem size_le_safe (x : Float) (hfin : isFinite x = true)
    (h : x.toBits.toNat % signBit < infinityBits - 3) : size x ≤ safe := by
  have hexp := (exponent_bounds x hfin).2
  have hm := mantissa_lt x
  unfold size
  rcases lt_or_eq_of_le hexp with hlt | heq
  · calc (mantissa x : ℚ) * 2 ^ exponent x ≤ 2 ^ 53 * 2 ^ (970 : ℤ) :=
          mul_le_mul (by exact_mod_cast hm.le) ((two_zpow_le _ _).2 (by omega))
            (two_zpow_pos _).le (by positivity)
      _ = 2 ^ 52 * 2 ^ (971 : ℤ) := by
        rw [show (971 : ℤ) = 970 + 1 by rfl, zpow_add_one₀ (by norm_num)]
        ring
      _ ≤ safe := mul_le_mul_of_nonneg_right (by norm_num) (two_zpow_pos 971).le
  · have hmant : mantissa x ≤ 2 ^ 53 - 4 := by
      have hsign : signBit = 9223372036854775808 := rfl
      have hinf : infinityBits = 9218868437227405312 := rfl
      have hhid : hiddenBit = 4503599627370496 := rfl
      have hbiased : x.toBits.toNat / 4503599627370496 % 2048 = 2046 := by
        have hmax : ((max (biasedExponent x) 1 : ℕ) : ℤ) - 1075 = 971 := heq
        show biasedExponent x = 2046
        omega
      rw [hsign, hinf] at h
      have hfrac : mantissa x ≤ 4503599627370496 + x.toBits.toNat % 4503599627370496 := by
        unfold mantissa fraction
        rw [hhid]
        split <;> omega
      omega
    rw [heq]
    have hcast : (mantissa x : ℚ) ≤ 2 ^ 53 - 7 / 2 := by
      have : (mantissa x : ℚ) ≤ ((2 ^ 53 - 4 : ℕ) : ℚ) := by exact_mod_cast hmant
      refine this.trans ?_
      norm_num
    exact mul_le_mul_of_nonneg_right hcast (two_zpow_pos 971).le

/-- The digits of a double that is well below the greatest one. -/
theorem shortest_le_safe (x : Float) (hfin : isFinite x = true)
    (h : x.toBits.toNat % signBit < infinityBits - 3) :
    decimalValue (shortest .toEven x).1 (shortest .toEven x).2 ≤ safe := by
  unfold shortest
  cases hs : (List.range 17).findSome? fun n => shortestOf? .toEven x (n + 1) with
  | none =>
    show decimalValue (exactDecimal x).1 (exactDecimal x).2 ≤ safe
    rw [exactDecimal_value]
    exact size_le_safe x hfin h
  | some p =>
    obtain ⟨n, -, hn⟩ := List.exists_of_findSome?_eq_some hs
    unfold shortestOf? at hn
    obtain ⟨digits, hfind, rfl⟩ := Option.map_eq_some_iff.1 hn
    have hback := List.find?_some hfind
    refine (decimalValue_carried_le _ _ _).trans (decimalValue_le_safe _ _ ?_)
    unfold readsBack at hback
    rw [eq_of_beq hback, toBits_abs x hfin]
    exact h

theorem written_of_zero (x : Float) (hx : mantissa x = 0) : written x = 0 := by
  unfold written shortestDigits
  rw [if_pos hx]
  norm_num [decimalValue, Nat.ofDigitChars_cons]

theorem written_of_mantissa (x : Float) (hx : mantissa x ≠ 0) :
    written x = decimalValue (shortest .toEven x).1 (shortest .toEven x).2 := by
  unfold written shortestDigits
  rw [if_neg hx]
  show decimalValue (Nat.ofDigitChars 10 (Nat.toDigits 10 _) 0) (_ + _ - _) = _
  rw [Nat.ofDigitChars_ten_toDigits, add_sub_cancel_left]

theorem written_le_safe (x : Float) (hfin : isFinite x = true)
    (h : x.toBits.toNat % signBit < infinityBits - 3) : written x ≤ safe := by
  by_cases hx : mantissa x = 0
  · rw [written_of_zero x hx]
    exact zero_le_one.trans one_le_safe
  · rw [written_of_mantissa x hx]
    exact shortest_le_safe x hfin h

/-! ## Scaling -/

theorem safe_lt : safe * (1 + 1 / 2 ^ 53) ^ 2 < greatest := by
  unfold safe greatest
  rw [mul_right_comm]
  exact mul_lt_mul_of_pos_right (by norm_num) (two_zpow_pos 971)

theorem safe_lt_greatest : safe < greatest := by
  unfold safe greatest
  exact mul_lt_mul_of_pos_right (by norm_num) (two_zpow_pos 971)

theorem word_le_greatest (word : Nat) (h : word < UInt64.size) : (word : ℚ) ≤ greatest :=
  natCast_le_greatest word 64 h (by decide)

theorem tenPower_le_greatest (n : Nat) (h : n ≤ maxTenPower) : ((10 ^ n : ℕ) : ℚ) ≤ greatest := by
  have hten : 10 ^ maxTenPower ≤ (2 ^ 53 - 1) * 2 ^ 971 := by decide +kernel
  have hle : 10 ^ n ≤ 10 ^ maxTenPower := Nat.pow_le_pow_right (by decide) h
  rw [greatest_eq]
  exact_mod_cast hle.trans hten

/-- Multiplying a word by a power of ten is not refused if the exact product is safe. -/
theorem scaleUp?_isFinite (word n : Nat) (hword : word < UInt64.size)
    (h : decimalValue word n ≤ safe) :
    ∃ y, scaleUp? (ofNat word) n = some y ∧ isFinite y = true := by
  obtain ⟨hfin, hsize⟩ := size_ofNat word (word_le_greatest word hword)
  unfold scaleUp?
  by_cases hn : n ≤ maxTenPower
  · obtain ⟨hfin', hsize'⟩ := size_ofNat (10 ^ n) (tenPower_le_greatest n hn)
    have hproduct : isFinite (ofNat word * tenPower n) = true := by
      apply isFinite_mul _ _ hfin hfin'
      refine lt_of_le_of_lt ?_ safe_lt
      unfold decimalValue at h
      rw [zpow_natCast] at h
      calc size (ofNat word) * size (ofNat (10 ^ n))
          ≤ word * (1 + 1 / 2 ^ 53) * ((10 ^ n : ℕ) * (1 + 1 / 2 ^ 53)) :=
            mul_le_mul hsize hsize' (size_nonneg _) (by positivity)
        _ = word * 10 ^ n * (1 + 1 / 2 ^ 53) ^ 2 := by
          push_cast
          ring
        _ ≤ safe * (1 + 1 / 2 ^ 53) ^ 2 := mul_le_mul_of_nonneg_right h (by positivity)
    rw [if_pos hn]
    simp only
    rw [if_pos hproduct]
    exact ⟨_, rfl, hproduct⟩
  · -- So great a power is safe only for the word zero.
    rw [if_neg hn]
    rcases Nat.eq_zero_or_pos word with rfl | hpos
    · have hzero : (ofNat 0 == 0) = true := by decide
      rw [if_pos hzero]
      exact ⟨_, rfl, hfin⟩
    · exfalso
      have hgreat : (2 ^ 53 - 1) * 2 ^ 971 < 10 ^ (maxTenPower + 1) := by decide +kernel
      have hle : 10 ^ (maxTenPower + 1) ≤ word * 10 ^ n :=
        (Nat.pow_le_pow_right (by decide) (by omega)).trans (Nat.le_mul_of_pos_left _ hpos)
      have hlt : greatest < decimalValue word n := by
        rw [greatest_eq, decimalValue, zpow_natCast]
        exact_mod_cast hgreat.trans_le hle
      exact absurd (h.trans_lt safe_lt_greatest) hlt.not_gt

theorem exponent_tenPower (n : Nat) (h : n ≤ maxTenPower) :
    isFinite (tenPower n) = true ∧ 2 ^ 52 ≤ mantissa (tenPower n) ∧
      -52 ≤ exponent (tenPower n) := by
  have hle := tenPower_le_greatest n h
  obtain ⟨hm, he⟩ := normal_ofNat (10 ^ n) (Nat.pow_pos (by decide)) hle
  exact ⟨(size_ofNat (10 ^ n) hle).1, hm, he⟩

/-- Dividing a word by powers of ten gives a finite double. -/
theorem isFinite_scaleDown (word n : Nat) (hword : word < UInt64.size) :
    isFinite (scaleDown (ofNat word) n) = true := by
  obtain ⟨hfin, hexp⟩ := exponent_ofRatio_one false word 64 hword (by decide)
  unfold scaleDown
  split
  · next hn =>
    obtain ⟨hfin', hm, he⟩ := exponent_tenPower n hn
    exact (exponent_div _ _ 12 (-52) hfin hfin' hm (by omega) he (by omega) (by omega)).1
  · obtain ⟨hfin', hm, he⟩ := exponent_tenPower maxTenPower le_rfl
    obtain ⟨hfirst, hexp'⟩ :=
      exponent_div _ _ 12 (-52) hfin hfin' hm (by omega) he (by omega) (by omega)
    obtain ⟨hfin'', hm', he'⟩ :=
      exponent_tenPower (min (n - maxTenPower) maxTenPower) (min_le_right _ _)
    exact (exponent_div _ _ 65 (-52) hfirst hfin'' hm' (by omega) he' (by omega) (by omega)).1

theorem scaled?_isFinite (word : Nat) (power : Int) (hword : word < UInt64.size)
    (h : decimalValue word power ≤ safe) :
    ∃ y, scaled? word power = some y ∧ isFinite y = true := by
  unfold scaled?
  split
  · next hnonneg =>
    apply scaleUp?_isFinite word power.toNat hword
    rwa [Int.toNat_of_nonneg hnonneg]
  · exact ⟨_, rfl, isFinite_scaleDown word _ hword⟩

theorem ofDigits?_isFinite (negative : Bool) (whole part : List Char) (power : Int)
    (hroom : Nat.ofDigitChars 10 whole 0 < UInt64.size)
    (h : decimalValue (Nat.ofDigitChars 10 (whole ++ part) 0) (power - part.length) ≤ safe) :
    ∃ y, ofDigits? negative whole part power = some y ∧ isFinite y = true := by
  obtain ⟨hword, hle⟩ := collectBoth_spec whole part power hroom
  unfold ofDigits?
  generalize collectBoth whole part = collected at hword hle
  obtain ⟨word, shift⟩ := collected
  obtain ⟨y, hy, hfin⟩ := scaled?_isFinite word (shift + power) hword (hle.trans h)
  simp only [hy, Option.map_some]
  cases negative with
  | true => exact ⟨_, rfl, isFinite_neg y hfin⟩
  | false => exact ⟨_, rfl, hfin⟩

/-! ## Reading what was written -/

/-- The top three magnitudes are read back as finite doubles, with either sign. -/
theorem reread?_top : ∀ k < 3, ∀ negative,
    (reread? (ofParts negative (infinityBits - 1 - k))).map isFinite = some true := by
  decide +kernel

/-- What a finite double is written as is read, and a finite double is read there. -/
theorem reread?_isFinite (x : Float) (h : isFinite x = true) :
    ∃ y, reread? x = some y ∧ isFinite y = true := by
  have hbits := magnitudeBits_lt x h
  by_cases htop : x.toBits.toNat % signBit < infinityBits - 3
  · obtain ⟨hroom, hvalue⟩ := spelling_spec x h
    unfold reread?
    rw [if_pos h]
    apply ofDigits?_isFinite _ _ _ _ hroom
    rw [hvalue]
    exact written_le_safe x h htop
  · have hread := reread?_top (infinityBits - 1 - x.toBits.toNat % signBit) (by omega)
      (isNegative x)
    have hbits' : infinityBits - 1 - (infinityBits - 1 - x.toBits.toNat % signBit) =
        x.toBits.toNat % signBit := by
      omega
    rw [hbits', ofParts_self x h] at hread
    exact Option.map_eq_some_iff.1 hread

end OrderDispatch.Binary64
