import Mathlib
import OrderDispatch.Proofs.Number.Nearest

/-!
# Operations that stay finite

When a product, a quotient or a sum of doubles is no infinity. A result is rounded by dropping bits
until 53 are left, so its exponent is that of the exact number or one more.

    exponent x ≤ a, exponent y ≤ b → exponent (x * y) ≤ a + b + 54     (exponent_mul)
    size x * size y < greatest → x * y is finite                        (isFinite_mul)
    exponent (x + y) ≤ max a b + 2, exponent (x / y) ≤ a - b + 1        (exponent_add, exponent_div)

The first and the last line are coarse, but need no more than exponents; only close to the greatest
double the second one is needed.
-/

namespace OrderDispatch.Binary64

open Float.Model Float.Model.UnpackedFloat

/-! ## Dropping bits -/

/-- The exponent that bits are dropped to. -/
def keptExponent (m : Nat) (e : Int) : Int := max (max (m.log2 + e - 52) (-1074)) e

theorem targetExponent_eq (m : Nat) (e : Int) :
    Format.targetExponent Format.binary64 (totalExponent m e) = max (m.log2 + e - 52) (-1074) := by
  show max ((m.log2 : ℤ) + 1 + e - ((1 + 52 : ℕ) : ℤ)) (3 - 2 ^ 10 - ((1 + 52 : ℕ) : ℤ)) = _
  norm_num
  omega

theorem mantissa_repeat (em : ExtendedMantissa) (k : Nat) :
    (k.repeat ExtendedMantissa.shiftRightOne em).mantissa = em.mantissa / 2 ^ k := by
  induction k with
  | zero => simp [Nat.repeat]
  | succ k ih =>
    show (k.repeat ExtendedMantissa.shiftRightOne em).mantissa / 2 = _
    rw [ih, Nat.div_div_eq_div_mul, pow_succ]

theorem shiftToTargetExponent_spec (m : Nat) (e : Int) (acc : Accuracy) :
    (shiftToTargetExponent Format.binary64 m e acc).1.mantissa =
        m / 2 ^ (keptExponent m e - e).toNat ∧
      (shiftToTargetExponent Format.binary64 m e acc).2 = keptExponent m e := by
  have hk : (max ((m.log2 : ℤ) + e - 52) (-1074) - e).toNat = (keptExponent m e - e).toNat := by
    unfold keptExponent
    omega
  unfold shiftToTargetExponent shiftToExponent
  simp only [targetExponent_eq, hk]
  constructor
  · refine (mantissa_repeat _ _).trans ?_
    cases acc with
    | exact => rfl
    | inexact o => cases o <;> rfl
  · show e + ((keptExponent m e - e).toNat : ℤ) = _
    unfold keptExponent
    omega

theorem roundedMantissa_le (em : ExtendedMantissa) : em.roundedMantissa ≤ em.mantissa + 1 := by
  obtain ⟨m, round, sticky⟩ := em
  unfold ExtendedMantissa.roundedMantissa ExtendedMantissa.accuracy
  cases round <;> cases sticky <;> simp [Accuracy.roundToNearestEven]
  omega

/-- The bits that are kept are no more than 53. -/
theorem kept_lt (m : Nat) (e : Int) : m / 2 ^ (keptExponent m e - e).toNat < 2 ^ 53 := by
  rw [Nat.div_lt_iff_lt_mul (Nat.two_pow_pos _), ← pow_add]
  refine lt_of_lt_of_le Nat.lt_log2_self (Nat.pow_le_pow_right (by decide) ?_)
  unfold keptExponent
  omega

/-- What a rounded number is: a zero, or a number whose exponent is the one that bits are dropped
to, or the next one where rounding up needs it. -/
theorem roundWithAccuracy_cases (s : Sign) (m : Nat) (e : Int) (acc : Accuracy) :
    roundWithAccuracy Format.binary64 s m e acc = .zero s ∨
      ∃ m' e' hpos, roundWithAccuracy Format.binary64 s m e acc = .finite s m' e' hpos ∧
        e' ≤ keptExponent m e + 1 ∧
        (m / 2 ^ (keptExponent m e - e).toNat + 1 < 2 ^ 53 → e' ≤ keptExponent m e) := by
  obtain ⟨hmant, hexp⟩ := shiftToTargetExponent_spec m e acc
  have hround := roundedMantissa_le (shiftToTargetExponent Format.binary64 m e acc).1
  have hkept := kept_lt m e
  rw [hmant] at hround
  unfold roundWithAccuracy
  generalize shiftToTargetExponent Format.binary64 m e acc = shifted at hexp hround
  obtain ⟨em, e₁⟩ := shifted
  simp only at hexp hround ⊢
  subst hexp
  generalize em.roundedMantissa = r at hround
  obtain ⟨-, hexp⟩ := shiftToTargetExponent_spec r (keptExponent m e) .exact
  generalize shiftToTargetExponent Format.binary64 r (keptExponent m e) .exact = again at hexp
  obtain ⟨em', e'⟩ := again
  simp only at hexp ⊢
  split
  · exact .inl rfl
  · next hpos =>
    refine .inr ⟨em'.mantissa, e', Nat.pos_of_ne_zero hpos, rfl, ?_, ?_⟩
    · have hlog : r.log2 ≤ 53 := by
        rcases Nat.eq_zero_or_pos r with rfl | hr
        · decide
        · exact Nat.lt_succ_iff.1 ((Nat.log2_lt hr.ne').2 (by omega))
      rw [hexp]
      unfold keptExponent
      omega
    · intro hsmall
      have hlog : r.log2 ≤ 52 := by
        rcases Nat.eq_zero_or_pos r with rfl | hr
        · decide
        · exact Nat.lt_succ_iff.1 ((Nat.log2_lt hr.ne').2 (by omega))
      rw [hexp]
      unfold keptExponent
      omega

/-! ## Packing -/

theorem exponent_pack (s : Sign) (m : Nat) (e : Int) (hpos : 0 < m) (he : e ≤ 971) :
    exponent (.ofModel (Float.Model.pack (.finite s m e hpos))) ≤ max e (-1074) := by
  have hbias : (Format.exponentBias Format.binary64 : Int) = 1023 := rfl
  unfold exponent Float.Model.pack
  rw [biasedExponent_ofModel]
  simp only [UnpackedFloat.pack, hbias]
  rw [if_neg (by show ¬ 2048 ≤ (e + 1023 + (52 : Nat)).toNat + 1; omega)]
  split
  · rw [unpackExponent_packComponents, BitVec.toNat_ofNat]
    show ((max ((e + 1023 + (52 : Nat)).toNat % 2048) 1 : ℕ) : ℤ) - 1075 ≤ _
    omega
  · rw [unpackExponent_packComponents]
    show ((max 0 1 : ℕ) : ℤ) - 1075 ≤ _
    omega

theorem exponent_pack_zero (s : Sign) :
    exponent (.ofModel (Float.Model.pack (.zero s))) = -1074 := by
  cases s <;> decide

/-- A rounded number is finite if the exponent that its bits are dropped to leaves room for rounding
up. -/
theorem exponent_round (s : Sign) (m : Nat) (e : Int) (acc : Accuracy) (b : Int)
    (h : keptExponent m e < b) (hb : b ≤ 971) :
    isFinite (.ofModel (Float.Model.pack (roundWithAccuracy Format.binary64 s m e acc))) = true ∧
      exponent (.ofModel (Float.Model.pack (roundWithAccuracy Format.binary64 s m e acc))) ≤ b := by
  have hmin : -1074 ≤ keptExponent m e := by
    unfold keptExponent
    omega
  rcases roundWithAccuracy_cases s m e acc with hz | ⟨m', e', hpos, hf, he', -⟩
  · rw [hz, exponent_pack_zero]
    exact ⟨isFinite_pack_zero s, by omega⟩
  · rw [hf]
    have := exponent_pack s m' e' hpos (by omega)
    exact ⟨isFinite_pack s m' e' hpos (by omega), by omega⟩

/-- A rounded number is finite if it is below the greatest double. -/
theorem isFinite_round (s : Sign) (m : Nat) (e : Int) (acc : Accuracy) (hm : 0 < m) (he : e ≤ 971)
    (h : (m : ℚ) * 2 ^ e < greatest) :
    isFinite (.ofModel (Float.Model.pack (roundWithAccuracy Format.binary64 s m e acc))) =
      true := by
  have hlog : (m.log2 : ℤ) + e < 1024 := by
    rw [← two_zpow_lt, zpow_add₀ (by norm_num)]
    calc (2 : ℚ) ^ (m.log2 : ℤ) * 2 ^ e ≤ m * 2 ^ e :=
          mul_le_mul_of_nonneg_right (log2_bounds m hm).1 (two_zpow_pos e).le
      _ < 2 ^ (1024 : ℤ) := h.trans greatest_lt
  have hkept : keptExponent m e ≤ 971 := by
    unfold keptExponent
    omega
  rcases roundWithAccuracy_cases s m e acc with hz | ⟨m', e', hpos, hf, he', hsmall⟩
  · rw [hz]
    exact isFinite_pack_zero s
  · rw [hf]
    apply isFinite_pack s m' e' hpos
    rcases lt_or_eq_of_le hkept with hlt | heq
    · omega
    · -- At the greatest exponent the kept bits must not be all ones.
      rw [heq] at hsmall
      apply hsmall
      have hlt : m < (2 ^ 53 - 1) * 2 ^ (971 - e).toNat := by
        have hscaled : (m : ℚ) < (2 ^ 53 - 1) * 2 ^ (971 - e) := by
          rw [zpow_sub₀ (by norm_num), ← mul_div_assoc, lt_div_iff₀ (two_zpow_pos e)]
          exact h
        rw [show (971 - e) = (((971 - e).toNat : ℕ) : ℤ) by omega, zpow_natCast] at hscaled
        have hcast : (m : ℚ) < (((2 ^ 53 - 1) * 2 ^ (971 - e).toNat : ℕ) : ℚ) := by
          push_cast
          norm_num at hscaled ⊢
          exact hscaled
        exact_mod_cast hcast
      have hdiv := (Nat.div_lt_iff_lt_mul (Nat.two_pow_pos (971 - e).toNat)).2 hlt
      omega

/-! ## Products -/

theorem mantissa_lt (x : Float) : mantissa x < 2 ^ 53 := by
  have hhid : hiddenBit = 4503599627370496 := rfl
  have hlt : fraction x < 4503599627370496 := Nat.mod_lt _ (by decide)
  unfold mantissa
  split <;> omega

/-- But at the least exponent the significand has its hidden bit. -/
theorem mantissa_of_exponent (x : Float) (h : -1074 < exponent x) : 2 ^ 52 ≤ mantissa x := by
  have hhid : hiddenBit = 4503599627370496 := rfl
  unfold exponent at h
  unfold mantissa
  rw [if_neg (by omega)]
  omega

theorem log2_mul_lt (m n : Nat) (hm : m < 2 ^ 53) (hn : n < 2 ^ 53) : (m * n).log2 < 106 := by
  rcases Nat.eq_zero_or_pos (m * n) with h | h
  · rw [h]
    decide
  · refine (Nat.log2_lt h.ne').2 (lt_of_lt_of_le (Nat.mul_lt_mul'' hm hn) ?_)
    norm_num

/-- A product of two finite doubles: a zero, or the rounded product of their parts. -/
theorem mul_cases (x y : Float) (hx : isFinite x = true) (hy : isFinite y = true) :
    (∃ s, x * y = .ofModel (Float.Model.pack (.zero s))) ∨
      0 < mantissa x * mantissa y ∧ ∃ s, x * y = .ofModel (Float.Model.pack
        (roundWithAccuracy Format.binary64 s (mantissa x * mantissa y) (exponent x + exponent y)
          .exact)) := by
  have hmul : x * y = .ofModel (Float.Model.pack
      (UnpackedFloat.mul Format.binary64 x.toModel.unpack y.toModel.unpack)) := rfl
  rw [hmul]
  rcases unpack_of_isFinite x hx with ⟨-, s, hz⟩ | ⟨s, hpos, hf⟩
  · rw [hz]
    rcases unpack_of_isFinite y hy with ⟨-, t, hz'⟩ | ⟨t, hpos', hf'⟩
    · rw [hz']
      exact .inl ⟨_, rfl⟩
    · rw [hf']
      exact .inl ⟨_, rfl⟩
  · rw [hf]
    rcases unpack_of_isFinite y hy with ⟨-, t, hz'⟩ | ⟨t, hpos', hf'⟩
    · rw [hz']
      exact .inl ⟨_, rfl⟩
    · rw [hf']
      exact .inr ⟨Nat.mul_pos hpos hpos', _, rfl⟩

theorem exponent_mul (x y : Float) (a b : Int) (hx : isFinite x = true) (hy : isFinite y = true)
    (ha : exponent x ≤ a) (hb : exponent y ≤ b) (hlow : -1127 ≤ a + b) (hhigh : a + b ≤ 917) :
    isFinite (x * y) = true ∧ exponent (x * y) ≤ a + b + 54 := by
  rcases mul_cases x y hx hy with ⟨s, hz⟩ | ⟨-, s, hf⟩
  · rw [hz, exponent_pack_zero]
    exact ⟨isFinite_pack_zero s, by omega⟩
  · rw [hf]
    refine exponent_round s _ _ .exact _ ?_ (by omega)
    have hlog := log2_mul_lt _ _ (mantissa_lt x) (mantissa_lt y)
    unfold keptExponent
    omega

/-- A product below the greatest double is finite. -/
theorem isFinite_mul (x y : Float) (hx : isFinite x = true) (hy : isFinite y = true)
    (h : size x * size y < greatest) : isFinite (x * y) = true := by
  rcases mul_cases x y hx hy with ⟨s, hz⟩ | ⟨hpos, s, hf⟩
  · rw [hz]
    exact isFinite_pack_zero s
  · have hsize : size x * size y =
        ((mantissa x * mantissa y : ℕ) : ℚ) * 2 ^ (exponent x + exponent y) := by
      unfold size
      rw [zpow_add₀ (by norm_num)]
      push_cast
      ring
    rw [hf]
    refine isFinite_round s _ _ .exact hpos ?_ (hsize ▸ h)
    by_contra hgt
    -- Both exponents would be normal, and the product of the significands alone too great.
    have hx' := exponent_bounds x hx
    have hy' := exponent_bounds y hy
    have hmx := mantissa_of_exponent x (by omega)
    have hmy := mantissa_of_exponent y (by omega)
    have hmant : (2 : ℚ) ^ (104 : ℤ) ≤ ((mantissa x * mantissa y : ℕ) : ℚ) := by
      have : 2 ^ 52 * 2 ^ 52 ≤ mantissa x * mantissa y := Nat.mul_le_mul hmx hmy
      calc (2 : ℚ) ^ (104 : ℤ) = ((2 ^ 52 * 2 ^ 52 : ℕ) : ℚ) := by norm_num
        _ ≤ _ := by exact_mod_cast this
    have hge : (2 : ℚ) ^ (104 + 972 : ℤ) ≤ size x * size y := by
      rw [hsize, zpow_add₀ (by norm_num)]
      exact mul_le_mul hmant ((two_zpow_le _ _).2 (by omega)) (two_zpow_pos _).le
        (le_trans (two_zpow_pos _).le hmant)
    have hlt := (hge.trans_lt h).trans greatest_lt
    rw [two_zpow_lt] at hlt
    omega

/-! ## Quotients -/

/-- The truncated quotient of two significands has about as many bits as it was shifted by. -/
theorem log2_div_le (m n k : Nat) (hm : m < 2 ^ 53) (hn : 2 ^ 52 ≤ n) :
    ((m <<< k) / n).log2 ≤ k := by
  rcases Nat.eq_zero_or_pos ((m <<< k) / n) with h | h
  · rw [h]
    exact Nat.zero_le k
  · refine Nat.lt_succ_iff.1 ((Nat.log2_lt h.ne').2 ?_)
    rw [Nat.div_lt_iff_lt_mul (by omega), Nat.shiftLeft_eq]
    calc m * 2 ^ k < 2 ^ 53 * 2 ^ k := Nat.mul_lt_mul_of_pos_right hm (Nat.two_pow_pos k)
      _ = 2 ^ (k + 1) * 2 ^ 52 := by ring
      _ ≤ 2 ^ (k + 1) * n := Nat.mul_le_mul_left _ hn

/-- A quotient of finite doubles, the divisor being normal. -/
theorem exponent_div (x y : Float) (a b : Int) (hx : isFinite x = true) (hy : isFinite y = true)
    (hm : 2 ^ 52 ≤ mantissa y) (ha : exponent x ≤ a) (hb : b ≤ exponent y) (hlow : -1074 ≤ a - b)
    (hhigh : a - b ≤ 970) : isFinite (x / y) = true ∧ exponent (x / y) ≤ a - b + 1 := by
  have hdiv : x / y = .ofModel (Float.Model.pack
      (UnpackedFloat.div Format.binary64 x.toModel.unpack y.toModel.unpack)) := rfl
  rw [hdiv]
  rcases unpack_of_isFinite y hy with ⟨hzero, -⟩ | ⟨t, hpos', hf'⟩
  · omega
  rw [hf']
  rcases unpack_of_isFinite x hx with ⟨-, s, hz⟩ | ⟨s, hpos, hf⟩
  · rw [hz]
    refine ⟨isFinite_pack_zero (s / t), ?_⟩
    refine (exponent_pack_zero (s / t)).trans_le ?_
    omega
  · rw [hf]
    unfold UnpackedFloat.div divCore
    simp only
    generalize htarget : min (exponent x - exponent y) (Format.targetExponent Format.binary64
      (totalExponent (mantissa x) (exponent x) - totalExponent (mantissa y) (exponent y))) = target
    refine exponent_round (s / t) _ target _ _ ?_ (by omega)
    have hlog := log2_div_le (mantissa x) (mantissa y) (exponent x - exponent y - target).toNat
      (mantissa_lt x) hm
    have htarget' : target ≤ exponent x - exponent y := by omega
    unfold keptExponent
    omega

/-! ## Sums -/

theorem natAbs_apply (s : Sign) (n : Nat) : (s.apply n).natAbs = n := by
  cases s <;> simp [Sign.apply]

theorem log2_shiftLeft (m k : Nat) (hm : 0 < m) : (m <<< k).log2 = m.log2 + k := by
  have hpos : 0 < m <<< k := by
    rw [Nat.shiftLeft_eq]
    exact Nat.mul_pos hm (Nat.two_pow_pos k)
  rw [Nat.log2_eq_iff hpos.ne', Nat.shiftLeft_eq]
  have hlow := Nat.log2_self_le hm.ne'
  have hhigh := Nat.lt_log2_self (n := m)
  constructor
  · rw [pow_add]
    exact Nat.mul_le_mul_right _ hlow
  · rw [show m.log2 + k + 1 = m.log2 + 1 + k by omega, pow_add]
    exact Nat.mul_lt_mul_of_pos_right hhigh (Nat.two_pow_pos k)

/-- A number that is brought to its exponent from either side. -/
theorem exponent_shift_round (s : Sign) (m : Nat) (e b : Int) (hm : 0 < m)
    (h : max (m.log2 + e - 52) (-1074) < b) (hb : b ≤ 971) :
    isFinite (.ofModel (Float.Model.pack (UnpackedFloat.round Format.binary64 s m e))) = true ∧
      exponent (.ofModel (Float.Model.pack (UnpackedFloat.round Format.binary64 s m e))) ≤ b := by
  unfold UnpackedFloat.round decreaseExponent
  simp only [targetExponent_eq]
  refine exponent_round s _ _ .exact b ?_ hb
  unfold keptExponent
  rw [log2_shiftLeft m _ hm]
  omega

theorem exponent_normalize (n : Int) (e b : Int) (s : Sign)
    (h : max (n.natAbs.log2 + e - 52) (-1074) < b) (hb : b ≤ 971) :
    isFinite (.ofModel (Float.Model.pack (UnpackedFloat.normalize Format.binary64 n e s))) = true ∧
      exponent (.ofModel (Float.Model.pack (UnpackedFloat.normalize Format.binary64 n e s))) ≤
        b := by
  unfold UnpackedFloat.normalize
  rcases lt_trichotomy n 0 with hn | rfl | hn
  · rw [show compare n 0 = .lt from compare_lt_iff_lt.2 hn]
    have habs : (-n).toNat = n.natAbs := by omega
    simp only [habs]
    exact exponent_shift_round _ _ e b (by omega) h hb
  · refine ⟨isFinite_pack_zero s, ?_⟩
    refine (exponent_pack_zero s).trans_le ?_
    omega
  · rw [show compare n 0 = .gt from compare_gt_iff_gt.2 hn]
    have habs : n.toNat = n.natAbs := by omega
    simp only [habs]
    exact exponent_shift_round _ _ e b (by omega) h hb

/-- Two significands brought to one exponent, added up with their signs. -/
theorem log2_natAbs_add_le (s t : Sign) (m n j k l : Nat) (hm : m < 2 ^ 53) (hn : n < 2 ^ 53)
    (hj : j ≤ l) (hk : k ≤ l) :
    (s.apply ((m <<< j : ℕ) : ℤ) + t.apply ((n <<< k : ℕ) : ℤ)).natAbs.log2 ≤ 53 + l := by
  have hpow : ∀ i p : ℕ, i < 2 ^ 53 → p ≤ l → i <<< p < 2 ^ (53 + l) := by
    intro i p hi hp
    rw [Nat.shiftLeft_eq, pow_add]
    exact Nat.mul_lt_mul_of_lt_of_le hi (Nat.pow_le_pow_right (by decide) hp) (Nat.two_pow_pos l)
  have hle := Int.natAbs_add_le (s.apply ((m <<< j : ℕ) : ℤ)) (t.apply ((n <<< k : ℕ) : ℤ))
  rw [natAbs_apply, natAbs_apply] at hle
  have hmj := hpow m j hm hj
  have hnk := hpow n k hn hk
  generalize (s.apply ((m <<< j : ℕ) : ℤ) + t.apply ((n <<< k : ℕ) : ℤ)).natAbs = total at hle
  rcases Nat.eq_zero_or_pos total with rfl | hpos
  · simp
  · refine Nat.lt_succ_iff.1 ((Nat.log2_lt hpos.ne').2 ?_)
    rw [pow_succ]
    omega

theorem exponent_add (x y : Float) (a : Int) (hx : isFinite x = true) (hy : isFinite y = true)
    (ha : exponent x ≤ a) (hb : exponent y ≤ a) (hhigh : a ≤ 969) :
    isFinite (x + y) = true ∧ exponent (x + y) ≤ a + 2 := by
  have hadd : x + y = .ofModel (Float.Model.pack
      (UnpackedFloat.add Format.binary64 x.toModel.unpack y.toModel.unpack)) := rfl
  have hlow := (exponent_bounds x hx).1
  have hzero : ∀ s, isFinite (.ofModel (Float.Model.pack (.zero s))) = true ∧
      exponent (.ofModel (Float.Model.pack (.zero s))) ≤ a + 2 := by
    intro s
    refine ⟨isFinite_pack_zero s, ?_⟩
    rw [exponent_pack_zero]
    omega
  have hsame : ∀ (z : Float) s hpos, exponent z ≤ a →
      isFinite (.ofModel (Float.Model.pack (.finite s (mantissa z) (exponent z) hpos))) = true ∧
      exponent (.ofModel (Float.Model.pack (.finite s (mantissa z) (exponent z) hpos))) ≤
        a + 2 := by
    intro z s hpos hz
    have := exponent_pack s (mantissa z) (exponent z) hpos (by omega)
    exact ⟨isFinite_pack s _ _ hpos (by omega), by omega⟩
  rw [hadd]
  rcases unpack_of_isFinite x hx with ⟨-, s, hz⟩ | ⟨s, hpos, hf⟩
  · rw [hz]
    rcases unpack_of_isFinite y hy with ⟨-, t, hz'⟩ | ⟨t, hpos', hf'⟩
    · rw [hz']
      unfold UnpackedFloat.add
      simp only
      split <;> exact hzero _
    · rw [hf']
      exact hsame y t hpos' hb
  · rw [hf]
    rcases unpack_of_isFinite y hy with ⟨-, t, hz'⟩ | ⟨t, hpos', hf'⟩
    · rw [hz']
      exact hsame x s hpos ha
    · rw [hf']
      unfold UnpackedFloat.add decreaseExponent
      simp only
      refine exponent_normalize _ _ _ _ ?_ (by omega)
      have hlog := log2_natAbs_add_le s t (mantissa x) (mantissa y)
        (exponent x - min (exponent x) (exponent y)).toNat
        (exponent y - min (exponent x) (exponent y)).toNat
        (max (exponent x) (exponent y) - min (exponent x) (exponent y)).toNat
        (mantissa_lt x) (mantissa_lt y) (by omega) (by omega)
      omega

/-! ## Whole numbers -/

/-- Rounding to a whole number does not make a number much greater. -/
theorem exponent_roundAway (x : Float) (a : Int) (hx : isFinite x = true) (ha : exponent x ≤ a)
    (hlow : 2 ≤ a) : isFinite (roundAway x) = true ∧ exponent (roundAway x) ≤ a := by
  unfold roundAway
  split
  · exact ⟨hx, ha⟩
  · simp only
    have hm := mantissa_lt x
    have hdiv := Nat.div_le_self (mantissa x) (2 ^ (-exponent x).toNat)
    have hlt : (if 2 ^ (-exponent x).toNat ≤ 2 * (mantissa x % 2 ^ (-exponent x).toNat) then
        mantissa x / 2 ^ (-exponent x).toNat + 1 else mantissa x / 2 ^ (-exponent x).toNat) <
        2 ^ 54 := by
      split <;> omega
    obtain ⟨hfin, hexp⟩ := exponent_ofRatio_one (isNegative x) _ 54 hlt (by decide)
    exact ⟨hfin, by omega⟩

end OrderDispatch.Binary64
