import Mathlib
import OrderDispatch.Number.Decimal
import OrderDispatch.Proofs.Number.Operations

/-!
# Decimals as doubles

Every decimal that comes from a double, a product or a sum has a mantissa below `2 ^ 96` and at most
28 places, and so the double that it is turned into is no infinity.

    a.mul b = .ok c → c.Fits, and likewise for sums and doubles          (fits_mul, fits_add)
    a.Fits → a.toFloat is finite                                         (isFinite_toFloat)
-/

namespace OrderDispatch.Decimal

/-- A mantissa and a scale that a decimal has room for. -/
structure Room (mantissa scale : Nat) : Prop where
  mantissa : mantissa < limit
  scale : scale ≤ maxScale

/-- A decimal in its 96 bits and 28 places. -/
def Fits (a : Decimal) : Prop := Room a.mantissa a.scale

theorem limit_eq : limit = 79228162514264337593543950336 := rfl

/-! ## From a double -/

theorem shiftDown_lt (count m : Nat) (p : Int) (h : m < limit) :
    (shiftDown count m p).1 < limit := by
  induction count generalizing m p with
  | zero => exact h
  | succ count ih =>
    unfold shiftDown
    split
    · exact ih _ _ (by omega)
    · split
      · next hroom => exact ih _ _ hroom
      · exact ih _ _ (by omega)

theorem shiftUp_lt (count m : Nat) (p : Int) (h : m < limit) (r : Nat × Int)
    (hr : shiftUp count m p = some r) : r.1 < limit := by
  induction count generalizing m p with
  | zero =>
    cases hr
    exact h
  | succ count ih =>
    unfold shiftUp at hr
    split at hr
    · next hroom => exact ih _ _ hroom hr
    · split at hr
      · cases hr
      · exact ih _ _ (by omega) hr

theorem expand_lt (count m : Nat) (h : m < limit) (r : Nat) (hr : expand count m = some r) :
    r < limit := by
  induction count generalizing m with
  | zero =>
    cases hr
    exact h
  | succ count ih =>
    unfold expand at hr
    split at hr
    · next hroom => exact ih _ hroom hr
    · cases hr

theorem dropDigit_le (m : Nat) : dropDigit m ≤ m := by
  unfold dropDigit
  split <;> omega

theorem room_fitScale (count m : Nat) (h : m < limit) :
    Room (fitScale count m).1 (fitScale count m).2 := by
  induction count generalizing m with
  | zero => exact ⟨h, le_rfl⟩
  | succ count ih =>
    unfold fitScale
    split
    · exact ⟨by decide, Nat.zero_le _⟩
    · exact ih _ ((dropDigit_le m).trans_lt h)

theorem room_dropExcess (scale m : Nat) (h : Room m scale) :
    Room (dropExcess scale m).1 (dropExcess scale m).2 := by
  induction scale generalizing m with
  | zero => exact h
  | succ scale ih =>
    have hscale := h.scale
    unfold dropExcess
    split
    · exact ih _ ⟨(dropDigit_le m).trans_lt h.mantissa, by omega⟩
    · exact h

theorem room_dropZeros (scale m : Nat) (h : Room m scale) :
    Room (dropZeros scale m).1 (dropZeros scale m).2 := by
  induction scale generalizing m with
  | zero => exact h
  | succ scale ih =>
    have hmantissa := h.mantissa
    have hscale := h.scale
    unfold dropZeros
    split
    · exact ih _ ⟨by omega, by omega⟩
    · exact h

theorem room_settle? (m : Nat) (p : Int) (h : m < limit) (r : Nat × Nat)
    (hr : settle? m p = some r) : Room r.1 r.2 := by
  unfold settle? at hr
  split at hr
  · obtain ⟨n, hn, rfl⟩ := Option.map_eq_some_iff.1 hr
    exact ⟨expand_lt _ _ h n hn, Nat.zero_le _⟩
  · simp only [Option.some.injEq] at hr
    rw [← hr]
    apply room_dropZeros
    apply room_dropExcess
    split
    · exact room_fitScale _ _ h
    · next hscale => exact ⟨h, Nat.le_of_not_lt hscale⟩

theorem fits_zero : zero.Fits := ⟨by decide, Nat.zero_le _⟩

theorem fits_ofFloat? (x : Float) (a : Decimal) (h : ofFloat? x = some a) : a.Fits := by
  have hm := Binary64.mantissa_lt x
  have hlimit := limit_eq
  unfold ofFloat? at h
  split at h
  · cases h
  simp only at h
  split at h
  · cases h
    exact fits_zero
  obtain ⟨r, hr, rfl⟩ := Option.map_eq_some_iff.1 h
  obtain ⟨scaled, hscaled, hsettled⟩ := Option.bind_eq_some_iff.1 hr
  refine room_settle? _ _ ?_ r hsettled
  split at hscaled
  · cases hscaled
    exact shiftDown_lt _ _ _ (by omega)
  · exact shiftUp_lt _ _ _ (by omega) _ hscaled

theorem fits_ofFloat (x : Float) : (ofFloat x).Fits := by
  unfold ofFloat
  cases h : ofFloat? x with
  | none => exact fits_zero
  | some a => exact fits_ofFloat? x a h

/-! ## Arithmetic -/

theorem room_reduceFrom (m scale fuel dropped : Nat) (r : Nat × Nat)
    (h : reduceFrom m scale fuel dropped = some r) : Room r.1 r.2 := by
  induction fuel generalizing dropped with
  | zero => cases h
  | succ fuel ih =>
    unfold reduceFrom at h
    simp only at h
    split at h
    · next hroom =>
      cases h
      exact ⟨hroom.1, hroom.2⟩
    · exact ih _ h

theorem fits_mul (a b c : Decimal) (h : a.mul b = .ok c) : c.Fits := by
  unfold mul at h
  split at h
  · cases h
    exact fits_zero
  · split at h
    · next m scale hreduce =>
      cases h
      exact room_reduceFrom _ _ _ _ _ hreduce
    · cases h

theorem fits_add (a b c : Decimal) (ha : a.Fits) (hb : b.Fits) (h : a.add b = .ok c) :
    c.Fits := by
  unfold add at h
  split at h
  · cases h
    exact hb
  split at h
  · cases h
    exact ha
  simp only at h
  split at h
  · next m scale hreduce =>
    cases h
    exact room_reduceFrom _ _ _ _ _ hreduce
  · cases h

/-! ## To a double -/

open Binary64

theorem lt_of_room (m scale : Nat) (h : Room m scale) : m < 2 ^ 96 := h.mantissa

set_option maxRecDepth 100000 in
/-- The powers of ten that places are scaled by. -/
theorem powFloat_places : ∀ s < 29, 0 < s → isFinite (powFloat 1 10 s) = true ∧
    2 ^ 52 ≤ Binary64.mantissa (powFloat 1 10 s) ∧ -52 ≤ exponent (powFloat 1 10 s) ∧
    exponent (powFloat 1 10 s) ≤ 50 := by
  decide +kernel

theorem isFinite_magnitudeFloat (a : Decimal) (h : a.Fits) (hscale : a.scale ≠ 0) :
    isFinite a.magnitudeFloat = true := by
  have hm := lt_of_room _ _ h
  have hs := h.scale
  have hten : 10 ^ a.scale ≤ 10 ^ 28 := Nat.pow_le_pow_right (by decide) hs
  obtain ⟨hwhole, hwhole'⟩ := exponent_ofRatio_one false (a.mantissa / 10 ^ a.scale) 96
    ((Nat.div_le_self _ _).trans_lt hm) (by decide)
  obtain ⟨hplaces, hplaces'⟩ := exponent_ofRatio_one false (a.mantissa % 10 ^ a.scale) 96
    ((Nat.mod_le _ _).trans_lt hm) (by decide)
  have hgreatest : ((10 ^ a.scale : ℕ) : ℚ) ≤ greatest :=
    natCast_le_greatest _ 96 (hten.trans_lt (by decide)) (by decide)
  have hunit := (size_ofNat _ hgreatest).1
  obtain ⟨hunitm, hunite⟩ := normal_ofNat (10 ^ a.scale) (Nat.pow_pos (by decide)) hgreatest
  obtain ⟨hpart, hpart'⟩ := exponent_div (ofRatio false (a.mantissa % 10 ^ a.scale) 1) _ 44 (-52)
    hplaces hunit hunitm (by omega) hunite (by omega) (by omega)
  unfold magnitudeFloat
  simp only
  split
  · exact hwhole
  · obtain ⟨hshift, hshiftm, hlow, hhigh⟩ := powFloat_places a.scale (Nat.lt_succ_iff.2 hs)
      (Nat.pos_of_ne_zero hscale)
    obtain ⟨hsum, hsum'⟩ := exponent_add _ _ 97 hwhole hpart (by omega) (by omega) (by omega)
    obtain ⟨hproduct, hproduct'⟩ :=
      exponent_mul _ _ 99 50 hsum hshift (by omega) hhigh (by omega) (by omega)
    obtain ⟨hround, hround'⟩ := exponent_roundAway _ 203 hproduct (by omega) (by omega)
    exact (exponent_div _ _ 203 (-52) hround hshift hshiftm hround' hlow (by omega) (by omega)).1

/-- A decimal is turned into a finite double. -/
theorem isFinite_toFloat (a : Decimal) (h : a.Fits) : isFinite a.toFloat = true := by
  unfold toFloat
  split
  · exact (exponent_ofRatio_one _ _ 96 (lt_of_room _ _ h) (by decide)).1
  · next hscale =>
    have hmagnitude := isFinite_magnitudeFloat a h hscale
    split
    · exact isFinite_neg _ hmagnitude
    · exact hmagnitude

end OrderDispatch.Decimal
