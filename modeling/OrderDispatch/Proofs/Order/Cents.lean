import OrderDispatch.Proofs.Number.Cents
import OrderDispatch.Proofs.Order.Exact

/-!
# Totals of items priced in cents

An item of a whole quantity that is priced in cents is worth as many times the decimal of its price.
Where the sum of such items fits in the places of their prices, the total is that sum: no product
has more places than its price, and none is greater than the sum.

    total.value = (items.map fun item => (cents item / 100 + slip (cents item)) * count item).sum

So the total is the sum in cents unless one of the prices goes up.
-/

namespace OrderDispatch

open Binary64 (IsAmount isFinite size signedSize ofCents)
open Decimal (slip)

/-! ## One item -/

/-- A double with a plus sign is not negative. -/
theorem Binary64.isAmount_of_sign (x : Float) (hfin : isFinite x = true)
    (hsign : isNegative x = false) : IsAmount x := by
  refine ⟨hfin, fun hlt => ?_⟩
  rw [lt_iff_unpack] at hlt
  rcases unpack_of_isFinite x hfin with ⟨-, s, hzero⟩ | ⟨s, hpos, hf⟩
  · rw [hzero] at hlt
    cases s <;> cases hlt
  · have hs := sign_of_unpack x s _ _ hpos hf
    rw [hsign] at hs
    rw [hf, hs] at hlt
    cases hlt

theorem Binary64.isAmount_ofCents (N : Nat) (h : N < 10 ^ 13) : IsAmount (ofCents N) := by
  refine isAmount_of_sign _ ?_ (isNegative_ofCents N h)
  rcases Nat.eq_zero_or_pos N with rfl | hpos
  · decide
  · exact (size_ofRatio false N 100 hpos (by decide) (cents_le_greatest N h)).1

namespace OrderItem

/-- The item is so many times an article of so many cents. -/
structure IsCounted (item : OrderItem) (cents count : Nat) : Prop where
  cents_lt : cents < 10 ^ 13
  price : item.price = ofCents cents
  amount : IsAmount item.quantity
  quantity : size item.quantity = count

variable {item : OrderItem} {cents count : Nat} (h : item.IsCounted cents count)

include h

theorem IsCounted.isCharged : item.IsCharged :=
  ⟨h.price ▸ Binary64.isAmount_ofCents cents h.cents_lt, h.amount⟩

/-- An item that fits in some places of its price is worth so many times its price, and has no more
places. -/
theorem IsCounted.worth_eq (scale units : Nat)
    (hscale : 10 ^ scale * ((cents : ℚ) / 100 + slip cents) = units)
    (hfits : 10 ^ scale * (((cents : ℚ) / 100 + slip cents) * count) < 2 ^ 96) :
    item.worth = (cents / 100 + slip cents) * count ∧ item.places ≤ scale ∧
      item.places ≤ Decimal.maxScale := by
  obtain ⟨m, s, hsome, hvalue, hend⟩ := Decimal.ofFloat?_cents cents h.cents_lt
  have hprice : Decimal.ofFloat item.price = ⟨false, m, s⟩ := by
    rw [h.price, Decimal.ofFloat, hsome, Option.getD_some]
  rw [← hvalue] at hscale hfits ⊢
  by_cases hm : m = 0
  · have hzero : item.units = 0 := by rw [OrderItem.units, hprice, hm, zero_mul]
    rw [worth, hprice, Decimal.value_nonneg, item.places_of_units hzero, hm]
    exact ⟨by simp, Nat.zero_le _, Nat.zero_le _⟩
  -- In these places, a price that is not zero is at least a unit.
  have hmul : m * 10 ^ scale = units * 10 ^ s := by
    rw [mul_div_assoc', div_eq_iff (Decimal.places_pos s).ne', mul_comm] at hscale
    exact_mod_cast hscale
  have hunits : 1 ≤ units := by
    refine Nat.one_le_iff_ne_zero.2 fun hzero => hm ?_
    rw [hzero, zero_mul] at hmul
    exact (Nat.mul_eq_zero.1 hmul).resolve_right (Nat.pow_pos (by decide)).ne'
  have hcount : count < Decimal.limit := by
    rw [Decimal.limit_eq]
    rw [← mul_assoc, hscale, ← Nat.cast_mul] at hfits
    have hproduct : units * count < 2 ^ 96 := by exact_mod_cast hfits
    exact (Nat.le_mul_of_pos_left count hunits).trans_lt hproduct
  have hquantity : Decimal.ofFloat item.quantity =
      ⟨Binary64.isNegative item.quantity, count, 0⟩ := by
    rw [Decimal.ofFloat, Decimal.ofFloat?_of_whole _ h.amount.isFinite count h.quantity hcount,
      Option.getD_some]
  have hs : s ≤ scale := by
    by_contra hlt
    -- A digit behind these places is not a zero.
    obtain ⟨j, rfl⟩ : ∃ j, s = scale + (j + 1) := ⟨s - scale - 1, by omega⟩
    have hten : m = units * 10 ^ j * 10 := by
      refine Nat.eq_of_mul_eq_mul_right (Nat.pow_pos (show 0 < 10 by decide)) (hmul.trans ?_)
      rw [pow_add, pow_succ]
      ring
    have hlast := hend.resolve_left (by omega)
    omega
  have hplaces : item.places ≤ s := by
    unfold places
    rw [hprice, hquantity]
    split
    · exact Nat.zero_le s
    · exact le_rfl
  have hmax := (Decimal.fits_ofFloat item.price).scale
  rw [hprice] at hmax
  refine ⟨?_, hplaces.trans hs, hplaces.trans hmax⟩
  have hcounted : (Decimal.ofFloat item.quantity).value = count := by
    have hnonneg := Decimal.value_ofFloat_nonneg _ h.amount
    rw [← abs_of_nonneg hnonneg, Decimal.abs_value, hquantity, pow_zero, div_one]
  rw [worth, hprice, Decimal.value_nonneg, hcounted]

end OrderItem

namespace Totals

/-! ## All items -/

/-- The total is exact if the sum of all products fits in some places that all of them have. -/
theorem decimalTotal_of_scale (items : List OrderItem) (hitems : ∀ item ∈ items, item.IsCharged)
    (scale : Nat) (hscale : ∀ item ∈ items, item.places ≤ scale ∧ item.places ≤ Decimal.maxScale)
    (hsum : 10 ^ scale * exactTotal items < 2 ^ 96) :
    ∃ total, decimalTotal items = .ok total ∧ total.value = exactTotal items := by
  have hplaces : places items ≤ scale :=
    places_le items scale fun item hitem => (hscale item hitem).1
  have hfits : unitsAt scale items < Decimal.limit := by
    rw [exactTotal_eq items hitems scale hplaces,
      mul_div_cancel₀ _ (Decimal.places_pos scale).ne'] at hsum
    rw [Decimal.limit_eq]
    exact_mod_cast hsum
  have hexact : ∀ item ∈ items, item.IsExact := by
    intro item hitem
    refine item.isExact_of_isCharged (hitems item hitem) fun _ => ⟨?_, (hscale item hitem).2⟩
    refine lt_of_le_of_lt ?_ hfits
    calc item.units ≤ item.units * 10 ^ (scale - item.places) :=
          Nat.le_mul_of_pos_right _ (Nat.pow_pos (by decide))
      _ ≤ unitsAt scale items := List.le_sum_of_mem (List.mem_map.2 ⟨item, hitem, rfl⟩)
  have hless : unitsAt (places items) items < Decimal.limit := by
    refine lt_of_le_of_lt ?_ hfits
    rw [unitsAt_of_le items scale hplaces]
    exact Nat.le_mul_of_pos_right _ (Nat.pow_pos (by decide))
  refine ⟨_, decimalTotal_exact items hexact hless, ?_⟩
  rw [Decimal.value_nonneg, exactTotal_eq items hitems (places items) le_rfl]

/-- The double nearest to a price of `N` cents is taken for `N / 100 + slip N`. So the total of
items of whole quantities that are priced in cents is their exact sum at these prices, if it fits in
some places in which all the prices are whole. -/
theorem totals_cents (items : List OrderItem) (cents count : OrderItem → Nat)
    (hitems : ∀ item ∈ items, item.IsCounted (cents item) (count item)) :
    (∀ N < 10 ^ 13,
      (∀ y, isFinite y = true → |signedSize (ofCents N) - N / 100| ≤ |signedSize y - N / 100|) ∧
      (Decimal.ofFloat (ofCents N)).value = N / 100 + slip N) ∧
    ∀ scale, (∀ item ∈ items, ∃ units : ℕ,
        10 ^ scale * ((cents item : ℚ) / 100 + slip (cents item)) = units) →
      let sum := (items.map fun item =>
        ((cents item : ℚ) / 100 + slip (cents item)) * count item).sum
      10 ^ scale * sum < 2 ^ 96 →
      ∃ total, decimalTotal items = .ok total ∧ total.value = sum := by
  constructor
  · intro N h
    exact ⟨fun y _ => Binary64.ofCents_nearest N h y, Decimal.value_ofFloat_cents N h⟩
  · intro scale hwhole sum hsum
    have hcharge : ∀ item, 0 ≤ ((cents item : ℚ) / 100 + slip (cents item)) * count item :=
      fun item => mul_nonneg
        (add_nonneg (by positivity) (Decimal.slip_nonneg _)) (Nat.cast_nonneg _)
    have hitem : ∀ item ∈ items, item.worth =
        ((cents item : ℚ) / 100 + slip (cents item)) * count item ∧ item.places ≤ scale ∧
          item.places ≤ Decimal.maxScale := by
      intro item hitem
      obtain ⟨units, hunits⟩ := hwhole item hitem
      refine (hitems item hitem).worth_eq scale units hunits (lt_of_le_of_lt ?_ hsum)
      refine mul_le_mul_of_nonneg_left ?_ (Decimal.places_pos scale).le
      refine List.single_le_sum ?_ _ (List.mem_map.2 ⟨item, hitem, rfl⟩)
      rintro _ h
      obtain ⟨other, -, rfl⟩ := List.mem_map.1 h
      exact hcharge other
    have hexact : exactTotal items = sum :=
      congrArg List.sum (List.map_congr_left fun item h => (hitem item h).1)
    rw [← hexact] at hsum ⊢
    exact decimalTotal_of_scale items (fun item h => (hitems item h).isCharged) scale
      (fun item h => (hitem item h).2) hsum

/-- Two apples at 35 cents cost 70 cents. -/
theorem totals_cents_apple :
    apple.IsCounted 35 2 ∧ slip 35 = 0 ∧ (Decimal.ofFloat (ofCents 35)).value = 35 / 100 ∧
      ∃ total, decimalTotal [apple] = .ok total ∧ total.value = 70 / 100 := by
  have hslip : slip 35 = 0 := by simp [slip]
  have hcounted : apple.IsCounted 35 2 := by
    refine ⟨by norm_num, Binary64.eq_of_toBits _ _ (by decide),
      ⟨by decide, by decide⟩, ?_⟩
    have hm : Binary64.mantissa apple.quantity = 2 ^ 52 := by decide
    rw [Binary64.size_of_exponent _ 51 (by decide), hm]
    norm_num
  obtain ⟨hprices, htotals⟩ := totals_cents [apple] (fun _ => 35) (fun _ => 2)
    (by simpa using hcounted)
  have hprice := (hprices 35 (by norm_num)).2
  rw [hslip, add_zero] at hprice
  refine ⟨hcounted, hslip, by exact_mod_cast hprice, ?_⟩
  obtain ⟨total, htotal, hvalue⟩ :=
    htotals 2 (fun _ _ => ⟨35, by norm_num [hslip]⟩) (by norm_num [hslip])
  refine ⟨total, htotal, hvalue.trans ?_⟩
  norm_num [hslip]

/-- Not every price in cents has itself for a decimal: 4194304.23 is taken for 4194304.230000001. -/
theorem cents_go_up :
    ¬ ∀ N < 10 ^ 13, (Decimal.ofFloat (ofCents N)).value = N / 100 := by
  intro h
  have hdecimal : Decimal.ofFloat (ofCents 419430423) = ⟨false, 4194304230000001, 9⟩ := by
    decide
  have hexact := h 419430423 (by norm_num)
  rw [hdecimal, Decimal.value_nonneg] at hexact
  norm_num at hexact

end Totals

end OrderDispatch
