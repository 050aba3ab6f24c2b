import OrderDispatch.Proofs.Number.Accuracy
import OrderDispatch.Proofs.Order.Amounts

/-!
# How exact a total is

The total of an order is rounded with every product and every sum. Each rounding is off by no more
than a part in `10 ^ 28` of one and the number itself, and what it adds to the next running total is
of the second order. So the error grows with the count of items, and little with anything else:

    |total.value - exactTotal items| ≤ 3 * items.length * (1 + exactTotal items) / 10 ^ 28

The shares are products with the total, and are off by one rounding more. Where there is no total,
one of the numbers on the way has reached the ceiling.
-/

namespace OrderDispatch.Totals

open Decimal (ceiling)

/-- The exact sum of what the items are worth. -/
def exactTotal (items : List OrderItem) : ℚ := (items.map OrderItem.worth).sum

theorem exactTotal_concat (items : List OrderItem) (item : OrderItem) :
    exactTotal (items ++ [item]) = exactTotal items + item.worth := by
  simp [exactTotal]

/-! ## One more rounding -/

/-- A running total that is off by so many errors `ε` is off by three more with the next product:
one is that of the product, and two are those of the sum. -/
theorem step_error (ε n S w T P next : ℚ) (hε : 0 ≤ ε) (hn : 0 ≤ n) (hsmall : (3 * n + 1) * ε ≤ 1)
    (hS : 0 ≤ S) (hw : 0 ≤ w) (hT : |T - S| ≤ 3 * n * ε * (1 + S)) (hP : |P - w| ≤ ε * (1 + w))
    (hnext : |next - (T + P)| ≤ ε * (1 + (T + P))) :
    |next - (S + w)| ≤ 3 * (n + 1) * ε * (1 + (S + w)) := by
  have hsum : |T + P - (S + w)| ≤ 3 * n * ε * (1 + S) + ε * (1 + w) := by
    rw [add_sub_add_comm]
    exact (abs_add_le _ _).trans (add_le_add hT hP)
  have hfirst : 3 * n * ε * (1 + S) + ε * (1 + w) ≤ (3 * n + 1) * ε * (1 + (S + w)) := by
    have hproduct : 0 ≤ 3 * n * ε * w := by positivity
    have htotal : 0 ≤ ε * S := by positivity
    linarith
  -- The errors so far come to less than one and the exact total.
  have hrunning : 1 + (T + P) ≤ 2 * (1 + (S + w)) := by
    have hwhole := mul_le_mul_of_nonneg_right hsmall (by linarith : 0 ≤ 1 + (S + w))
    have hoff := (abs_le.1 hsum).2
    linarith
  have hsecond : ε * (1 + (T + P)) ≤ 2 * ε * (1 + (S + w)) := by
    have hmul := mul_le_mul_of_nonneg_left hrunning hε
    linarith
  calc |next - (S + w)| ≤ |next - (T + P)| + |T + P - (S + w)| := abs_sub_le _ _ _
    _ ≤ ε * (1 + (T + P)) + (3 * n * ε * (1 + S) + ε * (1 + w)) := add_le_add hnext hsum
    _ ≤ 2 * ε * (1 + (S + w)) + (3 * n + 1) * ε * (1 + (S + w)) := add_le_add hsecond hfirst
    _ = 3 * (n + 1) * ε * (1 + (S + w)) := by ring

/-! ## The total -/

theorem product_nonneg (item : OrderItem) (product : Decimal) (hworth : 0 ≤ item.worth)
    (h : itemTotal item = .ok product) : 0 ≤ product.value := by
  have hle := Decimal.natCast_le_mul 0 _ _ product (by rw [Nat.cast_zero]; exact hworth) h
  rwa [Nat.cast_zero] at hle

section Charged

variable (items : List OrderItem) (hitems : ∀ item ∈ items, item.IsCharged)

include hitems

theorem exactTotal_nonneg : 0 ≤ exactTotal items := by
  refine List.sum_nonneg fun w hw => ?_
  obtain ⟨item, hitem, rfl⟩ := List.mem_map.1 hw
  exact item.worth_nonneg (hitems item hitem)

theorem total_nonneg (total : Decimal) (h : decimalTotal items = .ok total) : 0 ≤ total.value :=
  (Nat.cast_nonneg _).trans (floors_le_total items total hitems h)

/-- The total is off by at most three errors for each item. -/
theorem total_error (hcount : items.length ≤ 10 ^ 27) (total : Decimal)
    (h : decimalTotal items = .ok total) :
    |total.value - exactTotal items| ≤
      3 * items.length * (1 / 10 ^ 28) * (1 + exactTotal items) := by
  induction items using List.reverseRecOn generalizing total with
  | nil =>
    cases h
    simp [exactTotal, Decimal.value_zero Decimal.zero rfl]
  | append_singleton items item ih =>
    obtain ⟨before, product, hbefore, hproduct, hadd⟩ := (decimalTotal_concat_eq_ok_iff _ _ _).1 h
    rw [List.length_append, List.length_singleton] at hcount
    have hfront : ∀ i ∈ items, i.IsCharged := fun i hi => hitems i (by simp [hi])
    have hworth := item.worth_nonneg (hitems item (by simp))
    have hsum := add_nonneg (total_nonneg items hfront before hbefore)
      (product_nonneg item product hworth hproduct)
    rw [exactTotal_concat, List.length_append, List.length_singleton, Nat.cast_succ]
    refine step_error _ _ _ _ before.value product.value _ (by norm_num) (Nat.cast_nonneg _) ?_
      (exactTotal_nonneg items hfront) hworth (ih hfront (by omega) before hbefore) ?_ ?_
    · have hcast : (items.length : ℚ) + 1 ≤ 10 ^ 27 := by exact_mod_cast hcount
      linarith
    · rw [one_div_mul_eq_div]
      exact Decimal.mul_error _ _ _ hworth hproduct
    · rw [one_div_mul_eq_div]
      exact Decimal.add_error _ _ _ hsum hadd

/-- There is no total exactly if a product or a running total reaches the ceiling. -/
theorem overflows_iff :
    (∃ o, ofItems items = .error o) ↔
      (∃ item ∈ items, ceiling ≤ item.worth) ∨
      ∃ before item after total product, items = before ++ item :: after ∧
        decimalTotal before = .ok total ∧ itemTotal item = .ok product ∧
        ceiling ≤ total.value + product.value := by
  have hlost : (∃ o, ofItems items = .error o) ↔ ¬ HasRoom items := by
    rw [← isOk_ofItems_iff]
    cases ofItems items <;> simp
  rw [hlost]
  constructor
  · intro hroom
    by_contra hnone
    obtain ⟨hproducts, hsums⟩ := not_or.1 hnone
    refine hroom fun before item after hsplit => ⟨?_, fun total product htotal hproduct => ?_⟩
    · have hitem : item ∈ items := by simp [hsplit]
      rw [abs_of_nonneg (item.worth_nonneg (hitems item hitem))]
      exact not_le.1 fun h => hproducts ⟨item, hitem, h⟩
    · have hfront : ∀ i ∈ before, i.IsCharged := fun i hi => hitems i (by simp [hsplit, hi])
      have hworth := item.worth_nonneg (hitems item (by simp [hsplit]))
      rw [abs_of_nonneg (add_nonneg (total_nonneg before hfront total htotal)
        (product_nonneg item product hworth hproduct))]
      exact not_le.1 fun h =>
        hsums ⟨before, item, after, total, product, hsplit, htotal, hproduct, h⟩
  · rintro (⟨item, hitem, h⟩ | ⟨before, item, after, total, product, hsplit, htotal, hproduct, h⟩)
      hroom
    · obtain ⟨before, after, hsplit⟩ := List.append_of_mem hitem
      exact absurd ((le_abs_self _).trans_lt (hroom before item after hsplit).1) (not_lt.2 h)
    · have hlt := (hroom before item after hsplit).2 total product htotal hproduct
      exact absurd ((le_abs_self _).trans_lt hlt) (not_lt.2 h)

end Charged

/-! ## The shares -/

theorem value_platformRate : platformRate.value = 1 / 10 := by
  norm_num [platformRate, Decimal.value, Decimal.signed]

theorem value_providerRate : providerRate.value = 4 / 5 := by
  norm_num [providerRate, Decimal.value, Decimal.signed]

/-- A share of a total is off by one rounding. -/
theorem share_error (total rate share : Decimal) (htotal : 0 ≤ total.value) (hrate : 0 ≤ rate.value)
    (hrate' : rate.value ≤ 1) (h : total.mul rate = .ok share) :
    |share.value - total.value * rate.value| ≤ (1 + total.value) / 10 ^ 28 := by
  refine (Decimal.mul_error total rate share (mul_nonneg htotal hrate) h).trans ?_
  have hle := mul_le_of_le_one_right htotal hrate'
  exact div_le_div_of_nonneg_right (by linarith) (by positivity)

theorem exists_shares (total : Decimal) (h : total.Fits) :
    ∃ platform provider,
      total.mul platformRate = .ok platform ∧ total.mul providerRate = .ok provider := by
  obtain ⟨platform, hplatform⟩ := isOk_share total platformRate h (by norm_num [value_platformRate])
  obtain ⟨provider, hprovider⟩ := isOk_share total providerRate h (by norm_num [value_providerRate])
  exact ⟨platform, provider, hplatform, hprovider⟩

theorem ofTotal_eq_ok_iff (total : Decimal) (t : Totals) :
    ofTotal total = .ok t ↔ ∃ platform provider,
      total.mul platformRate = .ok platform ∧ total.mul providerRate = .ok provider ∧
      t = ⟨total.toFloat, platform.toFloat, provider.toFloat⟩ := by
  constructor
  · intro h
    obtain ⟨platform, hplatform, h⟩ := bind_eq_ok h
    obtain ⟨provider, hprovider, h⟩ := bind_eq_ok h
    cases h
    exact ⟨platform, provider, hplatform, hprovider, rfl⟩
  · rintro ⟨platform, provider, hplatform, hprovider, rfl⟩
    unfold ofTotal
    rw [hplatform, hprovider]
    rfl

/-- Items with amounts that are not negative have no total exactly if an exact product, or the exact
sum of a running total and the next product, reaches `2 ^ 96 - 1/2`; the shares of a total always
have room. The total of up to a million items is off by at most a part in `10 ^ 20` of one and the
exact total, and the shares by one in `10 ^ 28` of one and the total. -/
theorem totals_accuracy (items : List OrderItem) (hitems : ∀ item ∈ items, item.IsCharged) :
    ((∃ o, ofItems items = .error o) ↔
      (∃ item ∈ items, 2 ^ 96 - 1 / 2 ≤ item.worth) ∨
      ∃ before item after total product, items = before ++ item :: after ∧
        decimalTotal before = .ok total ∧ itemTotal item = .ok product ∧
        2 ^ 96 - 1 / 2 ≤ total.value + product.value) ∧
    (∀ total, decimalTotal items = .ok total → ∃ platform provider,
      total.mul platformRate = .ok platform ∧ total.mul providerRate = .ok provider) ∧
    ∀ t, ofItems items = .ok t → ∃ total platform provider, decimalTotal items = .ok total ∧
      total.mul platformRate = .ok platform ∧ total.mul providerRate = .ok provider ∧
      t = ⟨total.toFloat, platform.toFloat, provider.toFloat⟩ ∧
      (items.length ≤ 1000000 →
        |total.value - exactTotal items| ≤ (1 + exactTotal items) / 10 ^ 20) ∧
      |platform.value - total.value / 10| ≤ (1 + total.value) / 10 ^ 28 ∧
      |provider.value - 4 * total.value / 5| ≤ (1 + total.value) / 10 ^ 28 := by
  refine ⟨overflows_iff items hitems, fun total htotal => ?_, fun t ht => ?_⟩
  · exact exists_shares total (fits_decimalTotal items total htotal)
  obtain ⟨total, htotal, ht⟩ := bind_eq_ok ht
  obtain ⟨platform, provider, hplatform, hprovider, rfl⟩ := (ofTotal_eq_ok_iff total t).1 ht
  have hnonneg := total_nonneg items hitems total htotal
  refine ⟨total, platform, provider, htotal, hplatform, hprovider, rfl, fun hcount => ?_, ?_, ?_⟩
  · have hexact := exactTotal_nonneg items hitems
    refine (total_error items hitems (hcount.trans (by norm_num)) total htotal).trans ?_
    have hmillion : (items.length : ℚ) ≤ 1000000 := by exact_mod_cast hcount
    have hfactor : 3 * (items.length : ℚ) * (1 / 10 ^ 28) ≤ 1 / 10 ^ 20 := by linarith
    refine (mul_le_mul_of_nonneg_right hfactor (by linarith)).trans_eq ?_
    exact one_div_mul_eq_div _ _
  · have herror := share_error total platformRate platform hnonneg
      (by norm_num [value_platformRate]) (by norm_num [value_platformRate]) hplatform
    rwa [value_platformRate, mul_one_div] at herror
  · have herror := share_error total providerRate provider hnonneg
      (by norm_num [value_providerRate]) (by norm_num [value_providerRate]) hprovider
    rwa [value_providerRate, mul_div_assoc', mul_comm] at herror

/-- A loaf and its shares come out as they should. -/
theorem totals_accuracy_bread :
    (∀ item ∈ [bread], item.IsCharged) ∧ ofItems [bread] = .ok ⟨60, 6, 48⟩ ∧
      ∃ total, decimalTotal [bread] = .ok total ∧
        |total.value - exactTotal [bread]| ≤ (1 + exactTotal [bread]) / 10 ^ 20 := by
  have hcharged : ∀ item ∈ [bread], item.IsCharged := by
    intro item hitem
    rw [List.mem_singleton.1 hitem]
    exact bread.isCharged_check (by decide)
  have htotals : ofItems [bread] = .ok ⟨60, 6, 48⟩ := by decide
  obtain ⟨-, -, haccuracy⟩ := totals_accuracy [bread] hcharged
  obtain ⟨total, _, _, htotal, -, -, -, herror, -⟩ := haccuracy _ htotals
  exact ⟨hcharged, htotals, total, htotal, herror (by decide)⟩

end OrderDispatch.Totals
