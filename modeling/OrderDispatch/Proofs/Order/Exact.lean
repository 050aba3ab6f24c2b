import OrderDispatch.Proofs.Order.Accuracy

/-!
# Totals without rounding

Where every product of a price and a quantity has room as it is, and so has the sum of all of them
at the greatest of their scales, nothing is rounded on the way: a running total is never greater
than the last one, nor are its places more.

    decimalTotal items = .ok ⟨false, unitsAt (places items) items, places items⟩   (decimalTotal_exact)

So the total does not depend on the order of the items, and an item that costs nothing changes
neither its mantissa nor its places. The shares are exact, too, if there is room for one place more
and for eight times the mantissa.
-/

namespace OrderDispatch

open Binary64 (IsAmount)

/-! ## Zeros -/

/-- A double that equals zero has no mantissa. -/
theorem Binary64.mantissa_of_beq_zero (x : Float) (hfin : isFinite x = true)
    (h : (x == 0) = true) : mantissa x = 0 := by
  rcases unpack_of_isFinite x hfin with ⟨hzero, -⟩ | ⟨s, hpos, hf⟩
  · exact hzero
  · have hbeq : x.toModel.unpack.beq (0 : Float).toModel.unpack = true := h
    rw [hf] at hbeq
    cases s <;> cases hbeq

theorem Decimal.mantissa_of_beq_zero (x : Float) (h : (x == 0) = true) :
    (ofFloat x).mantissa = 0 := by
  unfold ofFloat ofFloat?
  cases hfin : Binary64.isFinite x with
  | false => rfl
  | true =>
    simp only [Bool.not_true, Bool.false_eq_true, if_false,
      Binary64.mantissa_of_beq_zero x hfin h, if_true]
    rfl

/-! ## Products without rounding -/

namespace OrderItem

/-- The mantissa of the product of price and quantity. -/
def units (item : OrderItem) : Nat :=
  (Decimal.ofFloat item.price).mantissa * (Decimal.ofFloat item.quantity).mantissa

/-- The places of the product of price and quantity, none if it is zero. -/
def places (item : OrderItem) : Nat :=
  if item.units = 0 then 0
  else (Decimal.ofFloat item.price).scale + (Decimal.ofFloat item.quantity).scale

/-- The product of price and quantity is not rounded. -/
structure IsExact (item : OrderItem) : Prop where
  total : Totals.itemTotal item = .ok ⟨false, item.units, item.places⟩
  places : item.places ≤ Decimal.maxScale

theorem places_of_units (item : OrderItem) (h : item.units = 0) : item.places = 0 := if_pos h

theorem isExact_of_units (item : OrderItem) (h : item.units = 0) : item.IsExact := by
  refine ⟨?_, by rw [item.places_of_units h]; exact Nat.zero_le _⟩
  rw [item.places_of_units h, h]
  unfold Totals.itemTotal Decimal.mul
  exact if_pos (Nat.mul_eq_zero.1 h)

/-- The price or the quantity of the item is zero. -/
def isFree (item : OrderItem) : Bool := item.price == 0 || item.quantity == 0

theorem units_of_isFree (item : OrderItem) (h : item.isFree = true) : item.units = 0 := by
  unfold isFree at h
  rw [Bool.or_eq_true] at h
  unfold units
  rcases h with hprice | hquantity
  · rw [Decimal.mantissa_of_beq_zero _ hprice, zero_mul]
  · rw [Decimal.mantissa_of_beq_zero _ hquantity, mul_zero]

theorem isExact_of_isCharged (item : OrderItem) (h : item.IsCharged)
    (hroom : item.units ≠ 0 → Decimal.Room item.units item.places) : item.IsExact := by
  by_cases hzero : item.units = 0
  · exact item.isExact_of_units hzero
  · have hfits := hroom hzero
    refine ⟨?_, hfits.scale⟩
    unfold places at hfits ⊢
    rw [if_neg hzero] at hfits ⊢
    obtain ⟨hprice, hquantity⟩ := not_or.1 fun h => hzero (Nat.mul_eq_zero.2 h)
    exact Decimal.mul_exact _ _ hprice hquantity
      (Decimal.isNegative_eq_of_mul_nonneg _ _ hprice hquantity (item.worth_nonneg h)) hfits

/-- What an item is worth, in its units. -/
theorem worth_eq (item : OrderItem) (h : item.IsCharged) :
    item.worth = item.units / 10 ^ item.places := by
  rw [← abs_of_nonneg (item.worth_nonneg h)]
  unfold worth places
  rw [Decimal.abs_value_mul]
  split
  · next hzero => rw [show _ * _ = 0 from hzero, hzero, Nat.cast_zero, zero_div, zero_div]
  · rfl

end OrderItem

namespace Totals

/-! ## The sum at the greatest scale -/

/-- The greatest scale of all products. -/
def places (items : List OrderItem) : Nat := (items.map OrderItem.places).foldl max 0

/-- The sum of all products in units of a scale. -/
def unitsAt (scale : Nat) (items : List OrderItem) : Nat :=
  (items.map fun item => item.units * 10 ^ (scale - item.places)).sum

theorem places_concat (items : List OrderItem) (item : OrderItem) :
    places (items ++ [item]) = max (places items) item.places := by
  simp [places]

theorem unitsAt_append (scale : Nat) (items more : List OrderItem) :
    unitsAt scale (items ++ more) = unitsAt scale items + unitsAt scale more := by
  simp [unitsAt]

theorem places_perm (items others : List OrderItem) (h : others.Perm items) :
    places others = places items :=
  (h.map OrderItem.places).foldl_eq 0

theorem unitsAt_perm (scale : Nat) (items others : List OrderItem) (h : others.Perm items) :
    unitsAt scale others = unitsAt scale items :=
  (h.map _).sum_eq

theorem le_places (items : List OrderItem) (item : OrderItem) (h : item ∈ items) :
    item.places ≤ places items := by
  induction items using List.reverseRecOn with
  | nil => cases h
  | append_singleton items last ih =>
    rw [places_concat]
    rcases List.mem_append.1 h with h | h
    · exact (ih h).trans (le_max_left _ _)
    · rw [List.mem_singleton.1 h]
      exact le_max_right _ _

theorem places_le (items : List OrderItem) (bound : Nat) (h : ∀ item ∈ items, item.places ≤ bound) :
    places items ≤ bound := by
  induction items using List.reverseRecOn with
  | nil => exact Nat.zero_le _
  | append_singleton items last ih =>
    rw [places_concat]
    exact max_le (ih fun item hitem => h item (by simp [hitem])) (h last (by simp))

/-- In units of a greater scale, the sum has more zeros at its end. -/
theorem unitsAt_of_le (items : List OrderItem) (scale : Nat) (h : places items ≤ scale) :
    unitsAt scale items = unitsAt (places items) items * 10 ^ (scale - places items) := by
  unfold unitsAt
  rw [← List.sum_map_mul_right]
  congr 1
  refine List.map_congr_left fun item hitem => ?_
  have hle := le_places items item hitem
  rw [mul_assoc, ← pow_add]
  congr 2
  omega

/-- Items that cost nothing have no places. -/
theorem places_of_unitsAt (items : List OrderItem) (scale : Nat) (h : unitsAt scale items = 0) :
    places items = 0 := by
  refine Nat.le_zero.1 (places_le items 0 fun item hitem => ?_)
  have hzero := List.sum_eq_zero_iff.1 h _ (List.mem_map_of_mem hitem)
  rw [item.places_of_units ((Nat.mul_eq_zero.1 hzero).resolve_right (Nat.pow_pos (by decide)).ne')]

/-- The sum in units of a scale is the exact total. -/
theorem exactTotal_eq (items : List OrderItem) (hitems : ∀ item ∈ items, item.IsCharged)
    (scale : Nat) (hscale : places items ≤ scale) :
    exactTotal items = unitsAt scale items / 10 ^ scale := by
  induction items using List.reverseRecOn with
  | nil => simp [exactTotal, unitsAt]
  | append_singleton items item ih =>
    rw [places_concat] at hscale
    obtain ⟨k, rfl⟩ := Nat.exists_eq_add_of_le ((le_max_right _ _).trans hscale)
    have hworth : item.worth = ((item.units * 10 ^ k : ℕ) : ℚ) / 10 ^ (item.places + k) := by
      rw [item.worth_eq (hitems item (by simp)), pow_add]
      push_cast
      rw [mul_div_mul_right _ _ (Decimal.places_pos k).ne']
    rw [exactTotal_concat, unitsAt_append, ih (fun i hi => hitems i (by simp [hi]))
      ((le_max_left _ _).trans hscale), hworth, ← add_div, ← Nat.cast_add]
    simp [unitsAt]

/-! ## The total -/

/-- Nothing is rounded if no product is and the sum has room. -/
theorem decimalTotal_exact (items : List OrderItem) (hitems : ∀ item ∈ items, item.IsExact)
    (hsum : unitsAt (places items) items < Decimal.limit) :
    decimalTotal items = .ok ⟨false, unitsAt (places items) items, places items⟩ := by
  induction items using List.reverseRecOn with
  | nil => rfl
  | append_singleton items item ih =>
    have hfront : ∀ i ∈ items, i.IsExact := fun i hi => hitems i (by simp [hi])
    have hlast := hitems item (by simp)
    have hplaces : places (items ++ [item]) ≤ Decimal.maxScale :=
      places_le _ _ fun i hi => (hitems i hi).places
    have hunits : unitsAt (places (items ++ [item])) (items ++ [item]) =
        unitsAt (places items) items * 10 ^ (max (places items) item.places - places items) +
          item.units * 10 ^ (max (places items) item.places - item.places) := by
      rw [places_concat, unitsAt_append, unitsAt_of_le items _ (le_max_left _ _)]
      simp [unitsAt]
    -- The sum so far is no greater, so that it has room, too.
    have hless : unitsAt (places items) items < Decimal.limit := by
      refine lt_of_le_of_lt ?_ hsum
      rw [hunits]
      exact (Nat.le_mul_of_pos_right _ (Nat.pow_pos (by decide))).trans (Nat.le_add_right _ _)
    refine (decimalTotal_concat_eq_ok_iff _ _ _).2 ⟨_, _, ih hfront hless, hlast.total, ?_⟩
    rw [hunits] at hsum ⊢
    rw [places_concat] at hplaces ⊢
    exact Decimal.add_exact _ _ _ _ (places_of_unitsAt items _) item.places_of_units
      ⟨hsum, hplaces⟩

/-- Items that cost nothing add no places and no units. -/
theorem append_free (items free : List OrderItem) (hfree : ∀ item ∈ free, item.units = 0) :
    places (items ++ free) = places items ∧
      ∀ scale, unitsAt scale (items ++ free) = unitsAt scale items := by
  constructor
  · refine Nat.le_antisymm (places_le _ _ fun item hitem => ?_)
      (places_le _ _ fun item hitem => le_places _ item (List.mem_append_left _ hitem))
    rcases List.mem_append.1 hitem with h | h
    · exact le_places items item h
    · rw [item.places_of_units (hfree item h)]
      exact Nat.zero_le _
  · intro scale
    have hnothing : unitsAt scale free = 0 := by
      refine List.sum_eq_zero fun n hn => ?_
      obtain ⟨item, hitem, rfl⟩ := List.mem_map.1 hn
      rw [hfree item hitem, zero_mul]
    rw [unitsAt_append, hnothing, add_zero]

/-- Whatever the order of the items, and whatever else there is that costs nothing, the total is the
same. -/
theorem decimalTotal_mix (items free others : List OrderItem)
    (hitems : ∀ item ∈ items, item.IsExact) (hfree : ∀ item ∈ free, item.isFree = true)
    (hothers : others.Perm (items ++ free))
    (hsum : unitsAt (places items) items < Decimal.limit) :
    decimalTotal others = decimalTotal items := by
  have hnothing : ∀ item ∈ free, item.units = 0 :=
    fun item hitem => item.units_of_isFree (hfree item hitem)
  have hexact : ∀ item ∈ others, item.IsExact := by
    intro item hitem
    rcases List.mem_append.1 (hothers.mem_iff.1 hitem) with h | h
    · exact hitems item h
    · exact item.isExact_of_units (hnothing item h)
  obtain ⟨hplaces, hunits⟩ := append_free items free hnothing
  rw [← places_perm _ _ hothers] at hplaces
  have hunits := (unitsAt_perm (places items) _ _ hothers).trans (hunits _)
  rw [decimalTotal_exact items hitems hsum, decimalTotal_exact others hexact, hplaces, hunits]
  rwa [hplaces, hunits]

/-! ## The shares -/

/-- A share of a tenth, or of eight, is exact if there is room for one place more. -/
theorem share_exact (m s n : Nat) (hplaces : s ≤ 27) (hroom : n * m < 2 ^ 96) (share : Decimal)
    (h : Decimal.mul ⟨false, m, s⟩ ⟨false, n * 10, 2⟩ = .ok share) :
    share.value = Decimal.value ⟨false, m, s⟩ * Decimal.value ⟨false, n * 10, 2⟩ := by
  have hnonneg : 0 ≤ Decimal.value ⟨false, m, s⟩ * Decimal.value ⟨false, n * 10, 2⟩ := by
    rw [Decimal.value_nonneg, Decimal.value_nonneg]
    positivity
  have hmantissa : m * (n * 10) = n * m * 10 ^ 1 := by ring
  exact Decimal.mul_value _ _ (n * m) 1 hnonneg hmantissa (Nat.le_add_left 1 (s + 1))
    ⟨hroom, Nat.succ_le_succ hplaces⟩ share h

/-- Where no product needs rounding, and the sum of all at the greatest of their scales has room,
the total is that sum, at that scale. The amounts are the same for the items in any order and with
any items at a price or a quantity of zero among them. With room for one place more and for eight
times the mantissa, the shares are exactly a tenth and four fifths of the total. -/
theorem totals_exact (items : List OrderItem) (hitems : ∀ item ∈ items, item.IsCharged)
    (hproducts : ∀ item ∈ items, item.units ≠ 0 → item.units < 2 ^ 96 ∧ item.places ≤ 28)
    (hsum : unitsAt (places items) items < 2 ^ 96) :
    let total : Decimal := ⟨false, unitsAt (places items) items, places items⟩
    decimalTotal items = .ok total ∧ total.value = exactTotal items ∧
    (∃ t, ofItems items = .ok t ∧
      ∀ others free, (∀ item ∈ free, item.isFree = true) → others.Perm (items ++ free) →
        ofItems others = .ok t) ∧
    (places items ≤ 27 → 8 * unitsAt (places items) items < 2 ^ 96 →
      ∃ platform provider,
        total.mul platformRate = .ok platform ∧ total.mul providerRate = .ok provider ∧
        platform.value = total.value / 10 ∧ provider.value = 4 * total.value / 5) := by
  intro total
  have hexact : ∀ item ∈ items, item.IsExact := fun item hitem =>
    item.isExact_of_isCharged (hitems item hitem) fun hne =>
      ⟨(hproducts item hitem hne).1, (hproducts item hitem hne).2⟩
  have htotal : decimalTotal items = .ok total := decimalTotal_exact items hexact hsum
  have hfits := fits_decimalTotal items total htotal
  refine ⟨htotal, ?_, ?_, fun hplaces height => ?_⟩
  · rw [exactTotal_eq items hitems (places items) le_rfl]
    exact Decimal.value_nonneg _ _
  · obtain ⟨t, ht⟩ := isOk_ofTotal total hfits
    refine ⟨t, ?_, fun others free hfree hothers => ?_⟩
    · unfold ofItems
      rw [htotal]
      exact ht
    · unfold ofItems
      rw [decimalTotal_mix items free others hexact hfree hothers hsum, htotal]
      exact ht
  · obtain ⟨platform, provider, hplatform, hprovider⟩ := exists_shares total hfits
    refine ⟨platform, provider, hplatform, hprovider, ?_, ?_⟩
    · have hrate : Decimal.value ⟨false, 1 * 10, 2⟩ = 1 / 10 := value_platformRate
      have hvalue := share_exact _ _ 1 hplaces (by omega) platform hplatform
      rwa [hrate, mul_one_div] at hvalue
    · have hrate : Decimal.value ⟨false, 8 * 10, 2⟩ = 4 / 5 := value_providerRate
      have hvalue := share_exact _ _ 8 hplaces height provider hprovider
      rwa [hrate, mul_div_assoc', mul_comm] at hvalue

/-- Two pieces at 0.35. -/
def apple : OrderItem := ⟨"", "apple", 2, 0.35, .empty⟩

/-- A piece that is given away. -/
def sample : OrderItem := ⟨"", "sample", 1, 0, .empty⟩

/-- Bread and apples cost the same in any order, with a sample on top. -/
theorem totals_exact_bread :
    (∀ item ∈ [bread, apple], item.IsCharged) ∧
      (∀ item ∈ [bread, apple], item.units ≠ 0 → item.units < 2 ^ 96 ∧ item.places ≤ 28) ∧
      unitsAt (places [bread, apple]) [bread, apple] < 2 ^ 96 ∧
      decimalTotal [bread, apple] = .ok ⟨false, 6070, 2⟩ ∧
      ofItems [apple, sample, bread] = ofItems [bread, apple] := by
  have hcharged : ∀ item ∈ [bread, apple], item.IsCharged := by
    have hcheck : ∀ item ∈ [bread, apple], item.check = .ok () := by decide
    exact fun item hitem => item.isCharged_check (hcheck item hitem)
  have hproducts : ∀ item ∈ [bread, apple], item.units ≠ 0 →
      item.units < 2 ^ 96 ∧ item.places ≤ 28 := by decide
  have hplaces : places [bread, apple] = 2 := by decide
  have hunits : unitsAt 2 [bread, apple] = 6070 := by decide
  have hsum : unitsAt (places [bread, apple]) [bread, apple] < 2 ^ 96 := by
    rw [hplaces, hunits]
    norm_num
  obtain ⟨htotal, -, ⟨t, ht, hothers⟩, -⟩ :=
    totals_exact [bread, apple] hcharged hproducts hsum
  rw [hplaces, hunits] at htotal
  have hfree : ∀ item ∈ [sample], item.isFree = true := by decide
  have hperm : [apple, sample, bread].Perm ([bread, apple] ++ [sample]) := by decide
  exact ⟨hcharged, hproducts, hsum, htotal, (hothers _ _ hfree hperm).trans ht.symm⟩

end Totals

end OrderDispatch
