import OrderDispatch.Proofs.Number.Conversion
import OrderDispatch.Proofs.Order.Totals

/-!
# Amounts too great for a decimal

A price or a quantity of `2 ^ 96` or more has no decimal and is taken for zero. So an item that has
one is charged for nothing, and all the others are charged for at least what their worth is, each
rounded down to a whole number.

    the total is that of the convertible items     (decimalTotal_filter)
    floors items ≤ total.value                     (floors_le_total)
-/

namespace OrderDispatch

open Binary64 (IsAmount size)

/-! ## Bounds on doubles -/

namespace Decimal

/-- The least double that is too great for a decimal. -/
def tooGreat : Float := 79228162514264337593543950336

theorem isAmount_tooGreat : IsAmount tooGreat := ⟨by decide +kernel, by decide +kernel⟩

theorem size_tooGreat : size tooGreat = 2 ^ 96 := by
  have hm : Binary64.mantissa tooGreat = 2 ^ 52 := by decide +kernel
  have he : Binary64.exponent tooGreat = 44 := by decide +kernel
  unfold size
  rw [hm, he]
  norm_num

theorem lt_tooGreat_iff (x : Float) (h : IsAmount x) : x < tooGreat ↔ size x < 2 ^ 96 := by
  rw [Binary64.lt_iff_size_lt x _ h isAmount_tooGreat, size_tooGreat]

theorem one_le_iff (x : Float) (h : IsAmount x) : 1 ≤ x ↔ 1 ≤ size x := by
  have hone : IsAmount 1 := ⟨by decide, by decide⟩
  have hm : Binary64.mantissa 1 = 2 ^ 52 := by decide
  have he : Binary64.exponent 1 = -52 := by decide
  have hsize : size 1 = 1 := by
    unfold size
    rw [hm, he]
    norm_num
  rw [Binary64.le_iff_size_le 1 x hone h, hsize]

/-! ## Equal numbers -/

/-- Two decimals that are one, or zeros of any sign and scale. -/
def Same (a b : Decimal) : Prop := a = b ∨ a.mantissa = 0 ∧ b.mantissa = 0

theorem Same.value {a b : Decimal} (h : Same a b) : a.value = b.value := by
  rcases h with rfl | ⟨ha, hb⟩
  · rfl
  · rw [value_zero a ha, value_zero b hb]

theorem Same.add {a b c d : Decimal} (h : Same a b) (hd : b.add c = .ok d) :
    ∃ d', a.add c = .ok d' ∧ Same d' d := by
  rcases h with rfl | ⟨ha, hb⟩
  · exact ⟨d, hd, .inl rfl⟩
  · unfold Decimal.add at hd ⊢
    rw [if_pos hb] at hd
    rw [if_pos ha]
    exact ⟨d, hd, .inl rfl⟩

theorem Same.add_zero {a b d : Decimal} (h : Same a b) (hd : b.add .zero = .ok d) : Same a d := by
  unfold Decimal.add at hd
  split at hd
  · next hb =>
    cases hd
    rcases h with rfl | ⟨ha, -⟩
    · exact .inr ⟨hb, rfl⟩
    · exact .inr ⟨ha, rfl⟩
  · rw [if_pos (show zero.mantissa = 0 from rfl)] at hd
    cases hd
    exact h

end Decimal

/-! ## Charged items -/

theorem isAmount_checkAmount (field : String) (value : Float)
    (h : checkAmount field value = .ok ()) : IsAmount value := by
  refine ⟨isFinite_checkAmount field value h, ?_⟩
  unfold checkAmount at h
  split at h
  · cases h
  · split at h
    · cases h
    · next hnonneg => exact hnonneg

/-- The price and the quantity of an item are not negative. -/
structure OrderItem.IsCharged (item : OrderItem) : Prop where
  price : IsAmount item.price
  quantity : IsAmount item.quantity

theorem OrderItem.isCharged_check (item : OrderItem) (h : item.check = .ok ()) :
    item.IsCharged := by
  obtain ⟨_, hprice, hquantity⟩ := bind_eq_ok h
  exact ⟨isAmount_checkAmount _ _ hprice, isAmount_checkAmount _ _ hquantity⟩

/-- The price and the quantity of an item have decimals. -/
def OrderItem.isConvertible (item : OrderItem) : Bool :=
  decide (item.price < Decimal.tooGreat) && decide (item.quantity < Decimal.tooGreat)

namespace OrderItem

theorem worth_nonneg (item : OrderItem) (h : item.IsCharged) : 0 ≤ item.worth :=
  mul_nonneg (Decimal.value_ofFloat_nonneg _ h.price) (Decimal.value_ofFloat_nonneg _ h.quantity)

/-- The worth of a convertible item is at least one if its price and its quantity are. -/
theorem one_le_worth (item : OrderItem) (h : item.IsCharged) (hconv : item.isConvertible = true)
    (hprice : 1 ≤ item.price) (hquantity : 1 ≤ item.quantity) : 1 ≤ item.worth := by
  have hone : ∀ x : Float, IsAmount x → x < Decimal.tooGreat → 1 ≤ x →
      1 ≤ (Decimal.ofFloat x).value := by
    intro x hx hlt hle
    exact_mod_cast Decimal.natCast_le_ofFloat 1 x hx ((Decimal.lt_tooGreat_iff x hx).1 hlt)
      (by exact_mod_cast (Decimal.one_le_iff x hx).1 hle)
  unfold isConvertible at hconv
  rw [Bool.and_eq_true, decide_eq_true_iff, decide_eq_true_iff] at hconv
  exact one_le_mul_of_one_le_of_one_le (hone _ h.price hconv.1 hprice)
    (hone _ h.quantity hconv.2 hquantity)

/-- An item that is not convertible is charged for nothing. -/
theorem itemTotal_of_not_convertible (item : OrderItem) (h : item.IsCharged)
    (hconv : item.isConvertible = false) : Totals.itemTotal item = .ok .zero := by
  have hzero : ∀ x : Float, IsAmount x → ¬ x < Decimal.tooGreat → Decimal.ofFloat x = .zero := by
    intro x hx hlt
    rw [Decimal.lt_tooGreat_iff x hx, not_lt] at hlt
    exact Decimal.ofFloat_of_le_size x hx.isFinite hlt
  unfold isConvertible at hconv
  rw [Bool.and_eq_false_iff, decide_eq_false_iff_not, decide_eq_false_iff_not] at hconv
  unfold Totals.itemTotal Decimal.mul
  rw [if_pos]
  rcases hconv with hprice | hquantity
  · exact .inl (by rw [hzero _ h.price hprice]; rfl)
  · exact .inr (by rw [hzero _ h.quantity hquantity]; rfl)

end OrderItem

/-! ## Totals -/

namespace Totals

/-- The worth of all items, each rounded down to a whole number. -/
def floors (items : List OrderItem) : Nat := (items.map fun item => ⌊item.worth⌋₊).sum

theorem floors_concat (items : List OrderItem) (item : OrderItem) :
    floors (items ++ [item]) = floors items + ⌊item.worth⌋₊ := by
  simp [floors]

theorem floors_le_total (items : List OrderItem) (total : Decimal)
    (hitems : ∀ item ∈ items, item.IsCharged) (h : decimalTotal items = .ok total) :
    (floors items : ℚ) ≤ total.value := by
  induction items using List.reverseRecOn generalizing total with
  | nil =>
    cases h
    rw [Decimal.value_zero _ rfl]
    simp [floors]
  | append_singleton items item ih =>
    obtain ⟨before, product, hbefore, hproduct, hadd⟩ := (decimalTotal_concat_eq_ok_iff _ _ _).1 h
    have hworth := item.worth_nonneg (hitems item (by simp))
    refine Decimal.natCast_le_add _ _ _ _ ?_ hadd
    rw [floors_concat, Nat.cast_add]
    exact add_le_add (ih before (fun i hi => hitems i (by simp [hi])) hbefore)
      (Decimal.natCast_le_mul _ _ _ _ (Nat.floor_le hworth) hproduct)

/-- Items that are not convertible do not change the total. -/
theorem decimalTotal_filter (items : List OrderItem) (total : Decimal)
    (hitems : ∀ item ∈ items, item.IsCharged) (h : decimalTotal items = .ok total) :
    ∃ rest, decimalTotal (items.filter OrderItem.isConvertible) = .ok rest ∧
      Decimal.Same rest total := by
  induction items using List.reverseRecOn generalizing total with
  | nil => exact ⟨total, h, .inl rfl⟩
  | append_singleton items item ih =>
    obtain ⟨before, product, hbefore, hproduct, hadd⟩ := (decimalTotal_concat_eq_ok_iff _ _ _).1 h
    obtain ⟨rest, hrest, hsame⟩ := ih before (fun i hi => hitems i (by simp [hi])) hbefore
    rw [List.filter_append]
    cases hconv : item.isConvertible with
    | true =>
      obtain ⟨next, hnext, hsame⟩ := hsame.add hadd
      refine ⟨next, ?_, hsame⟩
      rw [List.filter_cons_of_pos hconv, List.filter_nil, decimalTotal_concat_eq_ok_iff]
      exact ⟨rest, product, hrest, hproduct, hnext⟩
    | false =>
      rw [item.itemTotal_of_not_convertible (hitems item (by simp)) hconv] at hproduct
      cases hproduct
      refine ⟨rest, ?_, hsame.add_zero hadd⟩
      rw [List.filter_cons_of_neg (by simp [hconv]), List.filter_nil, List.append_nil]
      exact hrest

/-- An order is priced at one at least if there is an item whose price and quantity are at least one
and not too great for a decimal; the items that are too great are charged for nothing. -/
theorem one_le_total (items : List OrderItem) (t : Totals)
    (hitems : ∀ item ∈ items, item.check = .ok ()) (ht : ofItems items = .ok t) :
    ∃ total, decimalTotal items = .ok total ∧
      ((∃ item ∈ items, item.isConvertible = true ∧ 1 ≤ item.price ∧ 1 ≤ item.quantity) →
        1 ≤ total.value) ∧
      ∃ rest, decimalTotal (items.filter OrderItem.isConvertible) = .ok rest ∧
        rest.value = total.value := by
  obtain ⟨total, htotal, -⟩ := bind_eq_ok ht
  have hcharged : ∀ item ∈ items, item.IsCharged :=
    fun item h => item.isCharged_check (hitems item h)
  refine ⟨total, htotal, ?_, ?_⟩
  · rintro ⟨item, hitem, hconv, hprice, hquantity⟩
    have hworth : 1 ≤ ⌊item.worth⌋₊ :=
      Nat.le_floor (by simpa using item.one_le_worth (hcharged item hitem) hconv hprice hquantity)
    have hfloors : ⌊item.worth⌋₊ ≤ floors items :=
      List.le_sum_of_mem (List.mem_map_of_mem hitem)
    have hone : ((1 : ℕ) : ℚ) ≤ floors items := by exact_mod_cast hworth.trans hfloors
    simpa using hone.trans (floors_le_total items total hcharged htotal)
  · obtain ⟨rest, hrest, hsame⟩ := decimalTotal_filter items total hcharged htotal
    exact ⟨rest, hrest, hsame.value⟩

theorem one_le_total_bread :
    (∀ item ∈ [bread], item.check = .ok ()) ∧ ofItems [bread] = .ok ⟨60, 6, 48⟩ ∧
      ∃ total, decimalTotal [bread] = .ok total ∧ 1 ≤ total.value := by
  have hcheck : ∀ item ∈ [bread], item.check = .ok () := by decide
  have htotals : ofItems [bread] = .ok ⟨60, 6, 48⟩ := by decide
  obtain ⟨total, htotal, hone, -⟩ := one_le_total [bread] _ hcheck htotals
  refine ⟨hcheck, htotals, total, htotal, hone ⟨bread, List.mem_singleton_self _, ?_⟩⟩
  decide +kernel

/-- One piece at a price that is too great. -/
def bullion : OrderItem := ⟨"", "a", 1, 100000000000000000000000000000, .empty⟩

/-- The item passes its check and is charged for nothing. -/
theorem bullion_free :
    bullion.check = .ok () ∧ 1 ≤ bullion.price ∧ 1 ≤ bullion.quantity ∧
      ofItems [bullion] = .ok ⟨0, 0, 0⟩ ∧
      ∃ total, decimalTotal [bullion] = .ok total ∧ ¬ 1 ≤ total.value := by
  have htotal : decimalTotal [bullion] = .ok .zero := by decide +kernel
  refine ⟨by decide +kernel, by decide +kernel, by decide +kernel, by decide +kernel, _, htotal, ?_⟩
  rw [Decimal.value_zero _ rfl]
  norm_num

end Totals

end OrderDispatch
