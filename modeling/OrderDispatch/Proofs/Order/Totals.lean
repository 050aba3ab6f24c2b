import OrderDispatch.Proofs.Number.Conversion
import OrderDispatch.Proofs.Order.Figures

/-!
# Room for a total

The total of an order is added up in decimals of 96 bits. Items are checked for numbers that are not
negative, but not for any upper bound, so that a product or a running total may have no room. There
is a total exactly if no exact product, and no exact sum of a running total and the next product,
reaches the ceiling.

    (∃ t, ofItems items = .ok t) ↔ HasRoom items     (isOk_ofItems_iff)
    ceilings items < 2 ^ 96 → HasRoom items          (hasRoom_of_ceilings)

A request for an order without room passes its check and ends in an overflow.
-/

namespace OrderDispatch

open Decimal (ceiling)

/-! ## The worth of an item -/

/-- The exact number that an item adds to the total. -/
def OrderItem.worth (item : OrderItem) : ℚ :=
  (Decimal.ofFloat item.price).value * (Decimal.ofFloat item.quantity).value

namespace Totals

/-- Every product, and every running total with the next product, is below the ceiling. -/
def HasRoom (items : List OrderItem) : Prop :=
  ∀ before item after, items = before ++ item :: after →
    |item.worth| < ceiling ∧
      ∀ total product, decimalTotal before = .ok total → itemTotal item = .ok product →
        |total.value + product.value| < ceiling

/-! ## One more item -/

theorem decimalTotal_concat (items : List OrderItem) (item : OrderItem) :
    decimalTotal (items ++ [item]) =
      decimalTotal items >>= fun total => itemTotal item >>= total.add := by
  unfold decimalTotal
  simp only [List.foldlM_append, List.foldlM_cons, List.foldlM_nil, bind_pure]

theorem decimalTotal_concat_eq_ok_iff (items : List OrderItem) (item : OrderItem)
    (next : Decimal) :
    decimalTotal (items ++ [item]) = .ok next ↔
      ∃ total product, decimalTotal items = .ok total ∧ itemTotal item = .ok product ∧
        total.add product = .ok next := by
  rw [decimalTotal_concat]
  constructor
  · intro h
    obtain ⟨total, htotal, h⟩ := bind_eq_ok h
    obtain ⟨product, hproduct, h⟩ := bind_eq_ok h
    exact ⟨total, product, htotal, hproduct, h⟩
  · rintro ⟨total, product, htotal, hproduct, hadd⟩
    rw [htotal]
    show (itemTotal item >>= total.add) = .ok next
    rw [hproduct]
    exact hadd

theorem fits_decimalTotal (items : List OrderItem) (total : Decimal)
    (h : decimalTotal items = .ok total) : total.Fits :=
  fits_foldlM items _ total Decimal.fits_zero h

theorem isOk_itemTotal_iff (item : OrderItem) :
    (∃ product, itemTotal item = .ok product) ↔ |item.worth| < ceiling :=
  Decimal.mul_isOk_iff _ _

/-! ## Room -/

theorem hasRoom_concat_iff (items : List OrderItem) (item : OrderItem) :
    HasRoom (items ++ [item]) ↔
      HasRoom items ∧ |item.worth| < ceiling ∧
        ∀ total product, decimalTotal items = .ok total → itemTotal item = .ok product →
          |total.value + product.value| < ceiling := by
  constructor
  · intro h
    refine ⟨fun before item' after hsplit => ?_, h items item [] rfl⟩
    exact h before item' (after ++ [item]) (by rw [hsplit, List.append_assoc]; rfl)
  · rintro ⟨hitems, hlast⟩ before item' after hsplit
    rcases List.eq_nil_or_concat after with rfl | ⟨after, last, rfl⟩
    · obtain ⟨rfl, hcons⟩ := List.append_inj' hsplit rfl
      cases hcons
      exact hlast
    · rw [List.concat_eq_append, ← List.cons_append, ← List.append_assoc] at hsplit
      exact hitems before item' after (List.append_inj' hsplit rfl).1

theorem isOk_decimalTotal_iff (items : List OrderItem) :
    (∃ total, decimalTotal items = .ok total) ↔ HasRoom items := by
  induction items using List.reverseRecOn with
  | nil =>
    refine iff_of_true ⟨_, rfl⟩ fun before item after hsplit => ?_
    simp at hsplit
  | append_singleton items item ih =>
    rw [hasRoom_concat_iff, ← ih, ← isOk_itemTotal_iff]
    constructor
    · rintro ⟨next, hnext⟩
      obtain ⟨total, product, htotal, hproduct, hadd⟩ :=
        (decimalTotal_concat_eq_ok_iff _ _ _).1 hnext
      refine ⟨⟨total, htotal⟩, ⟨product, hproduct⟩, fun total' product' htotal' hproduct' => ?_⟩
      rw [htotal] at htotal'
      rw [hproduct] at hproduct'
      cases htotal'
      cases hproduct'
      exact (Decimal.add_isOk_iff _ _ (fits_decimalTotal _ _ htotal)
        (Decimal.fits_mul _ _ _ hproduct)).1 ⟨next, hadd⟩
    · rintro ⟨⟨total, htotal⟩, ⟨product, hproduct⟩, hroom⟩
      obtain ⟨next, hadd⟩ := (Decimal.add_isOk_iff _ _ (fits_decimalTotal _ _ htotal)
        (Decimal.fits_mul _ _ _ hproduct)).2 (hroom total product htotal hproduct)
      exact ⟨next, (decimalTotal_concat_eq_ok_iff _ _ _).2 ⟨_, _, htotal, hproduct, hadd⟩⟩

/-- A share of a total has room. -/
theorem isOk_share (total rate : Decimal) (h : total.Fits) (hrate : |rate.value| ≤ 1) :
    ∃ share, total.mul rate = .ok share := by
  rw [Decimal.mul_isOk_iff, abs_mul]
  exact (mul_le_of_le_one_right (abs_nonneg _) hrate).trans_lt (Decimal.abs_value_lt total h)

theorem isOk_ofTotal (total : Decimal) (h : total.Fits) : ∃ t, ofTotal total = .ok t := by
  obtain ⟨platform, hplatform⟩ := isOk_share total platformRate h (by
    norm_num [platformRate, Decimal.value, Decimal.signed])
  obtain ⟨provider, hprovider⟩ := isOk_share total providerRate h (by
    norm_num [providerRate, Decimal.value, Decimal.signed])
  unfold ofTotal
  rw [hplatform, hprovider]
  exact ⟨_, rfl⟩

/-- Only the total itself can be without room. -/
theorem isOk_ofItems_iff (items : List OrderItem) :
    (∃ t, ofItems items = .ok t) ↔ HasRoom items := by
  rw [← isOk_decimalTotal_iff]
  constructor
  · rintro ⟨t, ht⟩
    obtain ⟨total, htotal, -⟩ := bind_eq_ok ht
    exact ⟨total, htotal⟩
  · rintro ⟨total, htotal⟩
    obtain ⟨t, ht⟩ := isOk_ofTotal total (fits_decimalTotal _ _ htotal)
    refine ⟨t, ?_⟩
    unfold ofItems
    rw [htotal]
    exact ht

/-! ## The total between whole numbers -/

/-- The worth of all items, each rounded up to a whole number. -/
def ceilings (items : List OrderItem) : Nat := (items.map fun item => ⌈|item.worth|⌉₊).sum

theorem ceilings_concat (items : List OrderItem) (item : OrderItem) :
    ceilings (items ++ [item]) = ceilings items + ⌈|item.worth|⌉₊ := by
  simp [ceilings]

theorem abs_itemTotal_le (item : OrderItem) (product : Decimal)
    (h : itemTotal item = .ok product) : |product.value| ≤ (⌈|item.worth|⌉₊ : ℚ) :=
  Decimal.abs_mul_le _ _ _ _ (Nat.le_ceil _) h

theorem total_le_ceilings (items : List OrderItem) (total : Decimal)
    (h : decimalTotal items = .ok total) : |total.value| ≤ ceilings items := by
  induction items using List.reverseRecOn generalizing total with
  | nil =>
    cases h
    rw [Decimal.value_zero _ rfl, abs_zero]
    exact Nat.cast_nonneg _
  | append_singleton items item ih =>
    obtain ⟨before, product, hbefore, hproduct, hadd⟩ := (decimalTotal_concat_eq_ok_iff _ _ _).1 h
    refine Decimal.abs_add_le _ _ _ _ ?_ hadd
    rw [ceilings_concat, Nat.cast_add]
    exact (abs_add_le _ _).trans
      (add_le_add (ih before hbefore) (abs_itemTotal_le item product hproduct))

/-- Whole numbers below `2 ^ 96` are below the ceiling. -/
theorem natCast_lt_ceiling (n : Nat) (h : n < 2 ^ 96) : (n : ℚ) < ceiling := by
  have hle : (n : ℚ) ≤ 2 ^ 96 - 1 := by
    rw [le_sub_iff_add_le]
    exact_mod_cast h
  refine hle.trans_lt ?_
  unfold ceiling
  norm_num

/-- Items whose worth, each rounded up, comes to less than `2 ^ 96` have room. -/
theorem hasRoom_of_ceilings (items : List OrderItem) (h : ceilings items < 2 ^ 96) :
    HasRoom items := by
  induction items using List.reverseRecOn with
  | nil => exact (isOk_decimalTotal_iff []).1 ⟨_, rfl⟩
  | append_singleton items item ih =>
    have hlt := natCast_lt_ceiling _ h
    rw [ceilings_concat] at h hlt
    rw [hasRoom_concat_iff]
    refine ⟨ih (by omega), ?_, fun total product htotal hproduct => ?_⟩
    · exact (Nat.le_ceil _).trans_lt (natCast_lt_ceiling _ (by omega))
    · refine ((abs_add_le _ _).trans ?_).trans_lt hlt
      rw [Nat.cast_add]
      exact add_le_add (total_le_ceilings items total htotal)
        (abs_itemTotal_le item product hproduct)

/-! ## Opening -/

theorem create_overflow_iff (d : Desk) (m : Moment) (r : CreateRequest) :
    (∃ o, (d.create m r).1 = .error (.overflow o)) ↔
      (∃ places, r.check = .ok places) ∧ ¬ HasRoom r.items := by
  rw [← isOk_ofItems_iff]
  unfold Desk.create
  cases hcheck : r.check with
  | error f => simp
  | ok places =>
    obtain ⟨pickup, destination⟩ := places
    cases htotals : ofItems r.items with
    | error o => simp
    | ok totals =>
      simp only
      split <;> simp

/-- Items are totalled exactly if all numbers on the way are below the ceiling, which they are if
the worth of all items, each rounded up, comes to less than `2 ^ 96`. A request ends in an overflow
exactly if it passes its check and its items have no room, whatever the state of the desk. -/
theorem totalled_iff_hasRoom (items : List OrderItem) (d : Desk) (m : Moment) (r : CreateRequest) :
    ((∃ t, ofItems items = .ok t) ↔ HasRoom items) ∧
      (ceilings items < 2 ^ 96 → HasRoom items) ∧
      ((∃ o, (d.create m r).1 = .error (.overflow o)) ↔
        (∃ places, r.check = .ok places) ∧ ¬ HasRoom r.items) :=
  ⟨isOk_ofItems_iff items, hasRoom_of_ceilings items, create_overflow_iff d m r⟩

/-- Three pieces at twenty. -/
def bread : OrderItem := ⟨"", "bread", 3, 20, .empty⟩

/-- A request for bread. -/
def breadRequest : CreateRequest where
  userId := "u-1"
  kind := .ride
  pickup := some (.ofPoint ⟨1, 2⟩)
  destination := some (.ofPoint ⟨3, 4⟩)
  items := [bread]
  paymentMethod := .creditCard
  notes := none

theorem totalled_bread :
    ceilings [bread] < 2 ^ 96 ∧ ∀ (d : Desk) (m : Moment),
      (∃ t, ofItems [bread] = .ok t) ∧
        ¬ ∃ o, (d.create m breadRequest).1 = .error (.overflow o) := by
  have hprice : Decimal.ofFloat bread.price = ⟨false, 20, 0⟩ := by decide
  have hquantity : Decimal.ofFloat bread.quantity = ⟨false, 3, 0⟩ := by decide
  have hsmall : ceilings [bread] < 2 ^ 96 := by
    simp only [ceilings, List.map_cons, List.map_nil, List.sum_cons, List.sum_nil,
      OrderItem.worth, hprice, hquantity, Decimal.value_nonneg]
    norm_num
  refine ⟨hsmall, fun d m => ?_⟩
  obtain ⟨htotalled, hceilings, hcreate⟩ := totalled_iff_hasRoom [bread] d m breadRequest
  have hroom := hceilings hsmall
  exact ⟨htotalled.2 hroom, fun hlost => (hcreate.1 hlost).2 hroom⟩

/-- A request for a great many pieces at a great price. -/
def hoard : CreateRequest :=
  { breadRequest with items := [⟨"", "a", 100000000000000000000, 100000000000000000000, .empty⟩] }

/-- The request passes its check, and there is no room for its product. -/
theorem hoard_overflows :
    (∀ item ∈ hoard.items, item.check = .ok ()) ∧ (∃ places, hoard.check = .ok places) ∧
      ofItems hoard.items = .error .multiplication ∧
      ∀ (d : Desk) (m : Moment), (d.create m hoard).1 = .error (.overflow .multiplication) := by
  have hcheck : hoard.check = .ok (.ofPoint ⟨1, 2⟩, .ofPoint ⟨3, 4⟩) := by decide
  have htotals : ofItems hoard.items = .error .multiplication := by decide
  refine ⟨by decide, ⟨_, hcheck⟩, htotals, fun d m => ?_⟩
  unfold Desk.create
  rw [hcheck]
  simp only [htotals]

end Totals

end OrderDispatch
