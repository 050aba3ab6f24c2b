import OrderDispatch.Desk.Lifecycle
import OrderDispatch.Proofs.Number.Decimal
import OrderDispatch.Proofs.Number.Legible
import OrderDispatch.Proofs.Order.Rows

/-!
# The figures of an order

Coordinates, quantities, prices and amounts are doubles, and a double that is no number would make
the row of its order unreadable. There is none: what a request is checked for is finite, so are the
amounts computed from it, and what is read back of finite figures is finite again.

    o.IsFinite → ∃ o', reread? o = some o' ∧ o'.IsFinite      (Order.reread?_isFinite)
    a checked request opens an order with finite figures      (CreateRequest.isFinite_order)
-/

namespace OrderDispatch

open Binary64 (isFinite)

/-- The coordinates of a place are numbers. -/
structure Location.IsFinite (l : Location) : Prop where
  latitude : isFinite l.latitude = true
  longitude : isFinite l.longitude = true

/-- The quantity and the price of an item are numbers. -/
structure OrderItem.IsFinite (item : OrderItem) : Prop where
  quantity : isFinite item.quantity = true
  price : isFinite item.price = true

/-- The three amounts are numbers. -/
structure Totals.IsFinite (t : Totals) : Prop where
  price : isFinite t.price = true
  platformFee : isFinite t.platformFee = true
  providerFee : isFinite t.providerFee = true

/-- The amounts of an order. -/
def Order.totals (o : Order) : Totals := ⟨o.totalPrice, o.platformFee, o.providerFee⟩

/-- All doubles of an order are numbers. -/
structure Order.IsFinite (o : Order) : Prop where
  pickup : o.pickup.IsFinite
  destination : o.destination.IsFinite
  items : ∀ item ∈ o.items, item.IsFinite
  totals : o.totals.IsFinite

/-! ## Read back -/

theorem Location.reread?_isFinite (l : Location) (h : l.IsFinite) :
    ∃ l', Rereads.reread? l = some l' ∧ l'.IsFinite := by
  obtain ⟨latitude, hlatitude, hlat⟩ := Binary64.reread?_isFinite _ h.latitude
  obtain ⟨longitude, hlongitude, hlong⟩ := Binary64.reread?_isFinite _ h.longitude
  refine ⟨{ l with latitude, longitude }, ?_, hlat, hlong⟩
  simp [Rereads.reread?, hlatitude, hlongitude]

theorem OrderItem.reread?_isFinite (item : OrderItem) (h : item.IsFinite) :
    ∃ item', Rereads.reread? item = some item' ∧ item'.IsFinite := by
  obtain ⟨quantity, hquantity, hq⟩ := Binary64.reread?_isFinite _ h.quantity
  obtain ⟨price, hprice, hp⟩ := Binary64.reread?_isFinite _ h.price
  refine ⟨{ item with quantity, price }, ?_, hq, hp⟩
  simp [Rereads.reread?, hquantity, hprice]

theorem OrderItem.reread?_list_isFinite (items : List OrderItem)
    (h : ∀ item ∈ items, item.IsFinite) :
    ∃ items' : List OrderItem, Rereads.reread? items = some items' ∧
      ∀ item ∈ items', item.IsFinite := by
  show ∃ items', items.mapM Rereads.reread? = some items' ∧ _
  induction items with
  | nil =>
    refine ⟨[], rfl, ?_⟩
    intro item hitem
    cases hitem
  | cons item items ih =>
    obtain ⟨item', hread, hfin⟩ := item.reread?_isFinite (h item List.mem_cons_self)
    obtain ⟨items', hreads, hfins⟩ := ih fun i hi => h i (List.mem_cons_of_mem _ hi)
    refine ⟨item' :: items', ?_, ?_⟩
    · rw [List.mapM_cons, hread, hreads]
      rfl
    · intro i hi
      rcases List.mem_cons.1 hi with rfl | hi
      · exact hfin
      · exact hfins i hi

/-- An order with finite figures is read back, and its figures are finite again. -/
theorem Order.reread?_isFinite (o : Order) (h : o.IsFinite) :
    ∃ o', Rereads.reread? o = some o' ∧ o'.IsFinite := by
  obtain ⟨pickup, hpickup, hp⟩ := Location.reread?_isFinite _ h.pickup
  obtain ⟨destination, hdestination, hd⟩ := Location.reread?_isFinite _ h.destination
  obtain ⟨items, hitems, hi⟩ := OrderItem.reread?_list_isFinite _ h.items
  obtain ⟨totalPrice, htotal, ht⟩ := Binary64.reread?_isFinite _ h.totals.price
  obtain ⟨platformFee, hplatform, hpl⟩ := Binary64.reread?_isFinite _ h.totals.platformFee
  obtain ⟨providerFee, hprovider, hpr⟩ := Binary64.reread?_isFinite _ h.totals.providerFee
  refine ⟨{ o with pickup, destination, items, totalPrice, platformFee, providerFee }, ?_,
    hp, hd, hi, ht, hpl, hpr⟩
  simp only [Order.totals] at htotal hplatform hprovider
  rw [reread?_order_eq, hpickup, hdestination, hitems, htotal, hplatform, hprovider]
  rfl

/-! ## Checked requests -/

theorem isFinite_of_isValid (c : Coordinates) (h : c.isValid = true) :
    isFinite c.latitude = true ∧ isFinite c.longitude = true := by
  unfold Coordinates.isValid at h
  simp only [Bool.and_eq_true] at h
  exact h.1.1

theorem isFinite_requireLocation (field : String) (location : Option Location) (l : Location)
    (h : requireLocation field location = .ok l) : l.IsFinite := by
  unfold requireLocation at h
  split at h
  · cases h
  · split at h
    · next hvalid =>
      cases h
      obtain ⟨hlat, hlong⟩ := isFinite_of_isValid _ hvalid
      exact ⟨hlat, hlong⟩
    · cases h

theorem isFinite_checkAmount (field : String) (value : Float)
    (h : checkAmount field value = .ok ()) : isFinite value = true := by
  unfold checkAmount at h
  split at h
  · cases h
  · next hfin => simpa using hfin

theorem OrderItem.isFinite_check (item : OrderItem) (h : item.check = .ok ()) : item.IsFinite := by
  obtain ⟨_, hprice, hquantity⟩ := bind_eq_ok h
  exact ⟨isFinite_checkAmount _ _ hquantity, isFinite_checkAmount _ _ hprice⟩

theorem isFinite_forM_check (items : List OrderItem)
    (h : (items.forM fun item => item.check.mapError fun e => Failure.invalidArgument e.message) =
      .ok ()) : ∀ item ∈ items, item.IsFinite := by
  induction items with
  | nil =>
    intro item hitem
    cases hitem
  | cons item items ih =>
    obtain ⟨_, hitem, hitems⟩ := bind_eq_ok h
    intro i hi
    rcases List.mem_cons.1 hi with rfl | hi
    · cases hcheck : i.check with
      | error e => simp only [hcheck] at hitem; cases hitem
      | ok _ => exact i.isFinite_check hcheck
    · exact ih hitems i hi

theorem isFinite_check (r : CreateRequest) (pickup destination : Location)
    (h : r.check = .ok (pickup, destination)) :
    pickup.IsFinite ∧ destination.IsFinite ∧ ∀ item ∈ r.items, item.IsFinite := by
  obtain ⟨_, -, h⟩ := bind_eq_ok h
  obtain ⟨p, hpickup, h⟩ := bind_eq_ok h
  obtain ⟨d, hdestination, h⟩ := bind_eq_ok h
  obtain ⟨_, hitems, h⟩ := bind_eq_ok h
  cases h
  exact ⟨isFinite_requireLocation _ _ _ hpickup, isFinite_requireLocation _ _ _ hdestination,
    isFinite_forM_check _ hitems⟩

/-! ## Amounts -/

theorem Totals.fits_foldlM (items : List OrderItem) (start total : Decimal) (hstart : start.Fits)
    (h : items.foldlM (fun total item => do total.add (← itemTotal item)) start = .ok total) :
    total.Fits := by
  induction items generalizing start with
  | nil =>
    cases h
    exact hstart
  | cons item items ih =>
    rw [List.foldlM_cons] at h
    obtain ⟨next, hnext, h⟩ := bind_eq_ok h
    obtain ⟨a, hitem, hnext⟩ := bind_eq_ok hnext
    exact ih next (Decimal.fits_add _ _ _ hstart (Decimal.fits_mul _ _ _ hitem) hnext) h

/-- The amounts of an order are numbers. -/
theorem Totals.isFinite_ofItems (items : List OrderItem) (t : Totals) (h : ofItems items = .ok t) :
    t.IsFinite := by
  obtain ⟨total, htotal, h⟩ := bind_eq_ok h
  obtain ⟨platform, hplatform, h⟩ := bind_eq_ok h
  obtain ⟨provider, hprovider, h⟩ := bind_eq_ok h
  cases h
  exact ⟨Decimal.isFinite_toFloat _ (Totals.fits_foldlM _ _ _ Decimal.fits_zero htotal),
    Decimal.isFinite_toFloat _ (Decimal.fits_mul _ _ _ hplatform),
    Decimal.isFinite_toFloat _ (Decimal.fits_mul _ _ _ hprovider)⟩

/-- A request that passes its check opens an order with finite figures. -/
theorem CreateRequest.isFinite_order (r : CreateRequest) (id : String) (now later : Timestamp)
    (pickup destination : Location) (totals : Totals) (hcheck : r.check = .ok (pickup, destination))
    (htotals : Totals.ofItems r.items = .ok totals) :
    (r.order id now later pickup destination totals).IsFinite := by
  obtain ⟨hpickup, hdestination, hitems⟩ := isFinite_check r pickup destination hcheck
  exact ⟨hpickup, hdestination, hitems, Totals.isFinite_ofItems _ _ htotals⟩

end OrderDispatch
