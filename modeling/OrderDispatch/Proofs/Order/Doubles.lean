import OrderDispatch.Proofs.Order.Figures

/-!
# What is read back as it was

Everything in a row comes back as it was written but for doubles. So a record is read back as it was
just if its doubles are, each for itself, and it is read back somehow if they are all numbers. An
entry of the ledger has no doubles at all.

    Coded.read (Coded.render o) = .ok o ↔ ∀ x ∈ o.doubles, Binary64.ReadsBack x   (Order.read_render)
    Coded.read (Coded.render e) = .ok e                                     (LedgerEntry.read_render)
-/

namespace OrderDispatch

open Binary64 (isFinite)

/-- A double is read back as it was written. -/
def Binary64.ReadsBack (x : Float) : Prop := reread? x = some x

/-! ## Reading -/

theorem toOption_mapM {ε α β : Type} (f : α → Except ε β) (xs : List α) :
    (xs.mapM f).toOption = xs.mapM fun x => (f x).toOption := by
  induction xs with
  | nil => rfl
  | cons x xs ih =>
    rw [List.mapM_cons, List.mapM_cons, ← ih]
    cases f x with
    | error e => rfl
    | ok b => cases xs.mapM f <;> rfl

theorem eq_ok_iff {ε α : Type} (x : Except ε α) (a : α) : x = .ok a ↔ x.toOption = some a := by
  cases x with
  | error e => exact iff_of_false (by rintro ⟨⟩) (by rintro ⟨⟩)
  | ok b => exact ⟨fun h => congrArg some (Except.ok.inj h), fun h => congrArg _ (Option.some.inj h)⟩

section Rereads

variable {α : Type} [Coded α] [Rereads α]

theorem read_render_eq_ok_iff (a b : α) :
    Coded.read (Coded.render a) = .ok b ↔ Rereads.reread? a = some b := by
  rw [eq_ok_iff, Rereads.read_render]

/-- Several records are read back as they were just if each of them is. -/
theorem mapM_reread?_eq_self (as : List α) :
    as.mapM Rereads.reread? = some as ↔ ∀ a ∈ as, Rereads.reread? a = some a := by
  induction as with
  | nil => simp
  | cons a as ih =>
    rw [List.mapM_cons, List.forall_mem_cons, ← ih]
    cases Rereads.reread? a with
    | none => simp
    | some b => cases as.mapM Rereads.reread? <;> simp

end Rereads

/-! ## Doubles -/

/-- The doubles of a place. -/
def Location.doubles (l : Location) : List Float := [l.latitude, l.longitude]

/-- The doubles of an item. -/
def OrderItem.doubles (item : OrderItem) : List Float := [item.quantity, item.price]

/-- The doubles of an order. -/
def Order.doubles (o : Order) : List Float :=
  o.pickup.doubles ++ o.destination.doubles ++ o.items.flatMap OrderItem.doubles ++
    [o.totalPrice, o.platformFee, o.providerFee]

/-- The doubles of a position report. -/
def PositionReport.doubles (r : PositionReport) : List Float := [r.latitude, r.longitude]

theorem Location.reread?_eq_self (l : Location) :
    Rereads.reread? l = some l ↔ ∀ x ∈ l.doubles, Binary64.ReadsBack x := by
  obtain ⟨latitude, longitude, _, _, _, _, _⟩ := l
  simp only [Rereads.reread?, doubles, List.forall_mem_cons, Binary64.ReadsBack]
  cases Binary64.reread? latitude <;> cases Binary64.reread? longitude <;> simp

theorem OrderItem.reread?_eq_self (item : OrderItem) :
    Rereads.reread? item = some item ↔ ∀ x ∈ item.doubles, Binary64.ReadsBack x := by
  obtain ⟨_, _, quantity, price, _⟩ := item
  simp only [Rereads.reread?, doubles, List.forall_mem_cons, Binary64.ReadsBack]
  cases Binary64.reread? quantity <;> cases Binary64.reread? price <;> simp

theorem PositionReport.reread?_eq_self (r : PositionReport) :
    Rereads.reread? r = some r ↔ ∀ x ∈ r.doubles, Binary64.ReadsBack x := by
  obtain ⟨_, _, _, latitude, longitude, _⟩ := r
  simp only [Rereads.reread?, doubles, List.forall_mem_cons, Binary64.ReadsBack]
  cases Binary64.reread? latitude <;> cases Binary64.reread? longitude <;> simp

theorem Order.reread?_eq_self (o : Order) :
    Rereads.reread? o = some o ↔ ∀ x ∈ o.doubles, Binary64.ReadsBack x := by
  have hparts : Rereads.reread? o = some o ↔ Rereads.reread? o.pickup = some o.pickup ∧
      Rereads.reread? o.destination = some o.destination ∧
      Rereads.reread? o.items = some o.items ∧ Binary64.ReadsBack o.totalPrice ∧
      Binary64.ReadsBack o.platformFee ∧ Binary64.ReadsBack o.providerFee := by
    rw [reread?_order_eq]
    obtain ⟨_, _, _, _, _, pickup, destination, items, totalPrice, platformFee, providerFee, _, _,
      _, _, _, _⟩ := o
    simp only [Binary64.ReadsBack]
    cases Rereads.reread? pickup <;> cases Rereads.reread? destination <;>
      cases Rereads.reread? items <;> cases Binary64.reread? totalPrice <;>
      cases Binary64.reread? platformFee <;> cases Binary64.reread? providerFee <;> simp
  have hitems : Rereads.reread? o.items = some o.items ↔
      ∀ x ∈ o.items.flatMap OrderItem.doubles, Binary64.ReadsBack x := by
    refine (mapM_reread?_eq_self o.items).trans ?_
    simp only [OrderItem.reread?_eq_self, List.mem_flatMap]
    exact ⟨fun h x ⟨item, hitem, hx⟩ => h item hitem x hx,
      fun h item hitem x hx => h x ⟨item, hitem, hx⟩⟩
  rw [hparts, Location.reread?_eq_self, Location.reread?_eq_self, hitems]
  simp only [doubles, List.forall_mem_append, List.forall_mem_cons, List.not_mem_nil,
    false_imp_iff, implies_true, and_true, and_assoc]

/-! ## Records -/

/-- An order is read back as it was written just if its doubles are. -/
theorem Order.read_render (o : Order) :
    Coded.read (Coded.render o) = .ok o ↔ ∀ x ∈ o.doubles, Binary64.ReadsBack x := by
  rw [read_render_eq_ok_iff, Order.reread?_eq_self]

theorem PositionReport.read_render (r : PositionReport) :
    Coded.read (Coded.render r) = .ok r ↔ ∀ x ∈ r.doubles, Binary64.ReadsBack x := by
  rw [read_render_eq_ok_iff, PositionReport.reread?_eq_self]

theorem LedgerEntry.read_render (e : LedgerEntry) : Coded.read (Coded.render e) = .ok e :=
  (read_render_eq_ok_iff e e).2 rfl

theorem Order.isFinite_iff (o : Order) :
    o.IsFinite ↔ ∀ x ∈ o.doubles, isFinite x = true := by
  simp only [doubles, Location.doubles, OrderItem.doubles, List.forall_mem_append,
    List.forall_mem_cons, List.not_mem_nil, false_imp_iff, implies_true, and_true, List.mem_flatMap]
  constructor
  · intro h
    refine ⟨⟨⟨⟨h.pickup.1, h.pickup.2⟩, h.destination.1, h.destination.2⟩, ?_⟩, h.totals.1,
      h.totals.2, h.totals.3⟩
    rintro x ⟨item, hitem, hx⟩
    have hfin := h.items item hitem
    simp only [List.mem_cons, List.not_mem_nil, or_false] at hx
    rcases hx with rfl | rfl
    · exact hfin.quantity
    · exact hfin.price
  · rintro ⟨⟨⟨hpickup, hdestination⟩, hitems⟩, htotal, hplatform, hprovider⟩
    exact ⟨⟨hpickup.1, hpickup.2⟩, ⟨hdestination.1, hdestination.2⟩,
      fun item hitem => ⟨hitems _ ⟨item, hitem, by simp⟩, hitems _ ⟨item, hitem, by simp⟩⟩,
      htotal, hplatform, hprovider⟩

/-- The coordinates of a report are numbers. -/
def PositionReport.IsFinite (r : PositionReport) : Prop := ∀ x ∈ r.doubles, isFinite x = true

theorem PositionReport.reread?_isFinite (r : PositionReport) (h : r.IsFinite) :
    ∃ r', Rereads.reread? r = some r' := by
  obtain ⟨latitude, hlatitude, -⟩ := Binary64.reread?_isFinite r.latitude (h _ (by simp [doubles]))
  obtain ⟨longitude, hlongitude, -⟩ :=
    Binary64.reread?_isFinite r.longitude (h _ (by simp [doubles]))
  exact ⟨{ r with latitude, longitude }, by simp [Rereads.reread?, hlatitude, hlongitude]⟩

end OrderDispatch
