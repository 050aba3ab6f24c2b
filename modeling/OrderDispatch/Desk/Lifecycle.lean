import OrderDispatch.Desk.Basic
import OrderDispatch.Money
import OrderDispatch.Order.Request

/-!
# The life of orders

Opening, advancing, cancelling and listing orders. A request is checked in full before anything is
computed or drawn for it, and an order is cancelled from any status but a terminal one.
-/

namespace OrderDispatch

/-! ## Opening -/

/-- Why no order was opened. -/
inductive OpenError where
  | refused (failure : Failure)
  /-- The totals do not fit a decimal. -/
  | overflow (overflow : Overflow)
deriving DecidableEq

/-- Checks a request for an order, and finds both its locations. -/
def CreateRequest.check (r : CreateRequest) : Except Failure (Location × Location) := do
  requireText "user ID" r.userId
  let pickup ← requireLocation "pickup location" r.pickup
  let destination ← requireLocation "destination location" r.destination
  r.items.forM fun item => item.check.mapError fun e => .invalidArgument e.message
  return (pickup, destination)

/-- The order that a request opens; its history begins when the clock is read again. -/
def CreateRequest.order (r : CreateRequest) (id : String) (now later : Timestamp)
    (pickup destination : Location) (totals : Totals) : Order :=
  let order : Order := {
    id
    userId := r.userId
    providerId := none
    kind := r.kind
    status := .created
    pickup
    destination
    items := r.items
    totalPrice := totals.price
    platformFee := totals.platformFee
    providerFee := totals.providerFee
    paymentMethod := r.paymentMethod
    ledgerRef := none
    notes := r.notes.filter (!Text.isBlank ·)
    history := []
    createdAt := now
    updatedAt := now }
  order.pushStatus later .created systemActor "Order created"

namespace Desk

/-- Opens an order. -/
def create (d : Desk) (m : Moment) (r : CreateRequest) : Except OpenError Order × Desk :=
  match r.check with
  | .error f => (.error (.refused f), d)
  | .ok (pickup, destination) =>
    match Totals.ofItems r.items with
    | .error o => (.error (.overflow o), d)
    | .ok totals =>
      let (id, d) := d.draw m
      let o := r.order id m.now m.later pickup destination totals
      match d.store.insert o with
      | .error e => (.error (.refused (.storage e)), d)
      | .ok store => (.ok o, { d with store }.submit o)

/-! ## Changes of status -/

/-- Sets any status by hand. -/
def updateStatus (d : Desk) (m : Moment) (orderId : String) (r : StatusRequest) :
    Except Failure Order × Desk :=
  d.checked (requireText "order ID" orderId) fun () =>
    d.revise orderId fun o => .ok (o.pushStatus m.now r.status (actorOrSystem r.updatedBy) r.note)

/-- An order cancelled, unless its status is terminal. -/
def cancelled (now : Timestamp) (r : CancelRequest) (o : Order) : Except Failure Order :=
  if o.status.isTerminal then
    .error (.failedPrecondition
      ("order cannot be cancelled in its current state (" ++ o.status.name ++ ")"))
  else .ok (o.pushStatus now .cancelled (actorOrSystem r.cancelledBy) r.reason)

/-- Cancels an order. -/
def cancel (d : Desk) (m : Moment) (orderId : String) (r : CancelRequest) :
    Except Failure Order × Desk :=
  d.checked (requireText "order ID" orderId) fun () => d.revise orderId (cancelled m.now r)

end Desk

/-! ## Listings -/

/-- One page of the orders of a user or a provider. -/
structure Listing where
  orders : List Order
  /-- The count of orders on all pages. -/
  total : Nat
  page : UInt32
  limit : UInt32
deriving DecidableEq

namespace Desk

/-- One page of the orders under a key of an index. -/
def list (d : Desk) (i : OrderIndex) (key : String) (q : ListQuery) : Except Failure Listing := do
  let page ← (d.store.list i key q.status q.offset q.pageSize.toNat).mapError .storage
  return ⟨page.orders, page.total, q.effectivePage, q.pageSize⟩

/-- One page of the orders of a user. -/
def listByUser (d : Desk) (userId : String) (q : ListQuery) : Except Failure Listing := do
  requireText "user ID" userId
  d.list .user userId q

/-- One page of the orders that a provider is assigned to now. -/
def listByProvider (d : Desk) (providerId : String) (q : ListQuery) : Except Failure Listing := do
  requireText "provider ID" providerId
  d.list .provider providerId q

end Desk

end OrderDispatch
