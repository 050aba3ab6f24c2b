import OrderDispatch.Store.Orders
import OrderDispatch.Travel

/-!
# Tracking

A follower of an order looks at its newest position report on every tick, and passes it on as an
update unless it has passed on that very report before. The estimate in an update leads to the
target that the order has at that tick.

A subscription is a follower with a number. A subscription that is over stays in the reports until
it is given up. Closing all streams ends every subscription, those opened later included.
-/

namespace OrderDispatch

/-- Somebody who follows an order. -/
structure Follower where
  orderId : String
  /-- The identifier of the report passed on last. -/
  lastReport : Option String
deriving DecidableEq

namespace Follower

/-- A follower who has passed on nothing yet. -/
def ofOrder (orderId : String) : Follower := ⟨orderId, none⟩

/-- The update about a report, for an order on the way to a target. -/
def update (r : PositionReport) (target : Coordinates) : LocationUpdate where
  orderId := r.orderId
  providerId := r.providerId
  currentLocation := .ofPoint r.coordinates
  estimatedArrivalMinutes := Travel.minutes r.coordinates target
  timestamp := r.timestamp

/-- One tick: the update passed on, if any, and the follower afterwards. A report only counts as
passed on when its order could be read. -/
def tick (f : Follower) (s : OrderStore) : Option LocationUpdate × Follower :=
  match s.latestReport f.orderId with
  | .ok (some report) =>
    if f.lastReport = some report.id then (none, f)
    else
      match s.get f.orderId with
      | .ok (some o) =>
        (some (update report o.etaTarget.coordinates), { f with lastReport := some report.id })
      | _ => (none, f)
  | _ => (none, f)

end Follower

/-! ## Subscriptions -/

/-- A numbered follower. -/
structure Subscription where
  number : Nat
  follower : Follower
  /-- Whether it is over, though it is still held. -/
  isOver : Bool
deriving DecidableEq

/-- The subscriptions held, in the order they were opened. -/
structure Subscriptions where
  held : List Subscription
  /-- The number of the next subscription. -/
  nextNumber : Nat
  /-- Whether all streams have been closed. -/
  closed : Bool
deriving DecidableEq

/-- What a subscription saw on a tick. -/
structure TickReport where
  number : Nat
  update : Option LocationUpdate
  ended : Bool
deriving DecidableEq

namespace Subscriptions

/-- No subscriptions. -/
def empty : Subscriptions := ⟨[], 0, false⟩

instance : Inhabited Subscriptions := ⟨empty⟩

/-- Opens a subscription to an order and answers its number. -/
def subscribe (ss : Subscriptions) (orderId : String) : Nat × Subscriptions :=
  (ss.nextNumber, { ss with
    held := ss.held ++ [⟨ss.nextNumber, .ofOrder orderId, false⟩]
    nextNumber := ss.nextNumber + 1 })

/-- Gives up a subscription and answers whether it was held. -/
def drop (ss : Subscriptions) (number : Nat) : Bool × Subscriptions :=
  (ss.held.any (·.number == number),
    { ss with held := ss.held.filter (·.number != number) })

/-- Ends a subscription, which stays held. -/
def finish (ss : Subscriptions) (number : Nat) : Subscriptions :=
  { ss with held := ss.held.map fun x => { x with isOver := x.isOver || x.number == number } }

/-- Ends every stream. -/
def close (ss : Subscriptions) : Subscriptions := { ss with closed := true }

/-- One tick of a subscription. -/
def tickOne (closed : Bool) (s : OrderStore) (x : Subscription) : TickReport × Subscription :=
  if closed || x.isOver then (⟨x.number, none, true⟩, x)
  else
    let (update, follower) := x.follower.tick s
    (⟨x.number, update, false⟩, { x with follower })

/-- One tick of every subscription. -/
def tick (ss : Subscriptions) (s : OrderStore) : List TickReport × Subscriptions :=
  let ticked := ss.held.map (tickOne ss.closed s)
  (ticked.map (·.1), { ss with held := ticked.map (·.2) })

end Subscriptions

end OrderDispatch
