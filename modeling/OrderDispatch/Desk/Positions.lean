import OrderDispatch.Desk.Basic
import OrderDispatch.Order.Request
import OrderDispatch.Travel

/-!
# Positions of providers

The provider an order is assigned to reports where it is, and learns how long it will take. Anybody
may list the reports on an order.
-/

namespace OrderDispatch

/-- The answer to a position report. -/
structure PositionReceipt where
  orderId : String
  reportId : String
  currentLocation : Location
  estimatedArrivalMinutes : Float
deriving DecidableEq

/-- The newest position reports on an order, newest first. -/
structure PositionHistory where
  orderId : String
  reports : List PositionReport
deriving DecidableEq

/-- Checks a position report and finds its location. -/
def LocationRequest.check (r : LocationRequest) (orderId : String) : Except Failure Location := do
  requireText "order ID" orderId
  requireText "provider ID" r.providerId
  requireLocation "location" r.location

namespace Desk

/-- Records a position report of the assigned provider. -/
def updateLocation (d : Desk) (m : Moment) (orderId : String) (r : LocationRequest) :
    Except Failure PositionReceipt × Desk :=
  d.checked (r.check orderId) fun location =>
    d.checked (d.get orderId) fun o =>
      if o.isAssignedTo r.providerId then
        let (id, d) := d.draw m
        let report : PositionReport :=
          ⟨id, o.id, r.providerId, location.latitude, location.longitude, m.now⟩
        let minutes := Travel.minutes location.coordinates o.etaTarget.coordinates
        (.ok ⟨o.id, id, location, minutes⟩, { d with store := d.store.insertReport report })
      else (.error (.permissionDenied orderId r.providerId), d)

/-- The newest position reports on an order. -/
def locationHistory (d : Desk) (orderId : String) (q : LocationQuery) :
    Except Failure PositionHistory := do
  let o ← d.get orderId
  let reports ← (d.store.reportHistory o.id q.pageSize.toNat).mapError .storage
  return ⟨o.id, reports⟩

end Desk

end OrderDispatch
