import OrderDispatch.Order.Basic

/-!
# Position reports

What a provider reports about the way of an order, and the update that subscribers are sent.
-/

namespace OrderDispatch

/-- A stored position of the provider of an order. -/
structure PositionReport where
  id : String
  orderId : String
  providerId : String
  latitude : Float
  longitude : Float
  timestamp : Timestamp
deriving DecidableEq, Inhabited

namespace PositionReport

/-- The reported point. -/
def coordinates (r : PositionReport) : Coordinates := ⟨r.latitude, r.longitude⟩

instance : Coded PositionReport where
  shape := .record [
    .required "id" .text,
    .required "order_id" .text,
    .required "provider_id" .text,
    .required "latitude" .real,
    .required "longitude" .real,
    .required "timestamp" .signed64]
  encode r := .record [
    ("id", .text r.id),
    ("order_id", .text r.orderId),
    ("provider_id", .text r.providerId),
    ("latitude", .real r.latitude),
    ("longitude", .real r.longitude),
    ("timestamp", r.timestamp.encode)]
  decode? j := do
    return {
      id := ← (← j.get? "id").text?
      orderId := ← (← j.get? "order_id").text?
      providerId := ← (← j.get? "provider_id").text?
      latitude := ← (← j.get? "latitude").real?
      longitude := ← (← j.get? "longitude").real?
      timestamp := ← Timestamp.decode? (← j.get? "timestamp") }

end PositionReport

/-- The news that a subscriber to an order gets. -/
structure LocationUpdate where
  orderId : String
  providerId : String
  currentLocation : Location
  estimatedArrivalMinutes : Float
  timestamp : Timestamp
deriving DecidableEq, Inhabited

instance : Coded LocationUpdate where
  shape := .record [
    .required "order_id" .text,
    .required "provider_id" .text,
    .required "current_location" (Coded.shape Location),
    .required "estimated_arrival_minutes" .real,
    .required "timestamp" .signed64]
  encode u := .record [
    ("order_id", .text u.orderId),
    ("provider_id", .text u.providerId),
    ("current_location", Coded.encode u.currentLocation),
    ("estimated_arrival_minutes", .real u.estimatedArrivalMinutes),
    ("timestamp", u.timestamp.encode)]
  decode? j := do
    return {
      orderId := ← (← j.get? "order_id").text?
      providerId := ← (← j.get? "provider_id").text?
      currentLocation := ← Coded.decode? (← j.get? "current_location")
      estimatedArrivalMinutes := ← (← j.get? "estimated_arrival_minutes").real?
      timestamp := ← Timestamp.decode? (← j.get? "timestamp") }

end OrderDispatch
