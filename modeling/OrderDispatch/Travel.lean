import OrderDispatch.Order.Location

/-!
# Travel

A coarse estimate of the time between two points, which takes a degree for 111 kilometres in every
direction and a provider for 30 km/h fast, and the distance along a great circle.
-/

namespace OrderDispatch.Travel

/-- Kilometres in a degree. -/
def kmPerDegree : Float := 111

/-- The speed of a provider. -/
def kmPerHour : Float := 30

/-- Estimated minutes from one point to another. -/
def minutes (origin target : Coordinates) : Float :=
  let degrees := Binary64.hypotenuse (target.latitude - origin.latitude)
    (target.longitude - origin.longitude)
  degrees * kmPerDegree / kmPerHour * 60

/-- The radius of the globe in kilometres. -/
def earthRadiusKm : Float := 6371

/-- An angle of degrees in radians. -/
def radians (degrees : Float) : Float := degrees * 0.017453292519943295

/-- The distance between two points along the great circle through them. -/
def greatCircleKm (a b : Coordinates) : Float :=
  let lat1 := radians a.latitude
  let lat2 := radians b.latitude
  let sinLat := Float.sin ((lat2 - lat1) / 2)
  let sinLon := Float.sin (radians (b.longitude - a.longitude) / 2)
  let h := sinLat * sinLat + Float.cos lat1 * Float.cos lat2 * (sinLon * sinLon)
  2 * earthRadiusKm * Float.asin (Binary64.minimum h.sqrt 1)

end OrderDispatch.Travel
