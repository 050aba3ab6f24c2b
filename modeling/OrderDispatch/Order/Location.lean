import OrderDispatch.Json.Shape

/-!
# Places

A pair of coordinates, and a location with its address. Latitudes run from -90 to 90 degrees and
longitudes from -180 to 180.
-/

namespace OrderDispatch

/-- A point on the globe, in degrees. -/
structure Coordinates where
  latitude : Float
  longitude : Float
deriving DecidableEq, Inhabited

namespace Coordinates

/-- Whether the coordinates name a point. -/
def isValid (c : Coordinates) : Bool :=
  Binary64.isFinite c.latitude && Binary64.isFinite c.longitude &&
    (-90 ≤ c.latitude && c.latitude ≤ 90) && (-180 ≤ c.longitude && c.longitude ≤ 180)

instance : Coded Coordinates where
  shape := .record [.required "latitude" .real, .required "longitude" .real]
  encode c := .record [("latitude", .real c.latitude), ("longitude", .real c.longitude)]
  decode? j := do
    return ⟨← (← j.get? "latitude").real?, ← (← j.get? "longitude").real?⟩

end Coordinates

/-! ## Extras -/

/-- Named texts without a fixed meaning. -/
abbrev Extras : Type := Table String String

namespace Extras

/-- The record of the named texts. -/
def encode (t : Extras) : Json := .record (t.entries.map fun (k, v) => (k, .text v))

/-- The named texts of a record. -/
def decode? (j : Json) : Option Extras := do
  return Table.ofList (← (← j.record?).mapM fun (k, v) => v.text?.map (k, ·))

/-- The field for named texts, left out when there are none. -/
def fieldOf (name : String) (t : Extras) : List (String × Json) :=
  if t.entries.isEmpty then [] else [(name, encode t)]

end Extras

/-! ## Locations -/

/-- A point with its address. -/
structure Location where
  latitude : Float
  longitude : Float
  address : String
  postalCode : String
  city : String
  country : String
  additionalInfo : Extras
deriving DecidableEq, Inhabited

namespace Location

/-- A point without address. -/
def ofPoint (c : Coordinates) : Location := ⟨c.latitude, c.longitude, "", "", "", "", .empty⟩

/-- The point alone. -/
def coordinates (l : Location) : Coordinates := ⟨l.latitude, l.longitude⟩

instance : Coded Location where
  shape := .record [
    .required "latitude" .real,
    .required "longitude" .real,
    .defaulted "address" .text (.text ""),
    .defaulted "postal_code" .text (.text ""),
    .defaulted "city" .text (.text ""),
    .defaulted "country" .text (.text ""),
    .defaulted "additional_info" .table (.record [])]
  encode l := .record <|
    [("latitude", .real l.latitude),
     ("longitude", .real l.longitude),
     ("address", .text l.address),
     ("postal_code", .text l.postalCode),
     ("city", .text l.city),
     ("country", .text l.country)] ++ Extras.fieldOf "additional_info" l.additionalInfo
  decode? j := do
    return {
      latitude := ← (← j.get? "latitude").real?
      longitude := ← (← j.get? "longitude").real?
      address := ← (← j.get? "address").text?
      postalCode := ← (← j.get? "postal_code").text?
      city := ← (← j.get? "city").text?
      country := ← (← j.get? "country").text?
      additionalInfo := ← Extras.decode? (← j.get? "additional_info") }

end Location

end OrderDispatch
