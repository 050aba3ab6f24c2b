import OrderDispatch.Directory.Basic
import OrderDispatch.Travel

/-!
# The registry of providers

A directory kept in memory. A provider is known by the last registration under its identifier.
Searches measure along great circles and answer the nearest provider first; of two at the same
distance, the one with the smaller identifier.
-/

namespace OrderDispatch

/-- A registered provider. -/
structure Provider where
  providerId : String
  name : String
  rating : Float
  serviceTypes : List String
  position : Coordinates
  available : Bool
deriving DecidableEq, Inhabited

instance : Coded Provider where
  shape := .record [
    .required "provider_id" .text,
    .defaulted "name" .text (.text ""),
    .required "rating" .real,
    .required "service_types" (.list .text),
    .required "position" (Coded.shape Coordinates),
    .defaulted "available" .flag (.bool true)]
  encode p := .record [
    ("provider_id", .text p.providerId),
    ("name", .text p.name),
    ("rating", .real p.rating),
    ("service_types", .list (p.serviceTypes.map .text)),
    ("position", Coded.encode p.position),
    ("available", .bool p.available)]
  decode? j := do
    return {
      providerId := ← (← j.get? "provider_id").text?
      name := ← (← j.get? "name").text?
      rating := ← (← j.get? "rating").real?
      serviceTypes := ← (← (← j.get? "service_types").list?).mapM Json.text?
      position := ← Coded.decode? (← j.get? "position")
      available := ← (← j.get? "available").bool? }

/-- The registered providers by their identifiers. -/
structure Registry where
  providers : Table String Provider
deriving DecidableEq, Inhabited

namespace Registry

/-- The registry without providers. -/
def empty : Registry := ⟨.empty⟩

/-- Registers a provider, or replaces its registration. -/
def register (r : Registry) (p : Provider) : Registry := ⟨r.providers.insert p.providerId p⟩

/-- The candidate that a provider is for a search, if it is available, offers the service, and lies
within the radius. -/
def candidate? (search : Search) (p : Provider) : Option Candidate :=
  if p.available && p.serviceTypes.contains search.serviceType then
    let distance := Travel.greatCircleKm search.center p.position
    if distance ≤ search.radiusKm then some ⟨p.providerId, p.name, p.rating, distance⟩ else none
  else none

/-- The order of candidates: the nearer one first, then the smaller identifier. -/
def nearer (a b : Candidate) : Ordering :=
  (compare (Binary64.orderKey a.distance) (Binary64.orderKey b.distance)).then
    (compare a.providerId b.providerId)

/-- The available providers of a service around a point. -/
def find (r : Registry) (search : Search) : List Candidate :=
  (r.providers.values.filterMap (candidate? search)).mergeSort fun a b => (nearer a b).isLE

/-- A notification is taken for every registered provider. -/
def notify (r : Registry) (n : Notification) : Except DirectoryError Unit :=
  if r.providers.contains n.providerId then .ok () else .error (.providerNotFound n.providerId)

/-- The registry as a directory. -/
def directory (r : Registry) : Directory := ⟨fun search => .ok (r.find search), r.notify⟩

/-! ## Seeding -/

/-- Registers the providers of a JSON list and counts them; a list with any flaw registers none. -/
def load (r : Registry) (text : String) : Except DirectoryError Nat × Registry :=
  match (Coded.read text : Except Json.Problem (List Provider)) with
  | .ok providers => (.ok providers.length, providers.foldl register r)
  | .error problem => (.error (.seed problem.detail), r)

end Registry

end OrderDispatch
