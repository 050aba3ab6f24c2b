import OrderDispatch.Order.Payload

/-!
# The provider directory

What the service asks of a directory of providers: a search for available providers around a point,
and the delivery of a notification to one of them. Any pair of answers makes a directory; its
behaviour is its own.
-/

namespace OrderDispatch

/-- A provider that a search found. -/
structure Candidate where
  providerId : String
  name : String
  /-- From 0 to 5. -/
  rating : Float
  /-- Kilometres from the point of the search. -/
  distance : Float
deriving DecidableEq, Inhabited

instance : Coded Candidate where
  shape := .record [
    .required "provider_id" .text,
    .defaulted "name" .text (.text ""),
    .required "rating" .real,
    .required "distance" .real]
  encode c := .record [
    ("provider_id", .text c.providerId),
    ("name", .text c.name),
    ("rating", .real c.rating),
    ("distance", .real c.distance)]
  decode? j := do
    return {
      providerId := ← (← j.get? "provider_id").text?
      name := ← (← j.get? "name").text?
      rating := ← (← j.get? "rating").real?
      distance := ← (← j.get? "distance").real? }

/-- A search for available providers of a service around a point. -/
structure Search where
  center : Coordinates
  radiusKm : Float
  serviceType : String
deriving DecidableEq, Inhabited

/-- Something a provider is told about an order. -/
structure Notification where
  providerId : String
  orderId : String
  payload : Payload
deriving DecidableEq, Inhabited

/-! ## Failures -/

/-- Why a directory gave no answer. -/
inductive DirectoryError where
  /-- The request could not be sent. -/
  | request (detail : String)
  | status (code : UInt16) (body : String)
  | providerNotFound (providerId : String)
  | payload (error : PayloadError)
  | unavailable (detail : String)
  | seed (detail : String)
deriving DecidableEq

/-- The text of a failure of the directory. -/
def DirectoryError.message : DirectoryError → String
  | request detail => "Directory request failed: " ++ detail
  | status code body => "Directory returned " ++ toString code.toNat ++ ": " ++ body
  | providerNotFound id => "Provider not found: " ++ id
  | payload error => "Invalid payload: " ++ error.message
  | unavailable detail => "Directory unavailable: " ++ detail
  | seed detail => "Invalid provider seed: " ++ detail

/-! ## Directories -/

/-- A directory, as the service sees it. -/
structure Directory where
  find : Search → Except DirectoryError (List Candidate)
  notify : Notification → Except DirectoryError Unit

/-- A call that was made to a directory. -/
inductive DirectoryCall where
  | find (search : Search)
  | notify (notification : Notification) (delivered : Bool)
deriving DecidableEq

/-- The notification that a call delivered. -/
def DirectoryCall.delivered? : DirectoryCall → Option Notification
  | .notify notification true => some notification
  | _ => none

end OrderDispatch
