import OrderDispatch.Json.Shape
import OrderDispatch.Text.Blank

/-!
# Order statuses

The stations of an order, their names, and the reading of a name given by hand. A cancelled,
completed or refunded order has reached its end; between pick-up and arrival an order is on its way
to the destination.
-/

namespace OrderDispatch

/-- A station in the life of an order. -/
inductive OrderStatus where
  | created
  | paymentPending
  | paymentCompleted
  | providerAssigned
  | providerAccepted
  | providerRejected
  | inProgress
  | pickedUp
  | inTransit
  | arrived
  | delivered
  | completed
  | cancelled
  | refunded
  | disputed
deriving DecidableEq, Repr, Inhabited

/-- A text that names no status. -/
structure UnknownStatus where
  text : String
deriving DecidableEq, Repr

namespace OrderStatus

/-- Every status, in the order of the life of an order. -/
def all : List OrderStatus :=
  [created, paymentPending, paymentCompleted, providerAssigned, providerAccepted, providerRejected,
   inProgress, pickedUp, inTransit, arrived, delivered, completed, cancelled, refunded, disputed]

/-- The name of a status. -/
def name : OrderStatus → String
  | created => "CREATED"
  | paymentPending => "PAYMENT_PENDING"
  | paymentCompleted => "PAYMENT_COMPLETED"
  | providerAssigned => "PROVIDER_ASSIGNED"
  | providerAccepted => "PROVIDER_ACCEPTED"
  | providerRejected => "PROVIDER_REJECTED"
  | inProgress => "IN_PROGRESS"
  | pickedUp => "PICKED_UP"
  | inTransit => "IN_TRANSIT"
  | arrived => "ARRIVED"
  | delivered => "DELIVERED"
  | completed => "COMPLETED"
  | cancelled => "CANCELLED"
  | refunded => "REFUNDED"
  | disputed => "DISPUTED"

/-- No further station follows. -/
def isTerminal : OrderStatus → Bool
  | completed | cancelled | refunded => true
  | _ => false

/-- The provider is heading for the destination and no longer for the pick-up. -/
def targetsDestination : OrderStatus → Bool
  | pickedUp | inTransit => true
  | _ => false

/-- The status with exactly this name. -/
def ofName? (s : String) : Option OrderStatus := all.find? (·.name == s)

/-- The status a text names, white space around it and the case of ASCII letters aside. -/
def parse? (s : String) : Option OrderStatus :=
  ofName? (String.ofList ((Text.trimChars s.toList).map Char.toUpper))

/-- The status a text names; the error about a text that names none holds it as it is. -/
def parse (s : String) : Except UnknownStatus OrderStatus :=
  match parse? s with
  | some t => .ok t
  | none => .error ⟨s⟩

/-- The message about a text that names no status. -/
def unknownMessage (s : String) : String := "unknown order status: " ++ s

instance : Coded OrderStatus where
  shape := .choice (all.map name)
  encode s := .text s.name
  decode? j := j.text?.bind ofName?

example : parse? "\u3000in_transit\n" = some inTransit ∧ parse? "IN TRANSIT" = none := by
  decide +kernel

end OrderStatus

end OrderDispatch
