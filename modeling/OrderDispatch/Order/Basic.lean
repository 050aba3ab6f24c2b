import OrderDispatch.Order.Status
import OrderDispatch.Order.Kind
import OrderDispatch.Order.Location

/-!
# Orders

An order, its items and its history. `Order.pushStatus` is the only way an order changes its status:
it moves the order on, appends the matching entry to the history and stamps both with one time.
-/

namespace OrderDispatch

/-- Milliseconds since the epoch. -/
abbrev Timestamp : Type := Int64

/-- A time as a JSON integer. -/
def Timestamp.encode (t : Timestamp) : Json := .int t.toInt

/-- The time of a JSON integer. -/
def Timestamp.decode? (j : Json) : Option Timestamp := j.int?.map Int64.ofInt

/-! ## Items -/

/-- A position of an order. -/
structure OrderItem where
  itemId : String
  name : String
  quantity : Float
  price : Float
  properties : Extras
deriving DecidableEq, Inhabited

instance : Coded OrderItem where
  shape := .record [
    .defaulted "item_id" .text (.text ""),
    .required "name" .text,
    .required "quantity" .real,
    .required "price" .real,
    .defaulted "properties" .table (.record [])]
  encode i := .record <|
    [("item_id", .text i.itemId),
     ("name", .text i.name),
     ("quantity", .real i.quantity),
     ("price", .real i.price)] ++ Extras.fieldOf "properties" i.properties
  decode? j := do
    return {
      itemId := ← (← j.get? "item_id").text?
      name := ← (← j.get? "name").text?
      quantity := ← (← j.get? "quantity").real?
      price := ← (← j.get? "price").real?
      properties := ← Extras.decode? (← j.get? "properties") }

/-! ## History -/

/-- The actor of everything the service does on its own. -/
def systemActor : String := "system"

/-- One change of status: who made it, why, and when. -/
structure HistoryEntry where
  status : OrderStatus
  actor : String
  note : String
  timestamp : Timestamp
deriving DecidableEq, Inhabited

instance : Coded HistoryEntry where
  shape := .record [
    .required "status" (Coded.shape OrderStatus),
    .required "actor" .text,
    .defaulted "note" .text (.text ""),
    .required "timestamp" .signed64]
  encode e := .record [
    ("status", Coded.encode e.status),
    ("actor", .text e.actor),
    ("note", .text e.note),
    ("timestamp", e.timestamp.encode)]
  decode? j := do
    return {
      status := ← Coded.decode? (← j.get? "status")
      actor := ← (← j.get? "actor").text?
      note := ← (← j.get? "note").text?
      timestamp := ← Timestamp.decode? (← j.get? "timestamp") }

/-! ## Orders -/

/-- An order with its whole history. -/
structure Order where
  id : String
  userId : String
  providerId : Option String
  kind : OrderKind
  status : OrderStatus
  pickup : Location
  destination : Location
  items : List OrderItem
  totalPrice : Float
  platformFee : Float
  providerFee : Float
  paymentMethod : PaymentMethod
  ledgerRef : Option String
  notes : Option String
  history : List HistoryEntry
  createdAt : Timestamp
  updatedAt : Timestamp
deriving DecidableEq, Inhabited

/-- The field for an optional text, left out when there is none. -/
def optionalTextField (name : String) : Option String → List (String × Json)
  | none => []
  | some s => [(name, .text s)]

instance : Coded Order where
  shape := .record [
    .required "id" .text,
    .required "user_id" .text,
    .nullable "provider_id" .text,
    .required "order_type" (Coded.shape OrderKind),
    .required "status" (Coded.shape OrderStatus),
    .required "pickup_location" (Coded.shape Location),
    .required "destination_location" (Coded.shape Location),
    .required "items" (Coded.shape (List OrderItem)),
    .required "total_price" .real,
    .required "platform_fee" .real,
    .required "provider_fee" .real,
    .required "payment_method" (Coded.shape PaymentMethod),
    .nullable "ledger_ref" .text,
    .nullable "notes" .text,
    .required "status_history" (Coded.shape (List HistoryEntry)),
    .required "created_at" .signed64,
    .required "updated_at" .signed64]
  encode o := .record <|
    [("id", .text o.id), ("user_id", .text o.userId)] ++
    optionalTextField "provider_id" o.providerId ++
    [("order_type", Coded.encode o.kind),
     ("status", Coded.encode o.status),
     ("pickup_location", Coded.encode o.pickup),
     ("destination_location", Coded.encode o.destination),
     ("items", Coded.encode o.items),
     ("total_price", .real o.totalPrice),
     ("platform_fee", .real o.platformFee),
     ("provider_fee", .real o.providerFee),
     ("payment_method", Coded.encode o.paymentMethod)] ++
    optionalTextField "ledger_ref" o.ledgerRef ++
    optionalTextField "notes" o.notes ++
    [("status_history", Coded.encode o.history),
     ("created_at", o.createdAt.encode),
     ("updated_at", o.updatedAt.encode)]
  decode? j := do
    return {
      id := ← (← j.get? "id").text?
      userId := ← (← j.get? "user_id").text?
      providerId := ← (← j.get? "provider_id").optional? Json.text?
      kind := ← Coded.decode? (← j.get? "order_type")
      status := ← Coded.decode? (← j.get? "status")
      pickup := ← Coded.decode? (← j.get? "pickup_location")
      destination := ← Coded.decode? (← j.get? "destination_location")
      items := ← Coded.decode? (← j.get? "items")
      totalPrice := ← (← j.get? "total_price").real?
      platformFee := ← (← j.get? "platform_fee").real?
      providerFee := ← (← j.get? "provider_fee").real?
      paymentMethod := ← Coded.decode? (← j.get? "payment_method")
      ledgerRef := ← (← j.get? "ledger_ref").optional? Json.text?
      notes := ← (← j.get? "notes").optional? Json.text?
      history := ← Coded.decode? (← j.get? "status_history")
      createdAt := ← Timestamp.decode? (← j.get? "created_at")
      updatedAt := ← Timestamp.decode? (← j.get? "updated_at") }

namespace Order

/-- Moves an order to a status and records the move. -/
def pushStatus (o : Order) (now : Timestamp) (status : OrderStatus) (actor note : String) : Order :=
  { o with
    status := status
    history := o.history ++ [⟨status, actor, note, now⟩]
    updatedAt := now }

/-- Whether an order is assigned to this provider; nobody is called by the empty name. -/
def isAssignedTo (o : Order) (providerId : String) : Bool :=
  providerId != "" && o.providerId == some providerId

/-- Where the provider of an order is heading. -/
def etaTarget (o : Order) : Location :=
  if o.status.targetsDestination then o.destination else o.pickup

/-- The status of the last entry of the history. -/
def lastRecordedStatus? (o : Order) : Option OrderStatus := o.history.getLast?.map (·.status)

end Order

end OrderDispatch
