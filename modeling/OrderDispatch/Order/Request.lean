import OrderDispatch.Order.Basic

/-!
# Requests

What callers ask for. Listings are paged: pages count from one, a missing or zero limit stands for a
default, and no limit exceeds one hundred.
-/

namespace OrderDispatch

/-- A field with an optional location. -/
def optionalLocation (l : Option Location) : Json := Json.ofOption Coded.encode l

/-- A new order. -/
structure CreateRequest where
  userId : String
  kind : OrderKind
  pickup : Option Location
  destination : Option Location
  items : List OrderItem
  paymentMethod : PaymentMethod
  notes : Option String
deriving DecidableEq, Inhabited

instance : Coded CreateRequest where
  shape := .record [
    .required "user_id" .text,
    .defaulted "order_type" (Coded.shape OrderKind) (Coded.encode OrderKind.ride),
    .nullable "pickup_location" (Coded.shape Location),
    .nullable "destination_location" (Coded.shape Location),
    .defaulted "items" (Coded.shape (List OrderItem)) (.list []),
    .defaulted "payment_method" (Coded.shape PaymentMethod)
      (Coded.encode PaymentMethod.creditCard),
    .omissible "notes" .text]
  encode r := .record [
    ("user_id", .text r.userId),
    ("order_type", Coded.encode r.kind),
    ("pickup_location", optionalLocation r.pickup),
    ("destination_location", optionalLocation r.destination),
    ("items", Coded.encode r.items),
    ("payment_method", Coded.encode r.paymentMethod),
    ("notes", Json.ofOption .text r.notes)]
  decode? j := do
    return {
      userId := ← (← j.get? "user_id").text?
      kind := ← Coded.decode? (← j.get? "order_type")
      pickup := ← (← j.get? "pickup_location").optional? Coded.decode?
      destination := ← (← j.get? "destination_location").optional? Coded.decode?
      items := ← Coded.decode? (← j.get? "items")
      paymentMethod := ← Coded.decode? (← j.get? "payment_method")
      notes := ← (← j.get? "notes").optional? Json.text? }

/-- A status set by hand. -/
structure StatusRequest where
  status : OrderStatus
  updatedBy : String
  note : String
deriving DecidableEq, Inhabited

instance : Coded StatusRequest where
  shape := .record [
    .required "status" (Coded.shape OrderStatus),
    .required "updated_by" .text,
    .defaulted "note" .text (.text "")]
  encode r := .record [
    ("status", Coded.encode r.status),
    ("updated_by", .text r.updatedBy),
    ("note", .text r.note)]
  decode? j := do
    return {
      status := ← Coded.decode? (← j.get? "status")
      updatedBy := ← (← j.get? "updated_by").text?
      note := ← (← j.get? "note").text? }

/-- The cancelling of an order. -/
structure CancelRequest where
  cancelledBy : String
  reason : String
deriving DecidableEq, Inhabited

instance : Coded CancelRequest where
  shape := .record [.required "cancelled_by" .text, .defaulted "reason" .text (.text "")]
  encode r := .record [("cancelled_by", .text r.cancelledBy), ("reason", .text r.reason)]
  decode? j := do
    return ⟨← (← j.get? "cancelled_by").text?, ← (← j.get? "reason").text?⟩

/-- The assignment of a provider: the one named, or else the best match. -/
structure AssignRequest where
  providerId : Option String
deriving DecidableEq, Inhabited

instance : Coded AssignRequest where
  shape := .record [.omissible "provider_id" .text]
  encode r := .record [("provider_id", Json.ofOption .text r.providerId)]
  decode? j := do
    return ⟨← (← j.get? "provider_id").optional? Json.text?⟩

/-- A provider takes an order, and may say where it is. -/
structure AcceptRequest where
  providerId : String
  currentLocation : Option Location
deriving DecidableEq, Inhabited

instance : Coded AcceptRequest where
  shape := .record [
    .required "provider_id" .text,
    .omissible "current_location" (Coded.shape Location)]
  encode r := .record [
    ("provider_id", .text r.providerId),
    ("current_location", optionalLocation r.currentLocation)]
  decode? j := do
    return {
      providerId := ← (← j.get? "provider_id").text?
      currentLocation := ← (← j.get? "current_location").optional? Coded.decode? }

/-- A provider turns an order down. -/
structure RejectRequest where
  providerId : String
  reason : String
deriving DecidableEq, Inhabited

instance : Coded RejectRequest where
  shape := .record [.required "provider_id" .text, .defaulted "reason" .text (.text "")]
  encode r := .record [("provider_id", .text r.providerId), ("reason", .text r.reason)]
  decode? j := do
    return ⟨← (← j.get? "provider_id").text?, ← (← j.get? "reason").text?⟩

/-- A provider reports where it is. -/
structure LocationRequest where
  providerId : String
  location : Option Location
deriving DecidableEq, Inhabited

instance : Coded LocationRequest where
  shape := .record [
    .required "provider_id" .text,
    .nullable "location" (Coded.shape Location)]
  encode r := .record [
    ("provider_id", .text r.providerId),
    ("location", optionalLocation r.location)]
  decode? j := do
    return {
      providerId := ← (← j.get? "provider_id").text?
      location := ← (← j.get? "location").optional? Coded.decode? }

/-! ## Paging -/

/-- The greatest count of entries in one answer. -/
def maxPageLimit : UInt32 := 100

/-- The limit in effect for a requested one. -/
def effectiveLimit (fallback : UInt32) (limit : Option UInt32) : UInt32 :=
  match limit with
  | none => fallback
  | some n => if n = 0 then fallback else min n maxPageLimit

/-- A number of 32 bits in an optional field. -/
def word32? (j : Json) : Option UInt32 := j.int?.map fun n => .ofNat n.toNat

/-- The JSON of an optional number of 32 bits. -/
def optionalWord32 (n : Option UInt32) : Json := Json.ofOption (fun n => .int n.toNat) n

/-- Which orders to list. -/
structure ListQuery where
  page : Option UInt32
  limit : Option UInt32
  status : Option OrderStatus
deriving DecidableEq, Inhabited

namespace ListQuery

/-- The page in effect, from one on. -/
def effectivePage (q : ListQuery) : UInt32 := max (q.page.getD 1) 1

/-- The count of orders on a page. -/
def pageSize (q : ListQuery) : UInt32 := effectiveLimit 10 q.limit

/-- The count of orders on the pages before. -/
def offset (q : ListQuery) : Nat := (q.effectivePage.toNat - 1) * q.pageSize.toNat

instance : Coded ListQuery where
  shape := .record [
    .omissible "page" .word32,
    .omissible "limit" .word32,
    .omissible "status" (Coded.shape OrderStatus)]
  encode q := .record [
    ("page", optionalWord32 q.page),
    ("limit", optionalWord32 q.limit),
    ("status", Json.ofOption Coded.encode q.status)]
  decode? j := do
    return {
      page := ← (← j.get? "page").optional? word32?
      limit := ← (← j.get? "limit").optional? word32?
      status := ← (← j.get? "status").optional? Coded.decode? }

end ListQuery

/-- How many position reports to list. -/
structure LocationQuery where
  limit : Option UInt32
deriving DecidableEq, Inhabited

namespace LocationQuery

/-- The count of reports in the answer. -/
def pageSize (q : LocationQuery) : UInt32 := effectiveLimit 20 q.limit

instance : Coded LocationQuery where
  shape := .record [.omissible "limit" .word32]
  encode q := .record [("limit", optionalWord32 q.limit)]
  decode? j := do
    return ⟨← (← j.get? "limit").optional? word32?⟩

end LocationQuery

end OrderDispatch
