import OrderDispatch.Order.Basic
import OrderDispatch.Text.Bytes

/-!
# Payloads

A payload is a value as JSON bytes under the name and the version of its schema. Two schemas are in
use: the snapshot of an order that the ledger records, and the offer that providers are sent. A
payload is only opened under the schema it was made with.
-/

namespace OrderDispatch

/-- Bytes with the schema they are to be read by. -/
structure Payload where
  schema : String
  schemaVersion : UInt16
  bytes : List UInt8
deriving DecidableEq, Inhabited

/-- Why a payload was not opened. -/
inductive PayloadError where
  | serialization (detail : String)
  | schemaMismatch (expected : String) (expectedVersion : UInt16) (found : String)
      (foundVersion : UInt16)
deriving DecidableEq

/-- The text about a payload that was not opened. -/
def PayloadError.message : PayloadError → String
  | serialization detail => "Serialization error: " ++ detail
  | schemaMismatch expected expectedVersion found foundVersion =>
    "Schema mismatch: expected " ++ expected ++ " v" ++ toString expectedVersion.toNat ++
      ", got " ++ found ++ " v" ++ toString foundVersion.toNat

/-- The description of a JSON problem. -/
def Json.Problem.detail : Json.Problem → String
  | malformed => "malformed JSON"
  | misfit => "JSON of another shape"

/-- A type whose values travel as payloads. -/
class Versioned (α : Type) extends Coded α where
  schema : String
  version : UInt16

namespace Payload

/-- The payload of a value. -/
def pack {α : Type} [Versioned α] (a : α) : Payload :=
  ⟨Versioned.schema α, Versioned.version α, Text.utf8 (Coded.render a)⟩

/-- The value in a payload. -/
def unpack (α : Type) [Versioned α] (p : Payload) : Except PayloadError α :=
  if p.schema ≠ Versioned.schema α ∨ p.schemaVersion ≠ Versioned.version α then
    .error (.schemaMismatch (Versioned.schema α) (Versioned.version α) p.schema p.schemaVersion)
  else
    match Text.ofUtf8? p.bytes with
    | none => .error (.serialization Json.Problem.malformed.detail)
    | some text => (Coded.read text).mapError (.serialization ·.detail)

instance : Coded Payload where
  shape := .record [
    .required "schema" .text,
    .required "schema_version" .word16,
    .required "bytes" (.list (.whole 0 255))]
  encode p := .record [
    ("schema", .text p.schema),
    ("schema_version", .int p.schemaVersion.toNat),
    ("bytes", .list (p.bytes.map fun b => .int b.toNat))]
  decode? j := do
    return {
      schema := ← (← j.get? "schema").text?
      schemaVersion := .ofNat (← (← j.get? "schema_version").int?).toNat
      bytes := ← (← (← j.get? "bytes").list?).mapM fun b => b.int?.map (.ofNat ·.toNat) }

end Payload

/-! ## Snapshots -/

/-- The state of an order as the ledger records it, without its reference to the ledger. -/
structure Snapshot where
  order : Order
deriving DecidableEq

namespace Snapshot

/-- The snapshot of an order. -/
def ofOrder (o : Order) : Snapshot := ⟨{ o with ledgerRef := none }⟩

instance : Versioned Snapshot where
  shape := .record [.required "order" (Coded.shape Order)]
  encode s := .record [("order", Coded.encode s.order)]
  decode? j := do return ⟨← Coded.decode? (← j.get? "order")⟩
  schema := "order_snapshot"
  version := 1

end Snapshot

/-! ## Offers -/

/-- What a provider learns about an order before taking it. -/
structure Offer where
  orderId : String
  kind : OrderKind
  pickup : Location
  destination : Location
  itemsCount : UInt64
  totalPrice : Float
  providerFee : Float
  createdAt : Timestamp
deriving DecidableEq

namespace Offer

/-- The offer of an order. -/
def ofOrder (o : Order) : Offer :=
  ⟨o.id, o.kind, o.pickup, o.destination, .ofNat o.items.length, o.totalPrice, o.providerFee,
    o.createdAt⟩

instance : Versioned Offer where
  shape := .record [
    .required "order_id" .text,
    .required "order_type" (Coded.shape OrderKind),
    .required "pickup" (Coded.shape Location),
    .required "destination" (Coded.shape Location),
    .required "items_count" .word64,
    .required "total_price" .real,
    .required "provider_fee" .real,
    .required "created_at" .signed64]
  encode o := .record [
    ("order_id", .text o.orderId),
    ("order_type", Coded.encode o.kind),
    ("pickup", Coded.encode o.pickup),
    ("destination", Coded.encode o.destination),
    ("items_count", .int o.itemsCount.toNat),
    ("total_price", .real o.totalPrice),
    ("provider_fee", .real o.providerFee),
    ("created_at", o.createdAt.encode)]
  decode? j := do
    return {
      orderId := ← (← j.get? "order_id").text?
      kind := ← Coded.decode? (← j.get? "order_type")
      pickup := ← Coded.decode? (← j.get? "pickup")
      destination := ← Coded.decode? (← j.get? "destination")
      itemsCount := .ofNat (← (← j.get? "items_count").int?).toNat
      totalPrice := ← (← j.get? "total_price").real?
      providerFee := ← (← j.get? "provider_fee").real?
      createdAt := ← Timestamp.decode? (← j.get? "created_at") }
  schema := "provider_offer"
  version := 1

end Offer

end OrderDispatch
