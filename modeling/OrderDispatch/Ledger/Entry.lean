import OrderDispatch.Ledger.Sha256
import OrderDispatch.Order.Payload

/-!
# Ledger entries

An entry records that a payload about an order existed at a time. Its reference is the hash of the
reference before it together with its own content, so that whoever changes an entry has to change
all references behind it too.
-/

namespace OrderDispatch

/-- An entry of the ledger. -/
structure LedgerEntry where
  txRef : String
  /-- The reference of the entry before, or the genesis reference. -/
  prevRef : String
  /-- The place in the chain, from one on. -/
  height : UInt64
  orderId : String
  userId : String
  providerId : Option String
  schema : String
  schemaVersion : UInt16
  /-- The hash of the payload, in hexadecimal digits. -/
  payloadHash : String
  recordedAt : Timestamp
deriving DecidableEq, Inhabited

namespace LedgerEntry

/-- The reference before the first entry. -/
def genesisRef : String := "genesis"

instance : Coded LedgerEntry where
  shape := .record [
    .required "tx_ref" .text,
    .required "prev_ref" .text,
    .required "height" .word64,
    .required "order_id" .text,
    .required "user_id" .text,
    .nullable "provider_id" .text,
    .required "schema" .text,
    .required "schema_version" .word16,
    .required "payload_hash" .text,
    .required "recorded_at" .signed64]
  encode e := .record <|
    [("tx_ref", .text e.txRef),
     ("prev_ref", .text e.prevRef),
     ("height", .int e.height.toNat),
     ("order_id", .text e.orderId),
     ("user_id", .text e.userId)] ++
    optionalTextField "provider_id" e.providerId ++
    [("schema", .text e.schema),
     ("schema_version", .int e.schemaVersion.toNat),
     ("payload_hash", .text e.payloadHash),
     ("recorded_at", e.recordedAt.encode)]
  decode? j := do
    return {
      txRef := ← (← j.get? "tx_ref").text?
      prevRef := ← (← j.get? "prev_ref").text?
      height := .ofNat (← (← j.get? "height").int?).toNat
      orderId := ← (← j.get? "order_id").text?
      userId := ← (← j.get? "user_id").text?
      providerId := ← (← j.get? "provider_id").optional? Json.text?
      schema := ← (← j.get? "schema").text?
      schemaVersion := .ofNat (← (← j.get? "schema_version").int?).toNat
      payloadHash := ← (← j.get? "payload_hash").text?
      recordedAt := ← Timestamp.decode? (← j.get? "recorded_at") }

/-- The bytes that the reference of an entry is the hash of. Texts end with a zero byte, numbers
have a fixed width, and a byte before the provider tells whether there is one. -/
def preimage (e : LedgerEntry) : List UInt8 :=
  Text.utf8 e.prevRef ++ [0] ++
  Text.littleEndian 8 e.height.toNat ++
  Text.littleEndian 8 e.recordedAt.toUInt64.toNat ++
  Text.utf8 e.orderId ++ [0] ++
  Text.utf8 e.userId ++ [0] ++
  (match e.providerId with
    | some provider => 1 :: Text.utf8 provider
    | none => [0]) ++ [0] ++
  Text.utf8 e.schema ++ [0] ++
  Text.littleEndian 2 e.schemaVersion.toNat ++
  Text.utf8 e.payloadHash

/-- The reference that the content of an entry calls for. -/
def computedRef (e : LedgerEntry) : String := Sha256.hexDigest e.preimage

end LedgerEntry

end OrderDispatch
