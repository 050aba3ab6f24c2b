import OrderDispatch.Ledger.Queue
import OrderDispatch.Proofs.Store.Rows

/-!
# What an entry states

An entry states whose order it is about, who carries it out, and the hash of its snapshot. These
come from the job alone; the place in the chain and the time do not change them.

The snapshot of an order leaves its reference out, so it is not the text of its row. Even so, the
row tells the snapshot: behind the reference, two orders that differ in nothing but figures have the
same fields, so that whoever agrees on the whole row agrees on what comes before the reference.
-/

namespace OrderDispatch

/-- What an entry states about an order. -/
structure Ledger.Statement where
  orderId : String
  userId : String
  providerId : Option String
  schema : String
  schemaVersion : UInt16
  payloadHash : String
deriving DecidableEq

def LedgerEntry.statement (e : LedgerEntry) : Ledger.Statement :=
  ⟨e.orderId, e.userId, e.providerId, e.schema, e.schemaVersion, e.payloadHash⟩

/-- What the entry for a job has to state. -/
def Ledger.Job.statement (job : Ledger.Job) : Ledger.Statement :=
  ⟨job.orderId, job.userId, job.providerId, job.snapshot.schema, job.snapshot.schemaVersion,
    Sha256.hexDigest job.snapshot.bytes⟩

/-- What an entry about the present state of an order has to state: whose it is, who carries it out,
and the hash of its snapshot, which is the text of the order without its reference. -/
def Order.statement (o : Order) : Ledger.Statement where
  orderId := o.id
  userId := o.userId
  providerId := o.providerId
  schema := "order_snapshot"
  schemaVersion := 1
  payloadHash :=
    Sha256.hexDigest (Text.utf8 (Coded.render (Snapshot.mk { o with ledgerRef := none })))

theorem statement_ofOrder (o : Order) : (Ledger.Job.ofOrder o).statement = o.statement := rfl

theorem statement_entryFor (job : Ledger.Job) (height : UInt64) (prevRef : String)
    (now : Timestamp) : (Ledger.entryFor job height prevRef now).statement = job.statement := rfl

/-! ## Rows and snapshots -/

theorem Json.joined_append (first : Bool) (t : List Char) (ts us : List (List Char)) :
    joined first (t :: ts ++ us) = joined first (t :: ts) ++ joined false us := by
  induction ts generalizing first t with
  | nil => simp [joined]
  | cons t' ts ih =>
    have hrest := ih false t'
    simp only [List.cons_append, joined] at hrest ⊢
    rw [hrest]
    simp only [List.append_assoc]

namespace Order

/-- The fields of a row before the reference. -/
def fieldsBefore (o : Order) : List (String × Json) :=
  ("id", .text o.id) :: ("user_id", .text o.userId) ::
    (optionalTextField "provider_id" o.providerId ++
      [("order_type", Coded.encode o.kind),
       ("status", Coded.encode o.status),
       ("pickup_location", Coded.encode o.pickup),
       ("destination_location", Coded.encode o.destination),
       ("items", Coded.encode o.items),
       ("total_price", .real o.totalPrice),
       ("platform_fee", .real o.platformFee),
       ("provider_fee", .real o.providerFee),
       ("payment_method", Coded.encode o.paymentMethod)])

/-- The fields of a row behind the reference. -/
def fieldsBehind (o : Order) : List (String × Json) :=
  optionalTextField "notes" o.notes ++
    [("status_history", Coded.encode o.history),
     ("created_at", o.createdAt.encode),
     ("updated_at", o.updatedAt.encode)]

theorem encode_parts (o : Order) :
    Coded.encode o = .record (o.fieldsBefore ++
      (optionalTextField "ledger_ref" o.ledgerRef ++ o.fieldsBehind)) := by
  have h : Coded.encode o = .record (_ ++ _ ++ _ ++ _ ++ _ ++ _) := rfl
  rw [h]
  simp only [fieldsBefore, fieldsBehind, List.append_assoc, List.cons_append, List.nil_append]

open Json in
theorem chars_encode (o : Order) :
    (Coded.encode o).chars =
      '{' :: (joined true (o.fieldsBefore.map fieldText) ++
        joined false ((optionalTextField "ledger_ref" o.ledgerRef ++ o.fieldsBehind).map
          fieldText) ++ ['}']) := by
  rw [encode_parts, chars_record, List.map_append]
  unfold fieldsBefore
  rw [List.map_cons, joined_append]

open Json in
/-- A snapshot is the text of the row without the reference, under a name. -/
theorem chars_snapshot (o : Order) :
    (Coded.encode (Snapshot.ofOrder o)).chars =
      '{' :: (quoted "order" ++ ':' :: '{' :: (joined true (o.fieldsBefore.map fieldText) ++
        joined false (o.fieldsBehind.map fieldText) ++ ['}']) ++ ['}']) := by
  have horder : (Coded.encode { o with ledgerRef := none }).chars =
      '{' :: (joined true (o.fieldsBefore.map fieldText) ++
        joined false (o.fieldsBehind.map fieldText) ++ ['}']) :=
    chars_encode { o with ledgerRef := none }
  show Json.chars (.record [("order", Coded.encode { o with ledgerRef := none })]) = _
  rw [chars_record, ← horder]
  simp [joined, separator, fieldText]

/-- Orders with one text that differ in nothing but figures have one snapshot. -/
theorem ofOrder_of_render (o p : Order) (hrow : Coded.render o = Coded.render p)
    (hfigures : p = o.withFigures p) : Ledger.Job.ofOrder o = Ledger.Job.ofOrder p := by
  have howner : p.id = o.id ∧ p.userId = o.userId ∧ p.providerId = o.providerId := by
    rw [hfigures]
    exact ⟨rfl, rfl, rfl⟩
  have hreference : p.ledgerRef = o.ledgerRef := by rw [hfigures]; rfl
  have hbehind : p.fieldsBehind = o.fieldsBehind := by rw [hfigures]; rfl
  have hbefore : Json.joined true (o.fieldsBefore.map Json.fieldText) =
      Json.joined true (p.fieldsBefore.map Json.fieldText) := by
    have hchars : (Coded.encode o).chars = (Coded.encode p).chars :=
      String.ofList_injective hrow
    rw [chars_encode, chars_encode, hreference, hbehind] at hchars
    exact List.append_cancel_right (List.append_cancel_right (List.cons.inj hchars).2)
  have hrender : Coded.render (Snapshot.ofOrder o) = Coded.render (Snapshot.ofOrder p) := by
    unfold Coded.render Json.render
    rw [chars_snapshot, chars_snapshot, hbefore, hbehind]
  unfold Ledger.Job.ofOrder Payload.pack
  rw [hrender, howner.1, howner.2.1, howner.2.2]

end Order

end OrderDispatch
