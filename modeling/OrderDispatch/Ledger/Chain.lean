import OrderDispatch.Ledger.Entry
import OrderDispatch.Store.Fault
import OrderDispatch.Table

/-!
# The hash chain

The ledger keeps its entries as JSON rows by their heights, and two look-up tables: heights by
reference, and heights by order. An entry is appended behind the row with the greatest height.

`verifyChain` walks all rows in ascending order and reports every entry whose link to the entry
before, or whose own reference, does not hold.
-/

namespace OrderDispatch

/-- Why the ledger did not answer. -/
inductive LedgerError where
  | database (fault : DatabaseFault)
  | serialization (detail : String)
  | unavailable (detail : String)
deriving DecidableEq

/-- The text of a failure of the ledger. -/
def LedgerError.message : LedgerError → String
  | database fault => fault.message
  | serialization detail => "Serialization error: " ++ detail
  | unavailable detail => "Ledger unavailable: " ++ detail

/-- The rows of the ledger. -/
structure Ledger where
  /-- Entries as JSON texts by height. -/
  entries : Table UInt64 String
  /-- Heights by reference. -/
  refs : Table String UInt64
  /-- The heights of the entries of each order. -/
  byOrder : Table (PairKey String UInt64) Unit
deriving DecidableEq

namespace Ledger

/-- The ledger without entries. -/
def empty : Ledger := ⟨.empty, .empty, .empty⟩

instance : Inhabited Ledger := ⟨empty⟩

/-- The entry in a row. -/
def readRow (text : String) : Except LedgerError LedgerEntry :=
  (Coded.read text).mapError (.serialization ·.detail)

/-! ## Recording -/

/-- The greatest height and the reference of its entry. -/
def head (l : Ledger) : Except LedgerError (UInt64 × String) :=
  match l.entries.last? with
  | some (height, row) => (readRow row).map fun e => (height, e.txRef)
  | none => .ok (0, LedgerEntry.genesisRef)

/-- What is to be recorded about an order. -/
structure Job where
  orderId : String
  userId : String
  providerId : Option String
  snapshot : Payload
deriving DecidableEq, Inhabited

/-- The entry for a job behind a given head. -/
def entryFor (job : Job) (height : UInt64) (prevRef : String) (now : Timestamp) : LedgerEntry :=
  let entry : LedgerEntry := {
    txRef := ""
    prevRef
    height := height + 1
    orderId := job.orderId
    userId := job.userId
    providerId := job.providerId
    schema := job.snapshot.schema
    schemaVersion := job.snapshot.schemaVersion
    payloadHash := Sha256.hexDigest job.snapshot.bytes
    recordedAt := now }
  { entry with txRef := entry.computedRef }

/-- The ledger with one more entry in all three tables. -/
def put (l : Ledger) (e : LedgerEntry) : Ledger where
  entries := l.entries.insert e.height (Coded.render e)
  refs := l.refs.insert e.txRef e.height
  byOrder := l.byOrder.insert ⟨e.orderId, e.height⟩ ()

/-- Records a job and answers the reference of its entry. -/
def record (l : Ledger) (job : Job) (now : Timestamp) : Except LedgerError (String × Ledger) := do
  let (height, prevRef) ← l.head
  let entry := entryFor job height prevRef now
  return (entry.txRef, l.put entry)

/-! ## Look-up -/

/-- The entry under a reference. -/
def getByRef (l : Ledger) (txRef : String) : Except LedgerError (Option LedgerEntry) :=
  match (l.refs.find? txRef).bind l.entries.find? with
  | some row => (readRow row).map some
  | none => .ok none

/-- The entries of an order in the order of the chain. -/
def history (l : Ledger) (orderId : String) : Except LedgerError (List LedgerEntry) :=
  ((l.byOrder.under orderId).filterMap fun (height, _) => l.entries.find? height).mapM readRow

/-- Whether a reference names an intact entry of this order. -/
def verify (l : Ledger) (orderId txRef : String) : Except LedgerError Bool := do
  match ← l.getByRef txRef with
  | some e => return e.orderId == orderId && e.computedRef == txRef
  | none => return false

/-! ## Verification of the chain -/

/-- What does not hold at an entry. -/
inductive BreakKind where
  /-- The link does not lead to the entry before. -/
  | prevRefMismatch
  /-- The reference is not the hash of the content. -/
  | txRefMismatch
deriving DecidableEq, Repr

namespace BreakKind

/-- The name of a kind of break in reports. -/
def name : BreakKind → String
  | prevRefMismatch => "PREV_REF_MISMATCH"
  | txRefMismatch => "TX_REF_MISMATCH"

/-- The name of a kind of break in the log. -/
def logName : BreakKind → String
  | prevRefMismatch => "PrevRefMismatch"
  | txRefMismatch => "TxRefMismatch"

end BreakKind

/-- A place where the chain does not hold. -/
structure ChainBreak where
  height : UInt64
  kind : BreakKind
  expected : String
  actual : String
deriving DecidableEq

/-- The result of a walk along the chain. -/
structure ChainReport where
  totalEntries : Nat
  breaks : List ChainBreak
deriving DecidableEq

/-- Whether a walk met no break. -/
def ChainReport.isIntact (r : ChainReport) : Bool := r.breaks.isEmpty

/-- The breaks at one entry, given the reference of the entry before. -/
def breaksAt (expectedPrev : String) (e : LedgerEntry) : List ChainBreak :=
  (if e.prevRef = expectedPrev then []
    else [⟨e.height, .prevRefMismatch, expectedPrev, e.prevRef⟩]) ++
  (if e.computedRef = e.txRef then [] else [⟨e.height, .txRefMismatch, e.computedRef, e.txRef⟩])

/-- The breaks along a run of entries. -/
def breaksFrom : (expectedPrev : String) → List LedgerEntry → List ChainBreak
  | _, [] => []
  | expectedPrev, e :: es => breaksAt expectedPrev e ++ breaksFrom e.txRef es

/-- Walks the whole chain. -/
def verifyChain (l : Ledger) : Except LedgerError ChainReport := do
  let entries ← l.entries.values.mapM readRow
  return ⟨entries.length, breaksFrom LedgerEntry.genesisRef entries⟩

/-! ## Changes from outside -/

/-- Sets or removes the row at a height, behind the back of the ledger. -/
def setRow (l : Ledger) (height : UInt64) (row : Option String) : Ledger :=
  { l with
    entries := match row with
      | some text => l.entries.insert height text
      | none => l.entries.erase height }

/-- Sets fields of the JSON record in the row at a height; a row that is no record stays. -/
def amendRow (l : Ledger) (height : UInt64) (fields : List (String × Json)) : Ledger :=
  match (l.entries.find? height).map Json.parse with
  | some (.ok (.record old)) =>
    l.setRow height (some (Json.record (Table.ofList (old ++ fields)).entries).render)
  | _ => l

end Ledger

end OrderDispatch
