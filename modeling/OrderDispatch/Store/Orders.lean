import OrderDispatch.Order.Report
import OrderDispatch.Order.Payload
import OrderDispatch.Store.Fault
import OrderDispatch.Table

/-!
# The order store

Orders are kept as JSON rows by their identifiers, with two indexes beside them: the orders of each
user, and the orders each provider is assigned to now. Position reports are kept as JSON rows by
order and by a sequence number that counts the reports of all orders together.

Every change of an order goes through `update`, which reads the row, changes the order, writes the
row back and lets the provider index follow; a change that is refused leaves the store as it was.
-/

namespace OrderDispatch

/-- The order store. -/
structure OrderStore where
  /-- Orders as JSON texts by identifier. -/
  orders : Table String String
  byUser : Table (PairKey String String) Unit
  byProvider : Table (PairKey String String) Unit
  /-- Position reports as JSON texts by order and sequence number. -/
  reports : Table (PairKey String UInt64) String
  /-- The sequence number of the last report. -/
  sequence : UInt64
deriving DecidableEq

/-- An index of orders. -/
inductive OrderIndex where
  | user
  | provider
deriving DecidableEq, Repr

/-- One page of a listing, with the count of orders on all its pages. -/
structure OrderPage where
  orders : List Order
  total : Nat
deriving DecidableEq

namespace OrderStore

/-- The store without orders and reports. -/
def empty : OrderStore := ⟨.empty, .empty, .empty, .empty, 0⟩

instance : Inhabited OrderStore := ⟨empty⟩

/-- What a row holds. -/
def readRow {α : Type} [Coded α] (row : String) : Except StoreError α :=
  (Coded.read row).mapError (.serialization ·.detail)

/-! ## Orders -/

/-- The order under an identifier. -/
def get (s : OrderStore) (orderId : String) : Except StoreError (Option Order) :=
  match s.orders.find? orderId with
  | none => .ok none
  | some row => (readRow row).map some

/-- An index with one more order for an owner, if there is an owner. -/
def enlist (index : Table (PairKey String String) Unit) (owner : Option String) (orderId : String) :
    Table (PairKey String String) Unit :=
  match owner with
  | none => index
  | some owner => index.insert ⟨owner, orderId⟩ ()

/-- An index without an order of an owner, if there is an owner. -/
def delist (index : Table (PairKey String String) Unit) (owner : Option String) (orderId : String) :
    Table (PairKey String String) Unit :=
  match owner with
  | none => index
  | some owner => index.erase ⟨owner, orderId⟩

/-- Stores a new order and its index entries. -/
def insert (s : OrderStore) (o : Order) : Except StoreError OrderStore :=
  if s.orders.contains o.id then .error (.orderExists o.id)
  else .ok { s with
    orders := s.orders.insert o.id (Coded.render o)
    byUser := enlist s.byUser (some o.userId) o.id
    byProvider := enlist s.byProvider o.providerId o.id }

/-- Writes an order back to its row, with its provider so far. -/
def replace (s : OrderStore) (orderId : String) (oldProvider : Option String) (o : Order) :
    OrderStore :=
  { s with
    orders := s.orders.insert orderId (Coded.render o)
    byProvider :=
      if oldProvider = o.providerId then s.byProvider
      else enlist (delist s.byProvider oldProvider orderId) o.providerId orderId }

/-- Changes a stored order and answers it changed. The caller's own failures are of type `ε`, and
`lift` takes those of the store among them. -/
def update {ε : Type} (s : OrderStore) (lift : StoreError → ε) (orderId : String)
    (change : Order → Except ε Order) : Except ε (Order × OrderStore) :=
  match s.get orderId with
  | .error e => .error (lift e)
  | .ok none => .error (lift (.orderNotFound orderId))
  | .ok (some old) =>
    match change old with
    | .error e => .error e
    | .ok new => .ok (new, s.replace orderId old.providerId new)

/-- Notes on an order the reference of its newest ledger entry. -/
def setLedgerRef (s : OrderStore) (orderId txRef : String) :
    Except StoreError (Order × OrderStore) :=
  s.update id orderId fun o => .ok { o with ledgerRef := some txRef }

/-! ## Listings -/

/-- The table of an index. -/
def index (s : OrderStore) : OrderIndex → Table (PairKey String String) Unit
  | .user => s.byUser
  | .provider => s.byProvider

/-- The orders that an index lists under a key; entries for missing orders are passed over. -/
def indexed (s : OrderStore) (i : OrderIndex) (key : String) : Except StoreError (List Order) :=
  (((s.index i).under key).filterMap fun (orderId, _) => s.orders.find? orderId).mapM readRow

/-- The newer order first; of two as old as each other, the one with the smaller identifier. -/
def newerFirst (a b : Order) : Ordering :=
  (compare b.createdAt a.createdAt).then (compare a.id b.id)

/-- A part of the orders that an index lists under a key, newest first, of one status or of any. -/
def list (s : OrderStore) (i : OrderIndex) (key : String) (status : Option OrderStatus)
    (offset limit : Nat) : Except StoreError OrderPage := do
  let orders := (← s.indexed i key).filter fun o => status.all (· == o.status)
  let sorted := orders.mergeSort fun a b => (newerFirst a b).isLE
  return ⟨(sorted.drop offset).take limit, sorted.length⟩

/-! ## Position reports -/

/-- Appends a position report. -/
def insertReport (s : OrderStore) (r : PositionReport) : OrderStore :=
  { s with
    sequence := s.sequence + 1
    reports := s.reports.insert ⟨r.orderId, s.sequence + 1⟩ (Coded.render r) }

/-- The rows of the reports on an order, the newest first. -/
def reportRows (s : OrderStore) (orderId : String) : List String :=
  ((s.reports.under orderId).map (·.2)).reverse

/-- The newest report on an order. -/
def latestReport (s : OrderStore) (orderId : String) : Except StoreError (Option PositionReport) :=
  match (s.reportRows orderId).head? with
  | none => .ok none
  | some row => (readRow row).map some

/-- The newest reports on an order, newest first. -/
def reportHistory (s : OrderStore) (orderId : String) (limit : Nat) :
    Except StoreError (List PositionReport) :=
  ((s.reportRows orderId).take limit).mapM readRow

/-! ## Changes from outside -/

/-- Sets the row of an order behind the back of the store. -/
def overwriteOrder (s : OrderStore) (orderId row : String) : OrderStore :=
  { s with orders := s.orders.insert orderId row }

/-- Removes the row of an order, but not its index entries. -/
def removeOrder (s : OrderStore) (orderId : String) : OrderStore :=
  { s with orders := s.orders.erase orderId }

/-- Sets the row of a position report behind the back of the store. -/
def overwriteReport (s : OrderStore) (orderId : String) (sequence : UInt64) (row : String) :
    OrderStore :=
  { s with reports := s.reports.insert ⟨orderId, sequence⟩ row }

end OrderStore

end OrderDispatch
