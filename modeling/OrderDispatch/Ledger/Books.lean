import OrderDispatch.Ledger.Queue
import OrderDispatch.Store.Orders

/-!
# Keeping the books

The books are the order store, the ledger, and the queue between them. The bookkeeper takes one job
at a time out of the queue, the oldest first, records it, and notes its reference on the order. A
job that cannot be recorded is gone; one whose order is missing stays on the ledger.
-/

namespace OrderDispatch

/-- The order store, the ledger, and what is on its way from one to the other. -/
structure Books where
  store : OrderStore
  ledger : Ledger
  queue : LedgerQueue
deriving DecidableEq, Inhabited

/-- Fails while the ledger is out of reach, for the given reason. -/
def Ledger.reach (outage : Option String) : Except LedgerError Unit :=
  match outage with
  | none => .ok ()
  | some detail => .error (.unavailable detail)

namespace Books

/-- Empty books with a queue of this capacity. -/
def ofCapacity (capacity : Nat) : Books := ⟨.empty, .empty, .ofCapacity capacity⟩

/-- Records a job and notes its reference on the order. -/
def post (b : Books) (now : Timestamp) (outage : Option String) (job : Ledger.Job) : Books :=
  match (do Ledger.reach outage; b.ledger.record job now) with
  | .error _ => b
  | .ok (txRef, ledger) =>
    match b.store.setLedgerRef job.orderId txRef with
    | .error _ => { b with ledger }
    | .ok (_, store) => { b with store, ledger }

/-- Takes the oldest job out of the queue and records it. -/
def postNext (now : Timestamp) (outage : Option String) (b : Books) : Books :=
  match b.queue.waiting with
  | [] => b
  | job :: _ => { b with queue := b.queue.advance }.post now outage job

/-- Records every waiting job, and shuts the queue if that was asked for. -/
def catchUp (now : Timestamp) (outage : Option String) (b : Books) : Books :=
  let b := Nat.repeat (postNext now outage) b.queue.waiting.length b
  if b.queue.closing then { b with queue := b.queue.shut } else b

end Books

/-! ## The bookkeeper -/

/-- What a bookkeeper is doing. -/
inductive BookkeeperPhase where
  | ready
  | running
  | ended
deriving DecidableEq, Repr

/-- A bookkeeper with its books. -/
structure Bookkeeper where
  books : Books
  phase : BookkeeperPhase
  /-- Whether somebody may still submit jobs. -/
  supplied : Bool
deriving DecidableEq

namespace Bookkeeper

/-- A bookkeeper who has not begun. -/
def ofBooks (books : Books) : Bookkeeper := ⟨books, .ready, true⟩

/-- Lets a running bookkeeper catch up. It ends when the queue shuts or nobody submits any more. -/
def settle (now : Timestamp) (outage : Option String) (k : Bookkeeper) : Bookkeeper :=
  match k.phase with
  | .running =>
    let books := k.books.catchUp now outage
    if books.queue.isOpen && k.supplied then { k with books }
    else { k with books := { books with queue := books.queue.shut }, phase := .ended }
  | .ready | .ended => k

/-- Begins, unless that has been done. -/
def start (k : Bookkeeper) : Bookkeeper :=
  if k.phase = .ready then { k with phase := .running } else k

/-- Signals that no more jobs are wanted. -/
def stop (k : Bookkeeper) : Bookkeeper :=
  { k with books := { k.books with queue := k.books.queue.beginClosing } }

/-- Lets nobody submit jobs any more. -/
def cutSupply (k : Bookkeeper) : Bookkeeper := { k with supplied := false }

/-- Dismisses a bookkeeper who has not begun, together with what was waiting. -/
def dismiss (k : Bookkeeper) : Bookkeeper :=
  if k.phase = .ready then
    { k with
      books := { k.books with queue := { k.books.queue.shut with waiting := [] } }
      phase := .ended }
  else k

/-- Submits a snapshot of an order, if that is still possible. -/
def submit (k : Bookkeeper) (o : Order) : Bookkeeper :=
  if k.supplied then
    { k with books := { k.books with queue := k.books.queue.submit (.ofOrder o) } }
  else k

end Bookkeeper

end OrderDispatch
