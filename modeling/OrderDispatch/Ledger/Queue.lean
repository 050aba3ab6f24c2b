import OrderDispatch.Ledger.Chain

/-!
# The ledger queue

Snapshots on their way to the ledger wait in a queue of bounded length. Nobody waits for a place in
it: what is submitted to a full or closed queue is dropped. A queue that is closing still holds what
was accepted, and shuts once that has been taken out.
-/

namespace OrderDispatch

/-- The job of recording the present state of an order. -/
def Ledger.Job.ofOrder (o : Order) : Ledger.Job :=
  ⟨o.id, o.userId, o.providerId, Payload.pack (Snapshot.ofOrder o)⟩

/-- What became of a submitted job. -/
inductive Submission where
  | accepted
  | full
  | closed
deriving DecidableEq, Repr

/-- A queue of jobs for the ledger. -/
structure LedgerQueue where
  capacity : Nat
  /-- The accepted jobs, the oldest first. -/
  waiting : List Ledger.Job
  isOpen : Bool
  /-- Whether the queue is to shut when it is next emptied. -/
  closing : Bool
deriving DecidableEq

namespace LedgerQueue

/-- An open queue, with room for at least one job. -/
def ofCapacity (capacity : Nat) : LedgerQueue := ⟨max capacity 1, [], true, false⟩

instance : Inhabited LedgerQueue := ⟨ofCapacity 1⟩

/-- What becomes of a job that is submitted now. -/
def fate (q : LedgerQueue) : Submission :=
  if !q.isOpen then .closed else if q.waiting.length < q.capacity then .accepted else .full

/-- The queue behind the submission of a job. -/
def submit (q : LedgerQueue) (job : Ledger.Job) : LedgerQueue :=
  match q.fate with
  | .accepted => { q with waiting := q.waiting ++ [job] }
  | .full | .closed => q

/-- The queue without its oldest job. -/
def advance (q : LedgerQueue) : LedgerQueue := { q with waiting := q.waiting.tail }

/-- Asks the queue to shut when it is next emptied. -/
def beginClosing (q : LedgerQueue) : LedgerQueue := { q with closing := true }

/-- The queue as it accepts nothing more. -/
def shut (q : LedgerQueue) : LedgerQueue := { q with isOpen := false }

end LedgerQueue

end OrderDispatch
