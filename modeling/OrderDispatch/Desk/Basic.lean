import OrderDispatch.Failure
import OrderDispatch.Ledger.Books
import OrderDispatch.Matching

/-!
# The dispatch desk

The desk carries out operations on orders. Its state is the books, the calls it has made to the
directory, and the errands it has yet to run in the background. An operation answers with its result
and the desk afterwards, and everything else it may depend on is in the *moment* it is given.

`checked` guards an operation by a check that may fail, and `revise` is the one way a stored order
changes: read, change, write, and submit a snapshot to the ledger queue.
-/

namespace OrderDispatch

/-- What an operation finds around it. -/
structure Moment where
  /-- The clock as an operation reads it first. -/
  now : Timestamp
  /-- The clock as an operation reads it again. -/
  later : Timestamp
  directory : Directory
  /-- Why the ledger is out of reach, if it is. -/
  ledgerOutage : Option String
  /-- The identifier that is drawn when so many have been drawn before. -/
  newId : Nat → String

/-- Something to be done in the background. -/
inductive Errand where
  /-- To record what waits in the ledger queue. -/
  | catchUp
  /-- To find another provider for an order that one has rejected. -/
  | rematch (order : Order) (rejectedBy : String)
deriving DecidableEq

/-- The state of the dispatch desk. -/
structure Desk extends Books where
  /-- The calls made to the directory, in order. -/
  traffic : List DirectoryCall
  /-- The errands to run, the next one first. -/
  backlog : List Errand
  /-- The count of identifiers drawn. -/
  drawn : Nat
deriving DecidableEq

/-! ## Checks on requests -/

/-- Requires a text that is not blank. -/
def requireText (field value : String) : Except Failure Unit :=
  if Text.isBlank value then .error (.invalidArgument (field ++ " is required")) else .ok ()

/-- The text of a pair of coordinates in messages. -/
def Coordinates.message (c : Coordinates) : String :=
  "(" ++ Binary64.plainText c.latitude ++ ", " ++ Binary64.plainText c.longitude ++ ")"

/-- Requires a location with valid coordinates. -/
def requireLocation (field : String) (location : Option Location) : Except Failure Location :=
  match location with
  | none => .error (.invalidArgument (field ++ " is required"))
  | some l =>
    if l.coordinates.isValid then .ok l
    else .error (.invalidArgument (field ++ " has invalid coordinates " ++ l.coordinates.message))

/-- The actor named, or the system where nobody is. -/
def actorOrSystem (actor : String) : String := if Text.isBlank actor then systemActor else actor

namespace Desk

/-- A desk with empty books and a ledger queue of this capacity. -/
def ofCapacity (capacity : Nat) : Desk := ⟨.ofCapacity capacity, [], [], 0⟩

instance : Inhabited Desk := ⟨ofCapacity 1⟩

/-! ## Steps of operations -/

/-- Goes on with the result of a check, or fails and changes nothing. -/
def checked {α β : Type} (d : Desk) (check : Except Failure α)
    (next : α → Except Failure β × Desk) : Except Failure β × Desk :=
  match check with
  | .error f => (.error f, d)
  | .ok a => next a

/-- Draws an identifier. -/
def draw (d : Desk) (m : Moment) : String × Desk :=
  (m.newId d.drawn, { d with drawn := d.drawn + 1 })

/-- Puts catching up with the ledger queue on the backlog, unless it is there already. -/
def wake (d : Desk) : Desk :=
  if Errand.catchUp ∈ d.backlog then d else { d with backlog := d.backlog ++ [.catchUp] }

/-- Submits a snapshot of an order to the ledger queue. -/
def submit (d : Desk) (o : Order) : Desk :=
  match d.queue.fate with
  | .accepted => { d with queue := d.queue.submit (.ofOrder o) }.wake
  | .full | .closed => d

/-- Changes a stored order, answers it, and submits a snapshot of it. -/
def revise (d : Desk) (orderId : String) (change : Order → Except Failure Order) :
    Except Failure Order × Desk :=
  match d.store.update .storage orderId change with
  | .error f => (.error f, d)
  | .ok (o, store) => (.ok o, { d with store }.submit o)

/-- The order under an identifier. -/
def get (d : Desk) (orderId : String) : Except Failure Order := do
  requireText "order ID" orderId
  match d.store.get orderId with
  | .error e => .error (.storage e)
  | .ok none => .error (.orderNotFound orderId)
  | .ok (some o) => .ok o

end Desk

end OrderDispatch
