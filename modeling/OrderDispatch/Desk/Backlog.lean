import OrderDispatch.Desk.Assignment

/-!
# The backlog

Errands run one after another in the order they came up. An errand may put another one on the
backlog, but no errand begets more than one catching up with the ledger queue, and that begets
nothing, so that settling ends.
-/

namespace OrderDispatch

/-- A bound on the count of errands that come from one, itself included. -/
def Errand.weight : Errand → Nat
  | catchUp => 1
  | rematch .. => 2

/-- A bound on the count of errands that come from a backlog. -/
def Errand.totalWeight : List Errand → Nat
  | [] => 0
  | e :: es => e.weight + totalWeight es

namespace Desk

/-- Runs an errand. -/
def runErrand (d : Desk) (m : Moment) : Errand → Desk
  | .catchUp => { d with toBooks := d.toBooks.catchUp m.now m.ledgerOutage }
  | .rematch o rejectedBy => d.rematch m o rejectedBy

/-- Runs at most `fuel` errands. -/
def settleWithin (m : Moment) : (fuel : Nat) → Desk → Desk
  | 0, d => d
  | fuel + 1, d =>
    match d.backlog with
    | [] => d
    | errand :: rest => settleWithin m fuel ({ d with backlog := rest }.runErrand m errand)

/-- Runs every errand. -/
def settle (d : Desk) (m : Moment) : Desk :=
  settleWithin m (Errand.totalWeight d.backlog) d

/-- Signals that the ledger queue is to be emptied and shut. -/
def stopRecording (d : Desk) : Desk := { d with queue := d.queue.beginClosing }.wake

end Desk

end OrderDispatch
