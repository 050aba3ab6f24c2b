import OrderDispatch.Desk.Basic

/-!
# The ledger at the desk

Whether the newest ledger entry of an order is intact, and all entries of an order.
-/

namespace OrderDispatch

/-- Whether the entry an order refers to is intact. -/
structure LedgerVerification where
  orderId : String
  transactionRef : Option String
  verified : Bool
deriving DecidableEq

namespace Desk

/-- Asks the ledger something, if it is in reach. -/
def askLedger {α : Type} (m : Moment) (answer : Except LedgerError α) : Except Failure α :=
  (do Ledger.reach m.ledgerOutage; answer : Except LedgerError α).mapError .ledger

/-- Verifies the entry an order refers to; an order without reference is not verified. -/
def verifyLedger (d : Desk) (m : Moment) (orderId : String) :
    Except Failure LedgerVerification := do
  let o ← d.get orderId
  let verified ← match o.ledgerRef with
    | none => pure false
    | some txRef => askLedger m (d.ledger.verify o.id txRef)
  return ⟨o.id, o.ledgerRef, verified⟩

/-- The ledger entries of an order. -/
def ledgerHistory (d : Desk) (m : Moment) (orderId : String) :
    Except Failure (List LedgerEntry) := do
  let o ← d.get orderId
  askLedger m (d.ledger.history o.id)

end Desk

end OrderDispatch
