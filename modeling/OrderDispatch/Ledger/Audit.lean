import OrderDispatch.Ledger.Chain

/-!
# The audit of the ledger

An audit verifies the whole chain and logs what it finds: one line about an intact chain, or one
line for every break.
-/

namespace OrderDispatch

/-- The weight of a line in the log. -/
inductive LogLevel where
  | info
  | error
deriving DecidableEq, Repr

/-- The name of a weight. -/
def LogLevel.name : LogLevel → String
  | info => "INFO"
  | error => "ERROR"

/-- A line in the log. -/
structure LogLine where
  level : LogLevel
  message : String
  fields : List (String × Json)

namespace Audit

/-- The line about one break. -/
def breakLine (b : Ledger.ChainBreak) : LogLine :=
  ⟨.error, "Ledger chain break",
    [("height", .int b.height.toNat),
     ("kind", .text b.kind.logName),
     ("expected", .text b.expected),
     ("actual", .text b.actual)]⟩

/-- The lines of one audit. -/
def findings (l : Ledger) : List LogLine :=
  match l.verifyChain with
  | .error _ => [⟨.error, "Ledger audit failed", []⟩]
  | .ok report =>
    if report.isIntact then
      [⟨.info, "Ledger chain intact", [("entries", .int report.totalEntries)]⟩]
    else report.breaks.map breakLine

/-- The seconds between two audits, unless something else is wanted. -/
def defaultIntervalSecs : Nat := 3600

/-- The log of an auditor who audits once and stops. -/
def once (l : Ledger) (intervalSecs : Nat) : List LogLine :=
  ⟨.info, "Ledger auditor started", [("interval_secs", .int intervalSecs)]⟩ :: findings l ++
    [⟨.info, "Ledger auditor stopped", []⟩]

end Audit

end OrderDispatch
