import OrderDispatch.Desk.Lifecycle
import OrderDispatch.Desk.Positions
import OrderDispatch.Desk.Records
import OrderDispatch.Ledger.Audit

/-!
# Answers as JSON

The JSON forms of what the desk and the ledger answer.
-/

namespace OrderDispatch

/-- The JSON of a page of orders. -/
def Listing.encode (l : Listing) : Json := .record [
  ("orders", Coded.encode l.orders),
  ("total", .int l.total),
  ("page", .int l.page.toNat),
  ("limit", .int l.limit.toNat)]

/-- The JSON of the answer to a position report. -/
def PositionReceipt.encode (r : PositionReceipt) : Json := .record [
  ("order_id", .text r.orderId),
  ("location_id", .text r.reportId),
  ("current_location", Coded.encode r.currentLocation),
  ("estimated_arrival_minutes", .real r.estimatedArrivalMinutes),
  ("message", .text "Location updated successfully"),
  ("success", .bool true)]

/-- The JSON of a list of position reports. -/
def PositionHistory.encode (h : PositionHistory) : Json := .record [
  ("order_id", .text h.orderId),
  ("locations", Coded.encode h.reports)]

/-- The JSON of a verification, which leaves out a missing reference. -/
def LedgerVerification.encode (v : LedgerVerification) : Json := .record <|
  [("order_id", .text v.orderId)] ++
    optionalTextField "transaction_ref" v.transactionRef ++
    [("verified", .bool v.verified)]

namespace Ledger

/-- The JSON of a break. -/
def ChainBreak.encode (b : ChainBreak) : Json := .record [
  ("height", .int b.height.toNat),
  ("kind", .text b.kind.name),
  ("expected", .text b.expected),
  ("actual", .text b.actual)]

/-- The JSON of a walk along the chain. -/
def ChainReport.encode (r : ChainReport) : Json := .record [
  ("total_entries", .int r.totalEntries),
  ("chain_intact", .bool r.isIntact),
  ("breaks", .list (r.breaks.map ChainBreak.encode))]

end Ledger

/-- The JSON of a line in the log. -/
def LogLine.encode (l : LogLine) : Json :=
  .record (("level", .text l.level.name) :: ("message", .text l.message) :: l.fields)

/-- The counts of orders and of position reports in a store. -/
def OrderStore.statistics (s : OrderStore) : Json := .record [
  ("orders", .int s.orders.size),
  ("locations", .int s.reports.size)]

end OrderDispatch
