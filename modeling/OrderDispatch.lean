import OrderDispatch.Api.Server
import OrderDispatch.Json.Fit
import OrderDispatch.Proofs.Api.Failures
import OrderDispatch.Proofs.Desk.Acting
import OrderDispatch.Proofs.Desk.Alike
import OrderDispatch.Proofs.Desk.Answers
import OrderDispatch.Proofs.Desk.BestMatch
import OrderDispatch.Proofs.Desk.Delivery
import OrderDispatch.Proofs.Desk.Ended
import OrderDispatch.Proofs.Desk.Footprint
import OrderDispatch.Proofs.Desk.Handback
import OrderDispatch.Proofs.Desk.Holding
import OrderDispatch.Proofs.Desk.Offers
import OrderDispatch.Proofs.Desk.Paging
import OrderDispatch.Proofs.Desk.Positions
import OrderDispatch.Proofs.Desk.Readback
import OrderDispatch.Proofs.Desk.References
import OrderDispatch.Proofs.Desk.Rematch
import OrderDispatch.Proofs.Desk.Replay
import OrderDispatch.Proofs.Desk.Rows
import OrderDispatch.Proofs.Desk.Run
import OrderDispatch.Proofs.Desk.Settled
import OrderDispatch.Proofs.Desk.Trail
import OrderDispatch.Proofs.Desk.Turns
import OrderDispatch.Proofs.Desk.Verdicts
import OrderDispatch.Proofs.Desk.WriteBehind
import OrderDispatch.Proofs.Directory.Registry
import OrderDispatch.Proofs.Directory.Search
import OrderDispatch.Proofs.Directory.Seeding
import OrderDispatch.Proofs.Json.Echo
import OrderDispatch.Proofs.Json.Numeral
import OrderDispatch.Proofs.Json.Skipping
import OrderDispatch.Proofs.Json.Text
import OrderDispatch.Proofs.Json.Unambiguous
import OrderDispatch.Proofs.Ledger.Calls
import OrderDispatch.Proofs.Ledger.Chain
import OrderDispatch.Proofs.Ledger.Content
import OrderDispatch.Proofs.Ledger.Edits
import OrderDispatch.Proofs.Ledger.Handover
import OrderDispatch.Proofs.Ledger.Links
import OrderDispatch.Proofs.Ledger.Reports
import OrderDispatch.Proofs.Matching
import OrderDispatch.Proofs.Number.Accuracy
import OrderDispatch.Proofs.Number.Bits
import OrderDispatch.Proofs.Number.Cents
import OrderDispatch.Proofs.Number.Closeness
import OrderDispatch.Proofs.Number.Comparison
import OrderDispatch.Proofs.Number.Conversion
import OrderDispatch.Proofs.Number.Decimal
import OrderDispatch.Proofs.Number.Digits
import OrderDispatch.Proofs.Number.Distance
import OrderDispatch.Proofs.Number.Legible
import OrderDispatch.Proofs.Number.Nearest
import OrderDispatch.Proofs.Number.Operations
import OrderDispatch.Proofs.Number.Places
import OrderDispatch.Proofs.Number.Value
import OrderDispatch.Proofs.Order.Accuracy
import OrderDispatch.Proofs.Order.Amounts
import OrderDispatch.Proofs.Order.Cents
import OrderDispatch.Proofs.Order.Doubles
import OrderDispatch.Proofs.Order.Encoding
import OrderDispatch.Proofs.Order.Exact
import OrderDispatch.Proofs.Order.Figures
import OrderDispatch.Proofs.Order.Payloads
import OrderDispatch.Proofs.Order.Rows
import OrderDispatch.Proofs.Order.Snapshots
import OrderDispatch.Proofs.Order.Status
import OrderDispatch.Proofs.Ranking
import OrderDispatch.Proofs.Store.Indexes
import OrderDispatch.Proofs.Store.Listing
import OrderDispatch.Proofs.Store.Reports
import OrderDispatch.Proofs.Store.Rows
import OrderDispatch.Proofs.Store.Texts
import OrderDispatch.Proofs.Table
import OrderDispatch.Proofs.Text.Bytes
import OrderDispatch.Proofs.Text.Spelling
import OrderDispatch.Proofs.Tracking
