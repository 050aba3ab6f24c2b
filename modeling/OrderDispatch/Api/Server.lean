import OrderDispatch.Api.Answer
import OrderDispatch.Api.Media
import OrderDispatch.Api.Problem
import OrderDispatch.Api.Query
import OrderDispatch.Api.Route
import OrderDispatch.Desk.Backlog
import OrderDispatch.Directory.Registry
import OrderDispatch.Directory.Unreachable
import OrderDispatch.Settings
import OrderDispatch.Startup
import OrderDispatch.Tasks
import OrderDispatch.Tracking

/-!
# The service

The service puts HTTP requests to the desk. A request is looked at from the outside in: its path,
its method, the identifier in the path, the query or the body, and only then what it asks for.
-/

namespace OrderDispatch

/-! ## Requests and replies -/

/-- A request. -/
structure HttpRequest where
  method : String
  path : String
  query : String
  contentType : Option String
  body : String
deriving DecidableEq

/-- The text of a target from its path on. A target that does not begin with the path has a scheme
and a host before it. -/
def HttpRequest.fromPath (target : List Char) : List Char :=
  match target with
  | '/' :: _ => target
  | _ =>
    match target.dropWhile (· != ':') with
    | ':' :: '/' :: '/' :: rest => rest.dropWhile fun c => c != '/' && c != '?' && c != '#'
    | _ => []

/-- The path and the query of a target; a fragment is left out. -/
def HttpRequest.splitTarget (target : String) : String × String :=
  let cs := (fromPath target.toList).takeWhile (· != '#')
  let path := cs.takeWhile (· != '?')
  (String.ofList path, String.ofList (cs.drop (path.length + 1)))

/-- What is sent back. -/
inductive Reply where
  | plain (status : Nat) (body : Option Json)
  /-- A stream of location updates, by the number of its subscription. -/
  | stream (number : Nat)

namespace Reply

/-- A reply without a body. -/
def empty (status : Nat) : Reply := plain status none

/-- A successful reply. -/
def success (body : Json) : Reply := plain 200 (some body)

/-- The reply to a request that failed. -/
def ofFailure (f : Failure) : Reply :=
  let problem := ApiProblem.ofFailure f
  plain problem.httpStatus (some problem.body)

end Reply

/-- Reads the body of a request, or tells the status to refuse it with. -/
def HttpRequest.read {α : Type} [Coded α] (r : HttpRequest) : Except Nat α :=
  if (r.contentType.map Media.isJson).getD false then
    match Coded.read r.body with
    | .ok a => .ok a
    | .error .malformed => .error 400
    | .error .misfit => .error 422
  else .error 415

/-! ## The service -/

/-- The state of the service. -/
structure Server where
  desk : Desk
  subscriptions : Subscriptions
  /-- The tasks beside the service, until it is shut down. -/
  tasks : Option TaskGroup
deriving DecidableEq

namespace Server

/-- The version of the service. -/
def version : String := "0.1.0"

/-- The tasks beside the service. -/
def backgroundTasks (s : Settings) : TaskGroup :=
  let group := TaskGroup.empty.start "ledger_worker" .worker .untilShutdown 0
  match s.auditIntervalSecs? with
  | none => group
  | some _ => group.start "ledger_auditor" .periodic .untilShutdown 0

/-- A service with empty books. -/
def ofSettings (s : Settings) : Server :=
  ⟨.ofCapacity s.ledgerQueueCapacity.toNat, .empty, some (backgroundTasks s)⟩

/-- The directory of a service: the remote one if there is an address, or else the registry with the
seed it is given. -/
def directory (s : Settings) (seed : Option String) : Except StartupError Directory :=
  match s.directoryUrl, seed with
  | some address, _ => .ok (.unreachable address)
  | none, none => .ok Registry.empty.directory
  | none, some text =>
    match Registry.empty.load text with
    | (.ok _, registry) => .ok registry.directory
    | (.error e, _) => .error (.directory e)

/-! ## Operations -/

/-- The reply to a question that changes nothing. -/
def answer {α : Type} (s : Server) (result : Except Failure α) (encode : α → Json) :
    Reply × Server :=
  match result with
  | .ok a => (.success (encode a), s)
  | .error f => (.ofFailure f, s)

/-- The body about an order after an operation. -/
def orderBody (message : String) (o : Order) : Json := .record [
  ("order", Coded.encode o),
  ("message", .text message),
  ("success", .bool true)]

/-- The reply to an operation of the desk. -/
def operate {α : Type} (s : Server) (result : Except Failure α × Desk) (encode : α → Json) :
    Reply × Server :=
  { s with desk := result.2 }.answer result.1 encode

/-- The reply to an operation of the desk that needs the body of the request. -/
def operateOn {ρ α : Type} [Coded ρ] (s : Server) (r : HttpRequest) (encode : α → Json)
    (operation : ρ → Except Failure α × Desk) : Reply × Server :=
  match (r.read : Except Nat ρ) with
  | .error status => (.empty status, s)
  | .ok request => s.operate (operation request) encode

/-- The reply to a question that depends on the query. -/
def answerQuery {ρ α : Type} (s : Server) (query : Option ρ) (encode : α → Json)
    (question : ρ → Except Failure α) : Reply × Server :=
  match query with
  | none => (.empty 400, s)
  | some q => s.answer (question q) encode

/-- Opens an order. The only operation that may end without a reply. -/
def create (s : Server) (m : Moment) (r : HttpRequest) : Except Overflow (Reply × Server) :=
  match (r.read : Except Nat CreateRequest) with
  | .error status => .ok (.empty status, s)
  | .ok request =>
    match s.desk.create m request with
    | (.ok o, desk) =>
      .ok (.success (orderBody "Order created successfully" o), { s with desk })
    | (.error (.refused f), desk) => .ok (.ofFailure f, { s with desk })
    | (.error (.overflow o), _) => .error o

/-- Assigns a provider. A request without a content type has no body, whatever comes with it. -/
def assign (s : Server) (m : Moment) (r : HttpRequest) (id : String) : Reply × Server :=
  let encode := orderBody "Provider assigned successfully"
  match r.contentType with
  | none => s.operate (s.desk.assign m id ⟨none⟩) encode
  | some _ => s.operateOn r encode (s.desk.assign m id)

/-- Opens a stream of location updates. -/
def track (s : Server) (id : String) : Reply × Server :=
  match s.desk.get id with
  | .error f => (.ofFailure f, s)
  | .ok o =>
    let (number, subscriptions) := s.subscriptions.subscribe o.id
    (.stream number, { s with subscriptions })

/-- How the service is. -/
def health (s : Server) : Json :=
  let healthy := s.tasks.all (·.isHealthy 0)
  .record [
    ("status", .text (if healthy then "healthy" else "degraded")),
    ("version", .text version)]

/-- The JSON of the ledger entries of an order. -/
def ledgerBody (id : String) (entries : List LedgerEntry) : Json := .record [
  ("order_id", .text id),
  ("entries", Coded.encode entries)]

/-- Carries out an action on a subject. -/
def perform (s : Server) (m : Moment) (r : HttpRequest) (action : Action) (id : String) :
    Except Overflow (Reply × Server) :=
  match action with
  | .create => s.create m r
  | .health => .ok (.success s.health, s)
  | .get => .ok (s.answer (s.desk.get id) (orderBody "Order retrieved successfully"))
  | .updateStatus =>
    .ok (s.operateOn r (orderBody "Order status updated successfully") (s.desk.updateStatus m id))
  | .cancel => .ok (s.operateOn r (orderBody "Order cancelled successfully") (s.desk.cancel m id))
  | .assign => .ok (s.assign m r id)
  | .accept => .ok (s.operateOn r (orderBody "Order accepted successfully") (s.desk.accept m id))
  | .reject => .ok (s.operateOn r (orderBody "Order rejected successfully") (s.desk.reject m id))
  | .updateLocation => .ok (s.operateOn r PositionReceipt.encode (s.desk.updateLocation m id))
  | .locationHistory =>
    .ok (s.answerQuery (Query.locations? r.query) PositionHistory.encode
      (s.desk.locationHistory id))
  | .track => .ok (s.track id)
  | .verifyLedger => .ok (s.answer (s.desk.verifyLedger m id) LedgerVerification.encode)
  | .ledgerHistory => .ok (s.answer (s.desk.ledgerHistory m id) (ledgerBody id))
  | .listByUser =>
    .ok (s.answerQuery (Query.list? r.query) Listing.encode (s.desk.listByUser id))
  | .listByProvider =>
    .ok (s.answerQuery (Query.list? r.query) Listing.encode (s.desk.listByProvider id))

/-! ## Requests -/

/-- Answers a request along its route. -/
def follow (s : Server) (m : Moment) (r : HttpRequest) (route : Route) :
    Except Overflow (Reply × Server) :=
  match Text.percentDecode? route.subject with
  | none => .ok (.empty 400, s)
  | some id => s.perform m r route.action id

/-- Leaves out the body of a reply. A stream is opened all the same, but it is over at once. -/
def withoutBody (s : Server) : Reply → Reply × Server
  | .plain status _ => (.empty status, s)
  | .stream number =>
    (.stream number, { s with subscriptions := s.subscriptions.finish number })

/-- Answers a request. A preliminary request about what is allowed is always welcome, and one for
the head of a reply is answered like one for the reply. -/
def respond (s : Server) (m : Moment) (r : HttpRequest) : Except Overflow (Reply × Server) :=
  if r.method = "OPTIONS" then .ok (.empty 200, s)
  else
    match Route.ofPath? r.path with
    | none => .ok (.empty 404, s)
    | some route =>
      if r.method = route.action.method then s.follow m r route
      else if r.method = "HEAD" ∧ route.action.method = "GET" then do
        let (reply, s) ← s.follow m r route
        return s.withoutBody reply
      else .ok (.empty 405, s)

/-! ## Running -/

/-- Lets the background work of the service run to its end. -/
def settle (s : Server) (m : Moment) : Server := { s with desk := s.desk.settle m }

/-- One tick of every stream. -/
def tick (s : Server) (m : Moment) : List TickReport × Server :=
  let s := s.settle m
  let (reports, subscriptions) := s.subscriptions.tick s.desk.store
  (reports, { s with subscriptions })

/-- Ends every stream. -/
def closeStreams (s : Server) : Server := { s with subscriptions := s.subscriptions.close }

/-- Ends every stream and every task; what waits for the ledger is still recorded. -/
def shutdown (s : Server) (m : Moment) : Server :=
  { s.closeStreams with desk := s.desk.stopRecording.settle m, tasks := none }

end Server

end OrderDispatch
