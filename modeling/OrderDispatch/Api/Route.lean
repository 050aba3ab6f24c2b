import OrderDispatch.Text.Percent

/-!
# Routes

What the paths of the service stand for. Paths are compared segment by segment as they are written,
before anything is decoded. The identifier of an order may be empty inside a path, but not at its
end.
-/

namespace OrderDispatch

/-- Something that can be asked for. -/
inductive Action where
  | health
  | create
  | get
  | updateStatus
  | cancel
  | assign
  | accept
  | reject
  | updateLocation
  | locationHistory
  | track
  | verifyLedger
  | ledgerHistory
  | listByUser
  | listByProvider
deriving DecidableEq, Repr

/-- The method to ask with. -/
def Action.method : Action → String
  | create | cancel | assign | accept | reject | updateLocation => "POST"
  | updateStatus => "PUT"
  | health | get | locationHistory | track | verifyLedger | ledgerHistory | listByUser
  | listByProvider => "GET"

/-- An action and the segment of the path that names what it is about. -/
structure Route where
  action : Action
  subject : String
deriving DecidableEq, Repr

namespace Route

/-- What may be asked about an order, by the segments behind its identifier. -/
def orderAction? : List String → Option Action
  | ["status"] => some .updateStatus
  | ["cancel"] => some .cancel
  | ["assign"] => some .assign
  | ["accept"] => some .accept
  | ["reject"] => some .reject
  | ["location"] => some .updateLocation
  | ["locations"] => some .locationHistory
  | ["track"] => some .track
  | ["ledger", "verify"] => some .verifyLedger
  | ["ledger", "history"] => some .ledgerHistory
  | _ => none

/-- The route of a list of segments. -/
def ofSegments? : List String → Option Route
  | ["health"] => some ⟨.health, ""⟩
  | ["api", "orders"] => some ⟨.create, ""⟩
  | ["api", "orders", id] => if id.isEmpty then none else some ⟨.get, id⟩
  | "api" :: "orders" :: id :: segments => (orderAction? segments).map (⟨·, id⟩)
  | ["api", "users", id, "orders"] => some ⟨.listByUser, id⟩
  | ["api", "providers", id, "orders"] => some ⟨.listByProvider, id⟩
  | _ => none

/-- The route of a path. -/
def ofPath? (path : String) : Option Route :=
  match path.splitOn "/" with
  | "" :: segments => ofSegments? segments
  | _ => none

end Route

end OrderDispatch
