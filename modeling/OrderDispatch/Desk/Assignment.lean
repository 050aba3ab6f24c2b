import OrderDispatch.Desk.Basic
import OrderDispatch.Order.Request

/-!
# Assigning providers

An order is assigned to the provider named in the request, or else to the best match, after all of
the best matches have been sent an offer. Only the provider an order is assigned to may accept or
reject it. After a rejection the desk looks for another provider in the background; what it finds
counts only if the order is then still waiting for one.
-/

namespace OrderDispatch

/-- An order assigned to a provider. -/
def Order.assign (o : Order) (now : Timestamp) (providerId : String) : Order :=
  { o with providerId := some providerId }.pushStatus now .providerAssigned systemActor
    ("Provider " ++ providerId ++ " assigned")

/-- Requires that an order is assigned to this provider. -/
def Order.requireAssigned (o : Order) (orderId providerId : String) : Except Failure Unit :=
  if o.isAssignedTo providerId then .ok () else .error (.permissionDenied orderId providerId)

namespace Desk

/-! ## Calls to the directory -/

/-- The count of providers that are offered an order. -/
def offeredProviders : Nat := 3

/-- Notes searches in the traffic. -/
def noteSearches (d : Desk) (searches : List Search) : Desk :=
  { d with traffic := d.traffic ++ searches.map .find }

/-- The notification of a provider about an order. -/
def offerTo (o : Order) (s : Scored) : Notification :=
  ⟨s.candidate.providerId, o.id, Payload.pack (Offer.ofOrder o)⟩

/-- The call that notifies a provider; whether it arrives makes no difference to the desk. -/
def notifyCall (m : Moment) (n : Notification) : DirectoryCall :=
  .notify n (m.directory.notify n).isOk

/-- Sends an offer to each of these providers. -/
def sendOffers (d : Desk) (m : Moment) (o : Order) (providers : List Scored) : Desk :=
  { d with traffic := d.traffic ++ providers.map fun s => notifyCall m (offerTo o s) }

/-! ## Assignment -/

/-- Assigns a given provider. -/
def assignProvider (d : Desk) (m : Moment) (orderId providerId : String) :
    Except Failure Order × Desk :=
  d.revise orderId fun o => .ok (o.assign m.now providerId)

/-- Assigns the provider that matches best. -/
def assignBest (d : Desk) (m : Moment) (orderId : String) (o : Order) :
    Except Failure Order × Desk :=
  let (searches, result) := Matching.best m.directory o offeredProviders
  let d := d.noteSearches searches
  match result with
  | .error e => (.error (.directory e), d)
  | .ok [] => (.error (.noProvidersAvailable orderId), d)
  | .ok (best :: others) =>
    (d.sendOffers m o (best :: others)).assignProvider m orderId best.candidate.providerId

/-- Assigns the provider named in the request, or the one that matches best. -/
def assign (d : Desk) (m : Moment) (orderId : String) (r : AssignRequest) :
    Except Failure Order × Desk :=
  d.checked (d.get orderId) fun o =>
    match r.providerId.filter (!Text.isBlank ·) with
    | some providerId => d.assignProvider m orderId providerId
    | none => d.assignBest m orderId o

/-! ## Answers of the provider -/

/-- Records where a provider is, if it tells a valid location. -/
def noteLocation (d : Desk) (m : Moment) (o : Order) (providerId : String)
    (location : Option Location) : Desk :=
  match location.filter (·.coordinates.isValid) with
  | none => d
  | some l =>
    let (id, d) := d.draw m
    { d with
      store := d.store.insertReport ⟨id, o.id, providerId, l.latitude, l.longitude, m.later⟩ }

/-- The assigned provider takes the order. -/
def accept (d : Desk) (m : Moment) (orderId : String) (r : AcceptRequest) :
    Except Failure Order × Desk :=
  d.checked (requireText "order ID" orderId) fun () =>
    d.checked (requireText "provider ID" r.providerId) fun () =>
      match d.revise orderId fun o => do
        o.requireAssigned orderId r.providerId
        return o.pushStatus m.now .providerAccepted r.providerId "Provider accepted the order" with
      | (.error f, d) => (.error f, d)
      | (.ok o, d) => (.ok o, d.noteLocation m o r.providerId r.currentLocation)

/-- An order rejected by its provider. -/
def rejected (now : Timestamp) (orderId : String) (r : RejectRequest) (o : Order) :
    Except Failure Order := do
  o.requireAssigned orderId r.providerId
  let note := if Text.isBlank r.reason then "Provider rejected the order" else r.reason
  return { o.pushStatus now .providerRejected r.providerId note with providerId := none }

/-- The assigned provider turns the order down. -/
def reject (d : Desk) (m : Moment) (orderId : String) (r : RejectRequest) :
    Except Failure Order × Desk :=
  d.checked (requireText "order ID" orderId) fun () =>
    d.checked (requireText "provider ID" r.providerId) fun () =>
      match d.revise orderId (rejected m.now orderId r) with
      | (.error f, d) => (.error f, d)
      | (.ok o, d) => (.ok o, { d with backlog := d.backlog ++ [.rematch o r.providerId] })

/-! ## Another match -/

/-- An order assigned to a provider, if it is still waiting for one after a rejection. -/
def reassigned (now : Timestamp) (providerId : String) (o : Order) : Except Failure Order :=
  if o.status ≠ .providerRejected ∨ o.providerId.isSome then
    .error (.failedPrecondition ("order moved to " ++ o.status.name ++ " before rematch"))
  else .ok (o.assign now providerId)

/-- Looks for another provider for an order as it was when one rejected it. -/
def rematch (d : Desk) (m : Moment) (o : Order) (rejectedBy : String) : Desk :=
  let (searches, result) := Matching.best m.directory o offeredProviders
  let d := d.noteSearches searches
  match result with
  | .error _ => d
  | .ok scored =>
    match scored.filter (·.candidate.providerId != rejectedBy) with
    | [] => d
    | best :: others =>
      ((d.sendOffers m o (best :: others)).revise o.id
        (reassigned m.now best.candidate.providerId)).2

end Desk

end OrderDispatch
