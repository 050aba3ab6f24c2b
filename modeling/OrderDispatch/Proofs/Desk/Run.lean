import OrderDispatch.Desk.Backlog
import OrderDispatch.Desk.Lifecycle
import OrderDispatch.Desk.Positions
import OrderDispatch.Proofs.Store.Indexes

/-!
# Runs of the desk

A run is any sequence of steps from empty books: requests that succeed or fail, searches for another
provider, and jobs that the bookkeeper records, in any order and each at a moment of its own. What a
step may do to the books is said once, by `Moves`:

    idle       nothing but calls to the directory and identifiers drawn
    reported   one position report more
    opened     one order more, and its snapshot in the queue
    advanced   one stored order moved on by one entry, and its snapshot in the queue
    posted     the oldest job taken out of the queue

`moves_after` shows that there is nothing else, and `outcome_carryOut` which of them a request that
succeeds, or one that is refused, comes to. Invariants need only look at these cases.
-/

namespace OrderDispatch

/-! ## Steps -/

/-- A request for an operation that may change something. -/
inductive DeskRequest where
  | create (request : CreateRequest)
  | updateStatus (orderId : String) (request : StatusRequest)
  | cancel (orderId : String) (request : CancelRequest)
  | assign (orderId : String) (request : AssignRequest)
  | accept (orderId : String) (request : AcceptRequest)
  | reject (orderId : String) (request : RejectRequest)
  | updateLocation (orderId : String) (request : LocationRequest)

namespace DeskRequest

/-- The order that a request names; a new one has no identifier yet. -/
def target? : DeskRequest → Option String
  | create _ => none
  | updateStatus i _ | cancel i _ | assign i _ | accept i _ | reject i _ | updateLocation i _ =>
    some i

/-- Whether a request that succeeds adds to the history of its order. -/
def advances : DeskRequest → Bool
  | updateLocation .. => false
  | _ => true

end DeskRequest

/-- Something that happens to the desk. -/
inductive DeskEvent where
  | request (request : DeskRequest)
  /-- Another provider is looked for, for an order as it was when one rejected it. -/
  | rematch (order : Order) (rejectedBy : String)
  /-- The bookkeeper takes the oldest job out of the queue and records it. -/
  | post
  /-- The ledger queue accepts nothing more. -/
  | shut

/-- An event with the moment it falls on. -/
structure DeskStep where
  moment : Moment
  event : DeskEvent

namespace Desk

/-- An answer about an order, by the identifier of the order. -/
def answered (answer : Except Failure Order × Desk) : Except OpenError String × Desk :=
  ((answer.1.map (·.id)).mapError .refused, answer.2)

/-- Carries out a request, and answers which order it was carried out on. -/
def carryOut (d : Desk) (m : Moment) : DeskRequest → Except OpenError String × Desk
  | .create r => ((d.create m r).1.map (·.id), (d.create m r).2)
  | .updateStatus orderId r => answered (d.updateStatus m orderId r)
  | .cancel orderId r => answered (d.cancel m orderId r)
  | .assign orderId r => answered (d.assign m orderId r)
  | .accept orderId r => answered (d.accept m orderId r)
  | .reject orderId r => answered (d.reject m orderId r)
  | .updateLocation orderId r =>
    (((d.updateLocation m orderId r).1.map (·.orderId)).mapError .refused,
      (d.updateLocation m orderId r).2)

/-- The desk after a step. -/
def after (d : Desk) (s : DeskStep) : Desk :=
  match s.event with
  | .request r => (d.carryOut s.moment r).2
  | .rematch o rejectedBy => d.rematch s.moment o rejectedBy
  | .post => { d with toBooks := d.toBooks.postNext s.moment.now s.moment.ledgerOutage }
  | .shut => { d with queue := d.queue.shut }

/-- The desk after a run from empty books. -/
def run (capacity : Nat) (steps : List DeskStep) : Desk := steps.foldl after (ofCapacity capacity)

end Desk

/-! ## What a step may do -/

/-- The new order is what this request opens at this moment. -/
def CreateRequest.Opens (r : CreateRequest) (m : Moment) (o : Order) : Prop :=
  ∃ drawn pickup destination totals, r.check = .ok (pickup, destination) ∧
    Totals.ofItems r.items = .ok totals ∧
    o = r.order (m.newId drawn) m.now m.later pickup destination totals

/-- The new order is the old one with one more entry in its history, and a provider or none. -/
def Order.MovesOn (old new : Order) (now : Timestamp) : Prop :=
  ∃ status actor note provider,
    new = { old.pushStatus now status actor note with providerId := provider }

/-- The notification of a call, and whether it arrived. -/
def DirectoryCall.notice? : DirectoryCall → Option (Notification × Bool)
  | find _ => none
  | notify n delivered => some (n, delivered)

namespace Desk

/-- The notifications sent so far, in order. -/
def notices (d : Desk) : List (Notification × Bool) := d.traffic.filterMap DirectoryCall.notice?

/-- All that has been sent since an earlier desk is about this order. -/
def NotifiesOnly (d d' : Desk) (i : String) : Prop :=
  ∃ sent, d'.notices = d.notices ++ sent ∧ ∀ n ∈ sent, n.1.orderId = i

/-- The row of an order is written with a new one, and maybe a position of its provider with it. -/
def Writes (s t : OrderStore) (i : String) (old new : Order) : Prop :=
  t = s.replace i old.providerId new ∨
    ∃ r : PositionReport, r.orderId = new.id ∧ t = (s.replace i old.providerId new).insertReport r

/-- What a step may do to the books; the last index is the order whose history grows, if one
does. -/
inductive Moves (m : Moment) (d d' : Desk) : Option String → Prop where
  | idle (store : d'.store = d.store) (ledger : d'.ledger = d.ledger)
      (waiting : d'.queue.waiting = d.queue.waiting) : Moves m d d' none
  | reported (r : PositionReport) (store : d'.store = d.store.insertReport r)
      (ledger : d'.ledger = d.ledger) (queue : d'.queue = d.queue) : Moves m d d' none
  | opened (r : CreateRequest) (o : Order) (opens : r.Opens m o)
      (store : d.store.insert o = .ok d'.store) (ledger : d'.ledger = d.ledger)
      (queue : d'.queue = d.queue.submit (.ofOrder o)) : Moves m d d' (some o.id)
  | advanced (i : String) (old new : Order) (found : d.store.get i = .ok (some old))
      (moves : old.MovesOn new m.now) (store : Writes d.store d'.store i old new)
      (ledger : d'.ledger = d.ledger) (queue : d'.queue = d.queue.submit (.ofOrder new)) :
      Moves m d d' (some i)
  | posted (books : d'.toBooks = d.toBooks.postNext m.now m.ledgerOutage) : Moves m d d' none

/-- What a request may come to, by its answer. -/
inductive Outcome (m : Moment) (d d' : Desk) : DeskRequest → Except OpenError String → Prop where
  | refused (r : DeskRequest) (e : OpenError) (books : d'.toBooks = d.toBooks)
      (backlog : d'.backlog = d.backlog) (notices : d'.notices = d.notices) :
      Outcome m d d' r (.error e)
  | opened (r : CreateRequest) (o : Order) (opens : r.Opens m o)
      (store : d.store.insert o = .ok d'.store) (ledger : d'.ledger = d.ledger)
      (queue : d'.queue = d.queue.submit (.ofOrder o)) (notices : d'.notices = d.notices) :
      Outcome m d d' (.create r) (.ok o.id)
  | advanced (r : DeskRequest) (i : String) (old new : Order) (target : r.target? = some i)
      (advances : r.advances = true) (found : d.store.get i = .ok (some old))
      (moves : old.MovesOn new m.now) (store : Writes d.store d'.store i old new)
      (ledger : d'.ledger = d.ledger) (queue : d'.queue = d.queue.submit (.ofOrder new))
      (notices : d.NotifiesOnly d' i) : Outcome m d d' r (.ok i)
  | reported (i : String) (r : LocationRequest) (report : PositionReport)
      (about : report.orderId = i) (found : d.store.orders.contains i = true)
      (store : d'.store = d.store.insertReport report) (ledger : d'.ledger = d.ledger)
      (queue : d'.queue = d.queue) (notices : d'.notices = d.notices) :
      Outcome m d d' (.updateLocation i r) (.ok i)

/-! ## Parts of operations -/

theorem wake_toBooks (d : Desk) : d.wake.toBooks = d.toBooks := by
  unfold wake
  split <;> rfl

theorem wake_traffic (d : Desk) : d.wake.traffic = d.traffic := by
  unfold wake
  split <;> rfl

/-- A snapshot goes into the queue, or is dropped where the queue has no room or is shut. -/
theorem submit_toBooks (d : Desk) (o : Order) :
    (d.submit o).toBooks = { d.toBooks with queue := d.queue.submit (.ofOrder o) } := by
  unfold submit LedgerQueue.submit
  cases h : d.queue.fate with
  | accepted =>
    simp only
    rw [wake_toBooks]
  | full => rfl
  | closed => rfl

theorem submit_store (d : Desk) (o : Order) : (d.submit o).store = d.store := by
  rw [submit_toBooks]

theorem submit_ledger (d : Desk) (o : Order) : (d.submit o).ledger = d.ledger := by
  rw [submit_toBooks]

theorem submit_queue (d : Desk) (o : Order) :
    (d.submit o).queue = d.queue.submit (.ofOrder o) := by
  rw [submit_toBooks]

theorem submit_traffic (d : Desk) (o : Order) : (d.submit o).traffic = d.traffic := by
  unfold submit
  split
  · rw [wake_traffic]
  · rfl
  · rfl

theorem submit_drawn (d : Desk) (o : Order) : (d.submit o).drawn = d.drawn := by
  unfold submit wake
  split
  · split <;> rfl
  · rfl
  · rfl

/-- A revision is refused and changes nothing, or writes back the order it found, changed. -/
theorem revise_cases (d : Desk) (i : String) (change : Order → Except Failure Order) :
    (∃ f, d.revise i change = (.error f, d)) ∨
      ∃ old new, d.store.get i = .ok (some old) ∧ change old = .ok new ∧
        d.revise i change =
          (.ok new, { d with store := d.store.replace i old.providerId new }.submit new) := by
  unfold revise
  cases h : d.store.update .storage i change with
  | error f => exact .inl ⟨f, rfl⟩
  | ok r =>
    obtain ⟨new, store⟩ := r
    obtain ⟨old, hget, hchange, rfl⟩ := OrderStore.update_eq_ok _ _ _ _ _ _ h
    exact .inr ⟨old, new, hget, hchange, rfl⟩

theorem revise_of_get (d : Desk) (i : String) (change : Order → Except Failure Order)
    (old new : Order) (hget : d.store.get i = .ok (some old)) (hchange : change old = .ok new) :
    d.revise i change =
      (.ok new, { d with store := d.store.replace i old.providerId new }.submit new) := by
  unfold revise
  rw [OrderStore.update_of_get _ _ _ _ _ hget, hchange]
  rfl

/-- A check fails and changes nothing, or what comes next is done. -/
theorem checked_cases {α β : Type} (d : Desk) (check : Except Failure α)
    (next : α → Except Failure β × Desk) :
    (∃ f, d.checked check next = (.error f, d)) ∨
      ∃ a, check = .ok a ∧ d.checked check next = next a := by
  cases check with
  | error f => exact .inl ⟨f, rfl⟩
  | ok a => exact .inr ⟨a, rfl, rfl⟩

theorem notifiesOnly_of_eq (d d' : Desk) (i : String) (h : d'.notices = d.notices) :
    d.NotifiesOnly d' i :=
  ⟨[], by rw [h, List.append_nil], by intro n hn; cases hn⟩

theorem notices_noteSearches (d : Desk) (searches : List Search) :
    (d.noteSearches searches).notices = d.notices := by
  have h : (searches.map DirectoryCall.find).filterMap DirectoryCall.notice? = [] := by
    rw [List.filterMap_map]
    exact List.filterMap_eq_nil_iff.2 fun _ _ => rfl
  unfold notices noteSearches
  rw [List.filterMap_append, h, List.append_nil]

/-- Offers of an order are notifications about it. -/
theorem notifiesOnly_sendOffers (d : Desk) (m : Moment) (o : Order) (providers : List Scored) :
    d.NotifiesOnly (d.sendOffers m o providers) o.id := by
  refine ⟨providers.map fun s => (offerTo o s, (m.directory.notify (offerTo o s)).isOk), ?_, ?_⟩
  · have h : (providers.map fun s => notifyCall m (offerTo o s)).filterMap DirectoryCall.notice? =
        providers.map fun s => (offerTo o s, (m.directory.notify (offerTo o s)).isOk) := by
      rw [List.filterMap_map]
      exact congrFun List.filterMap_eq_map' providers
    unfold notices sendOffers
    rw [List.filterMap_append, h]
  · intro n hn
    obtain ⟨s, -, rfl⟩ := List.mem_map.1 hn
    rfl

/-- The order found under an identifier has it. -/
theorem id_of_get (s : OrderStore) (hs : s.Indexed) (i : String) (o : Order)
    (h : s.get i = .ok (some o)) : o.id = i := by
  obtain ⟨p, hp, hid⟩ := hs.row i (OrderStore.contains_of_get s i o h)
  rw [OrderStore.reread?_of_get s i p o hp h |> reread?_order p o]
  exact hid

theorem movesOn_owner (old new : Order) (now : Timestamp) (h : old.MovesOn new now) :
    new.id = old.id ∧ new.userId = old.userId := by
  obtain ⟨_, _, _, _, rfl⟩ := h
  exact ⟨rfl, rfl⟩

/-- What comes of a revision that succeeds, where the books before it were those of `d₀`, and
nothing but a position of its order comes behind it. -/
theorem outcome_of_revise (m : Moment) (d₀ d d' d'' : Desk) (r : DeskRequest) (i : String)
    (change : Order → Except Failure Order) (new : Order) (hs : d₀.store.Indexed)
    (target : r.target? = some i) (advances : r.advances = true) (books : d.toBooks = d₀.toBooks)
    (notices : d₀.NotifiesOnly d i)
    (hmoves : ∀ o o', change o = .ok o' → o.MovesOn o' m.now)
    (h : d.revise i change = (.ok new, d'))
    (hstore : d''.store = d'.store ∨ ∃ report : PositionReport, report.orderId = new.id ∧
      d''.store = d'.store.insertReport report)
    (hledger : d''.ledger = d'.ledger) (hqueue : d''.queue = d'.queue)
    (htraffic : d''.traffic = d'.traffic) : Outcome m d₀ d'' r (.ok new.id) := by
  rcases revise_cases d i change with ⟨f, hf⟩ | ⟨old, new', hget, hchange, hok⟩
  · rw [hf] at h
    cases h
  · rw [hok] at h
    obtain ⟨hnew, rfl⟩ := Prod.mk.inj h
    cases hnew
    rw [books] at hget
    have hmove := hmoves old new hchange
    have hid : new.id = i := (movesOn_owner old new _ hmove).1.trans (id_of_get _ hs i old hget)
    rw [submit_store] at hstore
    rw [submit_ledger] at hledger
    rw [submit_queue] at hqueue
    rw [submit_traffic] at htraffic
    have hstores : d.store = d₀.store := congrArg Books.store books
    have hledgers : d.ledger = d₀.ledger := congrArg Books.ledger books
    have hqueues : d.queue = d₀.queue := congrArg Books.queue books
    rw [hid]
    refine .advanced r i old new target advances hget hmove ?_ ?_ ?_ ?_
    · unfold Writes
      rw [← hstores]
      exact hstore
    · rw [← hledgers]
      exact hledger
    · rw [← hqueues]
      exact hqueue
    · obtain ⟨sent, hsent, habout⟩ := notices
      refine ⟨sent, ?_, habout⟩
      rw [← hsent]
      unfold Desk.notices
      rw [htraffic]

/-! ## Changes of an order -/

theorem movesOn_set (now : Timestamp) (r : StatusRequest) (o o' : Order)
    (h : Except.ok (ε := Failure) (o.pushStatus now r.status (actorOrSystem r.updatedBy) r.note) =
      .ok o') : o.MovesOn o' now := by
  cases h
  exact ⟨_, _, _, o.providerId, rfl⟩

theorem movesOn_assigned (now : Timestamp) (providerId : String) (o o' : Order)
    (h : Except.ok (ε := Failure) (o.assign now providerId) = .ok o') : o.MovesOn o' now := by
  cases h
  exact ⟨_, _, _, some providerId, rfl⟩

theorem movesOn_cancelled (now : Timestamp) (r : CancelRequest) (o o' : Order)
    (h : cancelled now r o = .ok o') : o.MovesOn o' now := by
  unfold cancelled at h
  split at h
  · cases h
  · cases h
    exact ⟨_, _, _, o.providerId, rfl⟩

theorem movesOn_accepted (now : Timestamp) (orderId : String) (r : AcceptRequest) (o o' : Order)
    (h : (do
      o.requireAssigned orderId r.providerId
      return o.pushStatus now .providerAccepted r.providerId "Provider accepted the order" :
        Except Failure Order) = .ok o') : o.MovesOn o' now := by
  obtain ⟨_, -, h⟩ := bind_eq_ok h
  cases h
  exact ⟨_, _, _, o.providerId, rfl⟩

theorem movesOn_rejected (now : Timestamp) (orderId : String) (r : RejectRequest) (o o' : Order)
    (h : rejected now orderId r o = .ok o') : o.MovesOn o' now := by
  unfold rejected at h
  obtain ⟨_, -, h⟩ := bind_eq_ok h
  cases h
  exact ⟨_, _, _, none, rfl⟩

theorem movesOn_reassigned (now : Timestamp) (providerId : String) (o o' : Order)
    (h : reassigned now providerId o = .ok o') : o.MovesOn o' now := by
  unfold reassigned at h
  split at h
  · cases h
  · cases h
    exact ⟨_, _, _, some providerId, rfl⟩

/-! ## Requests -/

theorem outcome_refused (m : Moment) (d : Desk) (r : DeskRequest) (e : OpenError) :
    Outcome m d d r (.error e) :=
  .refused r e rfl rfl rfl

theorem outcome_create (m : Moment) (d : Desk) (r : CreateRequest) :
    Outcome m d (d.create m r).2 (.create r) ((d.create m r).1.map (·.id)) := by
  unfold create
  cases hcheck : r.check with
  | error f => exact outcome_refused m d _ _
  | ok places =>
    obtain ⟨pickup, destination⟩ := places
    simp only
    cases htotals : Totals.ofItems r.items with
    | error o => exact outcome_refused m d _ _
    | ok totals =>
      simp only [draw]
      cases hinsert :
        d.store.insert (r.order (m.newId d.drawn) m.now m.later pickup destination totals) with
      | error e => exact .refused _ _ rfl rfl rfl
      | ok store =>
        refine .opened r _ ⟨_, pickup, destination, totals, hcheck, htotals, rfl⟩ ?_ ?_ ?_ ?_
        · rw [submit_store]
          exact hinsert
        · rw [submit_ledger]
        · rw [submit_queue]
        · unfold notices
          rw [submit_traffic]

/-- A revision that is all of an operation. -/
theorem outcome_revise (m : Moment) (d : Desk) (r : DeskRequest) (i : String)
    (change : Order → Except Failure Order) (hs : d.store.Indexed) (target : r.target? = some i)
    (advances : r.advances = true) (hmoves : ∀ o o', change o = .ok o' → o.MovesOn o' m.now) :
    Outcome m d (d.revise i change).2 r (answered (d.revise i change)).1 := by
  rcases revise_cases d i change with ⟨f, hf⟩ | ⟨old, new, -, -, hok⟩
  · rw [hf]
    exact outcome_refused m d r _
  · rw [hok]
    exact outcome_of_revise m d d _ _ r i change new hs target advances rfl
      (notifiesOnly_of_eq d d i rfl) hmoves hok (.inl rfl) rfl rfl rfl

theorem outcome_updateStatus (m : Moment) (d : Desk) (i : String) (r : StatusRequest)
    (hs : d.store.Indexed) :
    Outcome m d (d.updateStatus m i r).2 (.updateStatus i r)
      (answered (d.updateStatus m i r)).1 := by
  unfold updateStatus
  rcases checked_cases d (requireText "order ID" i) _ with ⟨f, hf⟩ | ⟨_, -, hok⟩
  · rw [hf]
    exact outcome_refused m d _ _
  · rw [hok]
    exact outcome_revise m d _ i _ hs rfl rfl (movesOn_set m.now r)

theorem outcome_cancel (m : Moment) (d : Desk) (i : String) (r : CancelRequest)
    (hs : d.store.Indexed) :
    Outcome m d (d.cancel m i r).2 (.cancel i r) (answered (d.cancel m i r)).1 := by
  unfold cancel
  rcases checked_cases d (requireText "order ID" i) _ with ⟨f, hf⟩ | ⟨_, -, hok⟩
  · rw [hf]
    exact outcome_refused m d _ _
  · rw [hok]
    exact outcome_revise m d _ i _ hs rfl rfl (movesOn_cancelled m.now r)

theorem store_get_of_get (d : Desk) (i : String) (o : Order) (h : d.get i = .ok o) :
    d.store.get i = .ok (some o) := by
  unfold get at h
  cases hrequired : requireText "order ID" i with
  | error f => rw [hrequired] at h; cases h
  | ok u =>
    rw [hrequired] at h
    simp only [ok_bind] at h
    split at h
    · cases h
    · cases h
    · next o' hget =>
      cases h
      exact hget

theorem get_of_store_get (d : Desk) (i : String) (o : Order) (hi : Text.isBlank i = false)
    (h : d.store.get i = .ok (some o)) : d.get i = .ok o := by
  unfold get requireText
  rw [hi, h]
  rfl

theorem outcome_assign (m : Moment) (d : Desk) (i : String) (r : AssignRequest)
    (hs : d.store.Indexed) :
    Outcome m d (d.assign m i r).2 (.assign i r) (answered (d.assign m i r)).1 := by
  unfold assign
  rcases checked_cases d (d.get i) _ with ⟨f, hf⟩ | ⟨o, hget, hok⟩
  · rw [hf]
    exact outcome_refused m d _ _
  · rw [hok]
    have hfound := store_get_of_get d i o hget
    split
    · next p _ => exact outcome_revise m d _ i _ hs rfl rfl (movesOn_assigned m.now p)
    · unfold assignBest
      generalize Matching.best m.directory o offeredProviders = found
      obtain ⟨searches, result⟩ := found
      have hsearches := notices_noteSearches d searches
      cases result with
      | error e => exact .refused _ _ rfl rfl hsearches
      | ok scored =>
        cases scored with
        | nil => exact .refused _ _ rfl rfl hsearches
        | cons best others =>
          -- The offers went out before the order is written, but the writing cannot fail.
          have hoffers := notifiesOnly_sendOffers (d.noteSearches searches) m o (best :: others)
          rw [id_of_get d.store hs i o hfound] at hoffers
          have hnotices : d.NotifiesOnly
              ((d.noteSearches searches).sendOffers m o (best :: others)) i := by
            obtain ⟨sent, hsent, habout⟩ := hoffers
            exact ⟨sent, by rw [hsent, hsearches], habout⟩
          have hrevised := revise_of_get
            ((d.noteSearches searches).sendOffers m o (best :: others)) i
            (fun o => .ok (o.assign m.now best.candidate.providerId)) o _ hfound rfl
          simp only [assignProvider]
          rw [hrevised]
          exact outcome_of_revise m d ((d.noteSearches searches).sendOffers m o (best :: others))
            _ _ _ i _ _ hs rfl rfl rfl hnotices (movesOn_assigned m.now best.candidate.providerId)
            hrevised (.inl rfl) rfl rfl rfl

theorem noteLocation_cases (d : Desk) (m : Moment) (o : Order) (providerId : String)
    (location : Option Location) :
    ((d.noteLocation m o providerId location).store = d.store ∨
      ∃ report : PositionReport, report.orderId = o.id ∧
        (d.noteLocation m o providerId location).store = d.store.insertReport report) ∧
      (d.noteLocation m o providerId location).ledger = d.ledger ∧
      (d.noteLocation m o providerId location).queue = d.queue ∧
      (d.noteLocation m o providerId location).traffic = d.traffic := by
  unfold noteLocation
  split
  · exact ⟨.inl rfl, rfl, rfl, rfl⟩
  · exact ⟨.inr ⟨_, rfl, rfl⟩, rfl, rfl, rfl⟩

theorem outcome_accept (m : Moment) (d : Desk) (i : String) (r : AcceptRequest)
    (hs : d.store.Indexed) :
    Outcome m d (d.accept m i r).2 (.accept i r) (answered (d.accept m i r)).1 := by
  unfold accept
  rcases checked_cases d (requireText "order ID" i) _ with ⟨f, hf⟩ | ⟨_, -, hok⟩
  · rw [hf]
    exact outcome_refused m d _ _
  rw [hok]
  rcases checked_cases d (requireText "provider ID" r.providerId) _ with ⟨f, hf⟩ | ⟨_, -, hok⟩
  · rw [hf]
    exact outcome_refused m d _ _
  rw [hok]
  rcases revise_cases d i _ with ⟨f, hf⟩ | ⟨old, new, -, -, hrevised⟩
  · rw [hf]
    exact outcome_refused m d _ _
  · rw [hrevised]
    obtain ⟨hstore, hledger, hqueue, htraffic⟩ := noteLocation_cases
      ({ d with store := d.store.replace i old.providerId new }.submit new) m new r.providerId
      r.currentLocation
    exact outcome_of_revise m d d _ _ _ i _ new hs rfl rfl rfl (notifiesOnly_of_eq d d i rfl)
      (movesOn_accepted m.now i r) hrevised hstore hledger hqueue htraffic

theorem outcome_reject (m : Moment) (d : Desk) (i : String) (r : RejectRequest)
    (hs : d.store.Indexed) :
    Outcome m d (d.reject m i r).2 (.reject i r) (answered (d.reject m i r)).1 := by
  unfold reject
  rcases checked_cases d (requireText "order ID" i) _ with ⟨f, hf⟩ | ⟨_, -, hok⟩
  · rw [hf]
    exact outcome_refused m d _ _
  rw [hok]
  rcases checked_cases d (requireText "provider ID" r.providerId) _ with ⟨f, hf⟩ | ⟨_, -, hok⟩
  · rw [hf]
    exact outcome_refused m d _ _
  rw [hok]
  rcases revise_cases d i (rejected m.now i r) with ⟨f, hf⟩ | ⟨old, new, -, -, hrevised⟩
  · rw [hf]
    exact outcome_refused m d _ _
  · rw [hrevised]
    exact outcome_of_revise m d d _ _ _ i _ new hs rfl rfl rfl (notifiesOnly_of_eq d d i rfl)
      (movesOn_rejected m.now i r) hrevised (.inl rfl) rfl rfl rfl

theorem outcome_updateLocation (m : Moment) (d : Desk) (i : String) (r : LocationRequest)
    (hs : d.store.Indexed) :
    Outcome m d (d.updateLocation m i r).2 (.updateLocation i r)
      (((d.updateLocation m i r).1.map (·.orderId)).mapError .refused) := by
  unfold updateLocation
  rcases checked_cases d (r.check i) _ with ⟨f, hf⟩ | ⟨location, -, hok⟩
  · rw [hf]
    exact outcome_refused m d _ _
  rw [hok]
  rcases checked_cases d (d.get i) _ with ⟨f, hf⟩ | ⟨o, hget, hok⟩
  · rw [hf]
    exact outcome_refused m d _ _
  rw [hok]
  have hfound := store_get_of_get d i o hget
  have hid := id_of_get d.store hs i o hfound
  split
  · show Outcome m d _ _ (.ok o.id)
    rw [hid]
    exact .reported i r _ rfl (OrderStore.contains_of_get _ i o hfound) rfl rfl rfl rfl
  · exact outcome_refused m d _ _

/-- What every request comes to. -/
theorem outcome_carryOut (m : Moment) (d : Desk) (r : DeskRequest) (hs : d.store.Indexed) :
    Outcome m d (d.carryOut m r).2 r (d.carryOut m r).1 := by
  cases r with
  | create r => exact outcome_create m d r
  | updateStatus i r => exact outcome_updateStatus m d i r hs
  | cancel i r => exact outcome_cancel m d i r hs
  | assign i r => exact outcome_assign m d i r hs
  | accept i r => exact outcome_accept m d i r hs
  | reject i r => exact outcome_reject m d i r hs
  | updateLocation i r => exact outcome_updateLocation m d i r hs

/-! ## All steps -/

/-- Whether an order is still waiting for a provider after a rejection. -/
def awaitsRematch (d : Desk) (orderId : String) : Bool :=
  match d.store.get orderId with
  | .ok (some o) => o.status == .providerRejected && o.providerId.isNone
  | _ => false

/-- Whether a search for another provider ends in an assignment: somebody else is found, and the
order still waits for it. -/
def lands (d : Desk) (m : Moment) (o : Order) (rejectedBy : String) : Bool :=
  match (Matching.best m.directory o offeredProviders).2 with
  | .error _ => false
  | .ok scored =>
    !(scored.filter (·.candidate.providerId != rejectedBy)).isEmpty && d.awaitsRematch o.id

/-- The order whose history a step adds to, if there is one. -/
def grows? (d : Desk) (s : DeskStep) : Option String :=
  match s.event with
  | .request r => if r.advances then (d.carryOut s.moment r).1.toOption else none
  | .rematch o rejectedBy => if d.lands s.moment o rejectedBy then some o.id else none
  | .post | .shut => none

theorem awaitsRematch_iff (d : Desk) (orderId : String) :
    d.awaitsRematch orderId = true ↔ ∃ o, d.store.get orderId = .ok (some o) ∧
      o.status = .providerRejected ∧ o.providerId = none := by
  unfold awaitsRematch
  split
  · next o hget => simp [hget]
  · next hno =>
    constructor
    · intro h
      cases h
    · rintro ⟨o, hget, -⟩
      exact absurd hget (hno o)

/-- An order is reassigned exactly if it still waits. -/
theorem reassigned_eq_ok_iff (now : Timestamp) (providerId : String) (o o' : Order) :
    reassigned now providerId o = .ok o' ↔
      (o.status = .providerRejected ∧ o.providerId = none) ∧ o' = o.assign now providerId := by
  unfold reassigned
  by_cases h : o.status = .providerRejected ∧ o.providerId = none
  · simp [h, eq_comm]
  · have hor : o.status ≠ .providerRejected ∨ o.providerId.isSome = true := by
      rcases not_and_or.1 h with hstatus | hprovider
      · exact .inl hstatus
      · exact .inr (Option.isSome_iff_ne_none.2 hprovider)
    simp [hor, h]

/-- A rematch lands nowhere and changes neither orders nor what waits for the ledger, or it lands and
moves its order on. -/
theorem rematch_cases (m : Moment) (d : Desk) (o : Order) (rejectedBy : String) :
    (d.lands m o rejectedBy = false ∧ (d.rematch m o rejectedBy).toBooks = d.toBooks) ∨
      ∃ old new, d.lands m o rejectedBy = true ∧ d.store.get o.id = .ok (some old) ∧
        old.MovesOn new m.now ∧
        (d.rematch m o rejectedBy).store = d.store.replace o.id old.providerId new ∧
        (d.rematch m o rejectedBy).ledger = d.ledger ∧
        (d.rematch m o rejectedBy).queue = d.queue.submit (.ofOrder new) := by
  unfold rematch lands
  generalize Matching.best m.directory o offeredProviders = found
  obtain ⟨searches, result⟩ := found
  cases result with
  | error e => exact .inl ⟨rfl, rfl⟩
  | ok scored =>
    simp only
    generalize scored.filter (·.candidate.providerId != rejectedBy) = others
    cases others with
    | nil => exact .inl ⟨rfl, rfl⟩
    | cons best others =>
      simp only [List.isEmpty_cons, Bool.not_false, Bool.true_and]
      rcases revise_cases ((d.noteSearches searches).sendOffers m o (best :: others)) o.id
        (reassigned m.now best.candidate.providerId) with ⟨f, hf⟩ | ⟨old, new, hget, hchange, hok⟩
      · have hnot : d.awaitsRematch o.id = false := by
          by_contra h
          obtain ⟨stored, hget, hwaits⟩ := (awaitsRematch_iff d o.id).1 (by simpa using h)
          have hok := revise_of_get ((d.noteSearches searches).sendOffers m o (best :: others)) o.id
            _ stored _ hget
            ((reassigned_eq_ok_iff m.now best.candidate.providerId stored _).2 ⟨hwaits, rfl⟩)
          rw [hf] at hok
          cases hok
        simp only [hf]
        exact .inl ⟨hnot, rfl⟩
      · have hwaits := ((reassigned_eq_ok_iff m.now best.candidate.providerId old new).1 hchange).1
        have hyes : d.awaitsRematch o.id = true :=
          (awaitsRematch_iff d o.id).2 ⟨old, hget, hwaits⟩
        simp only [hok]
        exact .inr ⟨old, new, hyes, hget,
          movesOn_reassigned m.now best.candidate.providerId old new hchange,
          submit_store _ _, submit_ledger _ _, submit_queue _ _⟩

theorem moves_rematch (m : Moment) (d : Desk) (o : Order) (rejectedBy : String) :
    Moves m d (d.rematch m o rejectedBy) (if d.lands m o rejectedBy then some o.id else none) := by
  rcases rematch_cases m d o rejectedBy with
    ⟨hno, books⟩ | ⟨old, new, hyes, found, moves, store, ledger, queue⟩
  · rw [hno]
    exact .idle (congrArg Books.store books) (congrArg Books.ledger books)
      (congrArg (·.queue.waiting) books)
  · rw [hyes]
    exact .advanced o.id old new found moves (.inl store) ledger queue

/-- A step does one of the five things that `Moves` lists. -/
theorem moves_after (d : Desk) (s : DeskStep) (hs : d.store.Indexed) :
    Moves s.moment d (d.after s) (d.grows? s) := by
  unfold after grows?
  cases hevent : s.event with
  | request r =>
    simp only
    have h := outcome_carryOut s.moment d r hs
    generalize d.carryOut s.moment r = answer at h
    obtain ⟨answer, d'⟩ := answer
    cases h with
    | refused _ e books =>
      have hstores : d'.store = d.store := congrArg Books.store books
      have hledgers : d'.ledger = d.ledger := congrArg Books.ledger books
      have hqueues : d'.queue = d.queue := congrArg Books.queue books
      show Moves s.moment d d' (if r.advances = true then none else none)
      rw [ite_self]
      exact .idle hstores hledgers (by rw [hqueues])
    | opened r o opens store ledger queue => exact .opened r o opens store ledger queue
    | advanced _ i old new _ advances found moves store ledger queue =>
      show Moves s.moment d d' (if r.advances = true then some i else none)
      rw [if_pos advances]
      exact .advanced i old new found moves store ledger queue
    | reported i r report _ _ store ledger queue => exact .reported report store ledger queue
  | rematch o rejectedBy => exact moves_rematch s.moment d o rejectedBy
  | post => exact .posted rfl
  | shut => exact .idle rfl rfl rfl

end Desk

/-! ## Posting -/

/-- What taking the oldest job out of the queue does to the books. -/
inductive Books.Posts (now : Timestamp) (outage : Option String) (b : Books) : Books → Prop where
  | nothing (waiting : b.queue.waiting = []) : Posts now outage b b
  | lost (job : Ledger.Job) (rest : List Ledger.Job) (waiting : b.queue.waiting = job :: rest) :
      Posts now outage b { b with queue := b.queue.advance }
  /-- The job is recorded, but there is no order to note its reference on. -/
  | recorded (job : Ledger.Job) (rest : List Ledger.Job) (txRef : String) (ledger : Ledger)
      (waiting : b.queue.waiting = job :: rest)
      (record : b.ledger.record job now = .ok (txRef, ledger))
      (missing : ∀ o, b.store.get job.orderId ≠ .ok (some o)) :
      Posts now outage b { b with queue := b.queue.advance, ledger }
  /-- The job is recorded, and its reference is noted on the order. -/
  | noted (job : Ledger.Job) (rest : List Ledger.Job) (txRef : String) (ledger : Ledger)
      (old : Order) (waiting : b.queue.waiting = job :: rest)
      (record : b.ledger.record job now = .ok (txRef, ledger))
      (found : b.store.get job.orderId = .ok (some old)) :
      Posts now outage b {
        store := b.store.replace job.orderId old.providerId { old with ledgerRef := some txRef }
        ledger
        queue := b.queue.advance }

theorem Books.posts_postNext (now : Timestamp) (outage : Option String) (b : Books) :
    Posts now outage b (b.postNext now outage) := by
  unfold postNext
  cases hwaiting : b.queue.waiting with
  | nil => exact .nothing hwaiting
  | cons job rest =>
    simp only
    unfold post
    cases outage with
    | some detail => exact .lost job rest hwaiting
    | none =>
      have hreach : (do Ledger.reach none; b.ledger.record job now) = b.ledger.record job now := rfl
      simp only [hreach]
      cases hrecord : b.ledger.record job now with
      | error e => exact .lost job rest hwaiting
      | ok r =>
        obtain ⟨txRef, ledger⟩ := r
        simp only
        cases hset : b.store.setLedgerRef job.orderId txRef with
        | error e =>
          refine .recorded job rest txRef ledger hwaiting hrecord ?_
          intro o hget
          unfold OrderStore.setLedgerRef at hset
          rw [OrderStore.update_of_get _ _ _ _ _ hget] at hset
          cases hset
        | ok r =>
          obtain ⟨new, store⟩ := r
          obtain ⟨old, hget, hchange, rfl⟩ := OrderStore.update_eq_ok _ _ _ _ _ _ hset
          cases hchange
          exact .noted job rest txRef ledger old hwaiting hrecord hget

/-! ## Runs -/

namespace OrderStore

theorem indexed_insertReport (s : OrderStore) (r : PositionReport) (hs : s.Indexed) :
    (s.insertReport r).Indexed :=
  ⟨hs.row, hs.user, hs.provider⟩

end OrderStore

namespace Desk

/-- Whatever a step does, the indexes follow. -/
theorem indexed_moves (m : Moment) (d d' : Desk) (grown : Option String) (hs : d.store.Indexed)
    (h : Moves m d d' grown) : d'.store.Indexed := by
  cases h with
  | idle store =>
    rw [store]
    exact hs
  | reported r store =>
    rw [store]
    exact OrderStore.indexed_insertReport _ r hs
  | opened r o _ store => exact OrderStore.indexed_insert _ _ o hs store
  | advanced i old new found moves store =>
    obtain ⟨hid, huser⟩ := movesOn_owner old new m.now moves
    have hwritten := OrderStore.indexed_replace_found _ i old new hs found hid huser
    rcases store with store | ⟨r, -, store⟩
    · rw [store]
      exact hwritten
    · rw [store]
      exact OrderStore.indexed_insertReport _ r hwritten
  | posted books =>
    have hstore : d'.store = (d.toBooks.postNext m.now m.ledgerOutage).store :=
      congrArg Books.store books
    have hposts := Books.posts_postNext m.now m.ledgerOutage d.toBooks
    generalize d.toBooks.postNext m.now m.ledgerOutage = b at hstore hposts
    rw [hstore]
    cases hposts with
    | nothing | lost | recorded => exact hs
    | noted job rest txRef ledger old waiting record found =>
      exact OrderStore.indexed_replace_found _ _ old _ hs found rfl rfl

theorem run_append (capacity : Nat) (steps : List DeskStep) (s : DeskStep) :
    run capacity (steps ++ [s]) = (run capacity steps).after s := by
  unfold run
  rw [List.foldl_append]
  rfl

/-- The indexes are in order after every run. -/
theorem indexed_run (capacity : Nat) (steps : List DeskStep) :
    (run capacity steps).store.Indexed := by
  induction steps using List.reverseRecOn with
  | nil => exact OrderStore.indexed_empty
  | append_singleton steps s ih =>
    rw [run_append]
    exact indexed_moves s.moment _ _ _ ih (moves_after _ s ih)

end Desk

end OrderDispatch
