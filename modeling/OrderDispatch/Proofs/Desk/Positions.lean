import Mathlib
import OrderDispatch.Proofs.Desk.Replay
import OrderDispatch.Proofs.Store.Reports

/-!
# The log of positions

Reports enter the store when a provider tells where it is, or takes an order and tells it then; and
whoever holds the store may file some of their own. `Filing` says once what a request files:
nothing, or one report, of the provider that the order is assigned to, about a place on the globe.
So there is one log of all reports that were filed, and the store holds it and nothing else.

    d.filing? m r = none        → reports and their count stay         (Filing.nothing)
    d.filing? m r = some report → report is filed, and nothing else    (Filing.reported, accepted)
    the store holds the log of its run                                 (files_run)

The store keeps a report as a text, and reading that text is not always what was written.
-/

namespace OrderDispatch

open PositionReport (about)

/-! ## Events -/

/-- Something that happens to the desk, or to its store behind its back. -/
inductive StoreEvent (ε : Type) where
  | desk (step : DeskStep)
  | action (action : StoreAction ε)
  | report (report : PositionReport)

/-- The report that comes of a position told at a moment, by its answer. -/
def LocationRequest.filing? (r : LocationRequest) (m : Moment)
    (answer : Except Failure PositionReceipt) : Option PositionReport :=
  answer.toOption.map fun receipt => ⟨receipt.reportId, receipt.orderId, r.providerId,
    receipt.currentLocation.latitude, receipt.currentLocation.longitude, m.now⟩

/-- The report that comes of taking an order, by the answer and the identifier that is drawn. -/
def AcceptRequest.filing? (r : AcceptRequest) (m : Moment) (id : String)
    (answer : Except Failure Order) : Option PositionReport := do
  let o ← answer.toOption
  let l ← r.currentLocation.filter (·.coordinates.isValid)
  return ⟨id, o.id, r.providerId, l.latitude, l.longitude, m.later⟩

/-- The report that a request files, by what it says and how it is answered. -/
def Desk.filing? (d : Desk) (m : Moment) : DeskRequest → Option PositionReport
  | .updateLocation i r => r.filing? m (d.updateLocation m i r).1
  | .accept i r => r.filing? m (m.newId d.drawn) (d.accept m i r).1
  | .create _ | .updateStatus .. | .cancel .. | .assign .. | .reject .. => none

namespace StoreEvent

variable {ε : Type} (lift : StoreError → ε)

/-- The desk after an event. -/
def apply (d : Desk) : StoreEvent ε → Desk
  | desk s => d.after s
  | action a => { d with store := a.apply lift d.store }
  | report r => { d with store := d.store.insertReport r }

/-- The report that an event files. -/
def filing? (d : Desk) : StoreEvent ε → Option PositionReport
  | desk s =>
    match s.event with
    | .request r => d.filing? s.moment r
    | .rematch .. | .post | .shut => none
  | action _ => none
  | report r => some r

/-- The desk after a run from empty books. -/
def run (capacity : Nat) (events : List (StoreEvent ε)) : Desk :=
  events.foldl (apply lift) (.ofCapacity capacity)

/-- The reports that are filed in a run from a desk, the oldest first. -/
def log (d : Desk) : List (StoreEvent ε) → List PositionReport
  | [] => []
  | e :: es => (e.filing? d).toList ++ log (e.apply lift d) es

theorem log_append (d : Desk) (es fs : List (StoreEvent ε)) :
    log lift d (es ++ fs) = log lift d es ++ log lift (es.foldl (apply lift) d) fs := by
  induction es generalizing d with
  | nil => rfl
  | cons e es ih =>
    rw [List.cons_append, log, log, ih, List.append_assoc]
    rfl

end StoreEvent

/-! ## What is filed -/

/-- The reports and their count are the same. -/
def OrderStore.SameReports (s t : OrderStore) : Prop :=
  t.reports = s.reports ∧ t.sequence = s.sequence

namespace Desk

/-- What a request does to the reports: it files none, or one for the order it found. -/
inductive Filing (m : Moment) (d d' : Desk) : Option PositionReport → Prop where
  | nothing (reports : d.store.SameReports d'.store) : Filing m d d' none
  | reported (i : String) (o : Order) (report : PositionReport)
      (found : d.store.get i = .ok (some o)) (held : o.isAssignedTo report.providerId = true)
      (order : report.orderId = o.id) (valid : report.coordinates.isValid = true)
      (store : d'.store = d.store.insertReport report) : Filing m d d' (some report)
  | accepted (i : String) (o : Order) (report : PositionReport)
      (found : d.store.get i = .ok (some o)) (held : o.isAssignedTo report.providerId = true)
      (order : report.orderId = o.id) (valid : report.coordinates.isValid = true)
      (store : d'.store = (d.store.replace i o.providerId (o.pushStatus m.now .providerAccepted
        report.providerId "Provider accepted the order")).insertReport report) :
      Filing m d d' (some report)

theorem sameReports_revise (d : Desk) (i : String) (change : Order → Except Failure Order) :
    d.store.SameReports (d.revise i change).2.store := by
  rcases revise_cases d i change with ⟨f, hf⟩ | ⟨old, new, -, -, hok⟩
  · rw [hf]
    exact ⟨rfl, rfl⟩
  · rw [hok, submit_store]
    exact ⟨rfl, rfl⟩

theorem sameReports_checked {α β : Type} (d : Desk) (check : Except Failure α)
    (next : α → Except Failure β × Desk)
    (h : ∀ a, d.store.SameReports (next a).2.store) :
    d.store.SameReports (d.checked check next).2.store := by
  rcases checked_cases d check next with ⟨f, hf⟩ | ⟨a, -, hok⟩
  · rw [hf]
    exact ⟨rfl, rfl⟩
  · rw [hok]
    exact h a

theorem sameReports_create (d : Desk) (m : Moment) (r : CreateRequest) :
    d.store.SameReports (d.create m r).2.store := by
  have h := outcome_create m d r
  generalize (d.create m r).1.map (·.id) = answer at h
  generalize (d.create m r).2 = d' at h
  cases h with
  | refused _ e books =>
    rw [show d'.store = d.store from congrArg Books.store books]
    exact ⟨rfl, rfl⟩
  | opened r o opens store =>
    unfold OrderStore.insert at store
    split at store
    · cases store
    · rw [← Except.ok.inj store]
      exact ⟨rfl, rfl⟩
  | advanced _ _ _ _ target => cases target

theorem sameReports_assign (d : Desk) (m : Moment) (i : String) (r : AssignRequest) :
    d.store.SameReports (d.assign m i r).2.store := by
  refine sameReports_checked d _ _ fun o => ?_
  split
  · exact sameReports_revise d i _
  · unfold assignBest
    generalize Matching.best m.directory o offeredProviders = found
    obtain ⟨searches, result⟩ := found
    match result with
    | .error _ | .ok [] => exact ⟨rfl, rfl⟩
    | .ok (best :: others) =>
      exact sameReports_revise ((d.noteSearches searches).sendOffers m o (best :: others)) i _

theorem sameReports_reject (d : Desk) (m : Moment) (i : String) (r : RejectRequest) :
    d.store.SameReports (d.reject m i r).2.store := by
  refine sameReports_checked d _ _ fun _ => sameReports_checked d _ _ fun _ => ?_
  have hrevised := sameReports_revise d i (rejected m.now i r)
  generalize d.revise i (rejected m.now i r) = answer at hrevised
  obtain ⟨answer, d'⟩ := answer
  cases answer with
  | error f | ok o => exact hrevised

theorem sameReports_rematch (d : Desk) (m : Moment) (stale : Order) (rejectedBy : String) :
    d.store.SameReports (d.rematch m stale rejectedBy).store := by
  rcases rematch_cases m d stale rejectedBy with ⟨-, books⟩ | ⟨old, new, -, -, -, store, -, -⟩
  · rw [congrArg Books.store books]
    exact ⟨rfl, rfl⟩
  · rw [store]
    exact ⟨rfl, rfl⟩

theorem sameReports_post (d : Desk) (m : Moment) :
    d.store.SameReports (d.after ⟨m, .post⟩).store := by
  show d.store.SameReports (d.toBooks.postNext m.now m.ledgerOutage).store
  have hposts := Books.posts_postNext m.now m.ledgerOutage d.toBooks
  generalize d.toBooks.postNext m.now m.ledgerOutage = b at hposts
  cases hposts with
  | nothing | lost | recorded | noted => exact ⟨rfl, rfl⟩

theorem filing_updateLocation (m : Moment) (d : Desk) (i : String) (r : LocationRequest) :
    Filing m d (d.updateLocation m i r).2 (r.filing? m (d.updateLocation m i r).1) := by
  unfold updateLocation
  rcases checked_cases d (r.check i) _ with ⟨f, hf⟩ | ⟨location, hcheck, hok⟩
  · rw [hf]
    exact .nothing ⟨rfl, rfl⟩
  rw [hok]
  rcases checked_cases d (d.get i) _ with ⟨f, hf⟩ | ⟨o, hget, hok⟩
  · rw [hf]
    exact .nothing ⟨rfl, rfl⟩
  rw [hok]
  split
  · next hheld =>
    have hvalid : location.coordinates.isValid = true := by
      obtain ⟨_, -, hcheck⟩ := bind_eq_ok hcheck
      obtain ⟨_, -, hcheck⟩ := bind_eq_ok hcheck
      unfold requireLocation at hcheck
      split at hcheck
      · cases hcheck
      · split at hcheck
        · next hvalid =>
          cases hcheck
          exact hvalid
        · cases hcheck
    exact .reported i o _ (store_get_of_get d i o hget) hheld rfl hvalid rfl
  · exact .nothing ⟨rfl, rfl⟩

theorem filing_accept (m : Moment) (d : Desk) (i : String) (r : AcceptRequest) :
    Filing m d (d.accept m i r).2 (r.filing? m (m.newId d.drawn) (d.accept m i r).1) := by
  unfold accept
  rcases checked_cases d (requireText "order ID" i) _ with ⟨f, hf⟩ | ⟨_, -, hok⟩
  · rw [hf]
    exact .nothing ⟨rfl, rfl⟩
  rw [hok]
  rcases checked_cases d (requireText "provider ID" r.providerId) _ with ⟨f, hf⟩ | ⟨_, -, hok⟩
  · rw [hf]
    exact .nothing ⟨rfl, rfl⟩
  rw [hok]
  rcases revise_cases d i _ with ⟨f, hf⟩ | ⟨o, new, hget, hchange, hrevised⟩
  · rw [hf]
    exact .nothing ⟨rfl, rfl⟩
  rw [hrevised]
  obtain ⟨_, hheld, hchange⟩ := bind_eq_ok hchange
  cases hchange
  have hheld : o.isAssignedTo r.providerId = true := o.isAssignedTo_of_require i _ hheld
  generalize hnew : o.pushStatus m.now .providerAccepted r.providerId
    "Provider accepted the order" = new
  generalize hd' : submit { d with store := d.store.replace i o.providerId new } new = d'
  have hstore : d'.store = d.store.replace i o.providerId new := by
    rw [← hd', submit_store]
  have hdrawn : d'.drawn = d.drawn := by
    rw [← hd', submit_drawn]
  show Filing m d (d'.noteLocation m new r.providerId r.currentLocation)
    (r.filing? m (m.newId d.drawn) (.ok new))
  unfold noteLocation AcceptRequest.filing?
  cases hlocation : r.currentLocation.filter (·.coordinates.isValid) with
  | none =>
    have hsame : d.store.SameReports d'.store := by
      rw [hstore]
      exact ⟨rfl, rfl⟩
    exact .nothing hsame
  | some l =>
    have hvalid : l.coordinates.isValid = true := (Option.filter_eq_some_iff.1 hlocation).2
    have horder : new.id = o.id := by
      rw [← hnew]
      rfl
    refine .accepted i o _ hget hheld horder hvalid ?_
    rw [hnew, ← hstore, ← hdrawn]
    rfl

/-- What every request files. -/
theorem filing_carryOut (m : Moment) (d : Desk) (r : DeskRequest) :
    Filing m d (d.carryOut m r).2 (d.filing? m r) := by
  cases r with
  | create r => exact .nothing (sameReports_create d m r)
  | updateStatus i r =>
    exact .nothing (sameReports_checked d _ _ fun _ => sameReports_revise d i _)
  | cancel i r => exact .nothing (sameReports_checked d _ _ fun _ => sameReports_revise d i _)
  | assign i r => exact .nothing (sameReports_assign d m i r)
  | accept i r => exact filing_accept m d i r
  | reject i r => exact .nothing (sameReports_reject d m i r)
  | updateLocation i r => exact filing_updateLocation m d i r

end Desk

/-! ## The log of a run -/

namespace StoreEvent

variable {ε : Type} (lift : StoreError → ε)

theorem files_filing (m : Moment) (d d' : Desk) (filed? : Option PositionReport)
    (log : List PositionReport) (h : Desk.Filing m d d' filed?) (hs : d.store.Files log)
    (room : (log ++ filed?.toList).length < 2 ^ 64) :
    d'.store.Files (log ++ filed?.toList) := by
  have hmore (r : PositionReport) (room : (log ++ [r]).length < 2 ^ 64) (s : OrderStore)
      (hsame : d.store.SameReports s) : (s.insertReport r).Files (log ++ [r]) := by
    rw [List.length_append] at room
    exact OrderStore.files_insertReport s log r
      (OrderStore.files_of_eq d.store s log hs hsame.1 hsame.2) room
  cases h with
  | nothing reports =>
    rw [Option.toList_none, List.append_nil]
    exact OrderStore.files_of_eq d.store d'.store log hs reports.1 reports.2
  | reported i o report _ _ _ _ store =>
    rw [store]
    exact hmore report room d.store ⟨rfl, rfl⟩
  | accepted i o report _ _ _ _ store =>
    rw [store]
    exact hmore report room _ ⟨rfl, rfl⟩

/-- What is done to orders leaves the reports alone. -/
theorem sameReports_action (s : OrderStore) (a : StoreAction ε) :
    s.SameReports (a.apply lift s) := by
  have hupdate {δ : Type} (lift : StoreError → δ) (i : String) (change : Order → Except δ Order) :
      s.SameReports (((s.update lift i change).toOption.map (·.2)).getD s) := by
    cases h : s.update lift i change with
    | error e => exact ⟨rfl, rfl⟩
    | ok r =>
      obtain ⟨old, -, -, ht⟩ := OrderStore.update_eq_ok s r.2 lift i change r.1 h
      show s.SameReports r.2
      rw [ht]
      exact ⟨rfl, rfl⟩
  cases a with
  | insert o =>
    show s.SameReports ((s.insert o).toOption.getD s)
    unfold OrderStore.insert
    split <;> exact ⟨rfl, rfl⟩
  | update i change => exact hupdate lift i change
  | setLedgerRef i txRef => exact hupdate id i _

/-- The store holds the log of its events: what one event files comes behind the rest. -/
theorem files_apply (d : Desk) (e : StoreEvent ε) (log : List PositionReport)
    (hs : d.store.Files log) (room : (log ++ (e.filing? d).toList).length < 2 ^ 64) :
    (e.apply lift d).store.Files (log ++ (e.filing? d).toList) := by
  have hsame (t : OrderStore) (h : d.store.SameReports t) : t.Files (log ++ []) := by
    rw [List.append_nil]
    exact OrderStore.files_of_eq d.store t log hs h.1 h.2
  cases e with
  | desk s =>
    obtain ⟨m, event⟩ := s
    cases event with
    | request r => exact files_filing m d _ _ log (d.filing_carryOut m r) hs room
    | rematch o rejectedBy => exact hsame _ (d.sameReports_rematch m o rejectedBy)
    | post => exact hsame _ (d.sameReports_post m)
    | shut => exact hsame _ ⟨rfl, rfl⟩
  | action a => exact hsame _ (sameReports_action lift d.store a)
  | report r =>
    have hroom : log.length + 1 < 2 ^ 64 := by
      rw [List.length_append] at room
      exact room
    exact OrderStore.files_insertReport d.store log r hs hroom

theorem files_foldl (d : Desk) (events : List (StoreEvent ε)) (before : List PositionReport)
    (hs : d.store.Files before) (room : (before ++ log lift d events).length < 2 ^ 64) :
    (events.foldl (apply lift) d).store.Files (before ++ log lift d events) := by
  induction events generalizing d before with
  | nil =>
    rw [log, List.append_nil]
    exact hs
  | cons e events ih =>
    rw [log, ← List.append_assoc] at room ⊢
    refine ih (e.apply lift d) _ (files_apply lift d e before hs ?_) room
    rw [List.length_append] at room
    omega

/-- The store holds the log of its run. -/
theorem files_run (capacity : Nat) (events : List (StoreEvent ε))
    (room : (log lift (.ofCapacity capacity) events).length < 2 ^ 64) :
    (run lift capacity events).store.Files (log lift (.ofCapacity capacity) events) :=
  files_foldl lift (.ofCapacity capacity) events [] OrderStore.files_empty room

theorem run_append (capacity : Nat) (events more : List (StoreEvent ε)) :
    run lift capacity (events ++ more) = more.foldl (apply lift) (run lift capacity events) :=
  List.foldl_append

theorem run_desk (capacity : Nat) (steps : List DeskStep) :
    run lift capacity (steps.map .desk) = Desk.run capacity steps := by
  unfold run
  rw [List.foldl_map]
  rfl

/-- A report in the log of a run of the desk alone was filed by one of its requests. -/
theorem mem_log_desk (capacity : Nat) (steps : List DeskStep) (r : PositionReport)
    (h : r ∈ log lift (.ofCapacity capacity) (steps.map .desk)) :
    ∃ before s after request, steps = before ++ s :: after ∧ s.event = .request request ∧
      (Desk.run capacity before).filing? s.moment request = some r := by
  induction steps using List.reverseRecOn with
  | nil => cases h
  | append_singleton steps s ih =>
    rw [List.map_append, log_append] at h
    rcases List.mem_append.1 h with h | h
    · obtain ⟨before, s', after, request, rfl, hevent, hfiled⟩ := ih h
      exact ⟨before, s', after ++ [s], request, by simp, hevent, hfiled⟩
    · rw [show (steps.map desk).foldl (apply lift) (.ofCapacity capacity) = Desk.run capacity steps
        from run_desk lift capacity steps] at h
      have hfiled : r ∈ ((desk s : StoreEvent ε).filing? (Desk.run capacity steps)).toList := by
        simpa only [List.map_cons, List.map_nil, log, List.append_nil] using h
      cases hevent : s.event with
      | request request =>
        simp only [filing?, hevent, Option.mem_toList] at hfiled
        exact ⟨steps, s, [], request, rfl, hevent, hfiled⟩
      | rematch | post | shut =>
        simp only [filing?, hevent, Option.mem_toList] at hfiled
        cases hfiled

end StoreEvent

/-! ## Who reports -/

/-- The order that a report is about is stored, and assigned to the provider of the report. -/
def PositionReport.Vouched (r : PositionReport) (s : OrderStore) : Prop :=
  ∃ o, s.get r.orderId = .ok (some o) ∧ o.providerId = some r.providerId

namespace Desk

/-- The provider of a report is assigned to its order, before the report is filed and after. -/
theorem vouched_filing (m : Moment) (d d' : Desk) (r : PositionReport)
    (h : Filing m d d' (some r)) (hindexed : d.store.Indexed) (hread : d.store.Readable) :
    r.coordinates.isValid = true ∧ r.Vouched d.store ∧ r.Vouched d'.store := by
  cases h with
  | reported i o _ found held order valid store =>
    have hid : r.orderId = i := order.trans (id_of_get d.store hindexed i o found)
    have hheld := o.providerId_of_isAssignedTo r.providerId held
    have hget : d'.store.get i = .ok (some o) := by
      rw [store]
      exact found
    unfold PositionReport.Vouched
    rw [hid]
    exact ⟨valid, ⟨o, found, hheld⟩, o, hget, hheld⟩
  | accepted i o _ found held order valid store =>
    have hid : r.orderId = i := order.trans (id_of_get d.store hindexed i o found)
    have hheld := o.providerId_of_isAssignedTo r.providerId held
    have hmoves : o.MovesOn (o.pushStatus m.now .providerAccepted r.providerId
        "Provider accepted the order") m.now := ⟨_, _, _, o.providerId, rfl⟩
    obtain ⟨new, hreread, -⟩ := Order.reread?_isFinite _
      (o.isFinite_movesOn _ m.now (OrderStore.isFinite_of_get _ hread i o found) hmoves)
    have hget : d'.store.get i = .ok (some new) := by
      rw [store]
      exact OrderStore.get_of_reread? _ i _ new
        (OrderStore.row_write d.store _ i _ rfl).1 hreread
    unfold PositionReport.Vouched
    rw [hid]
    refine ⟨valid, ⟨o, found, hheld⟩, new, hget, ?_⟩
    rw [reread?_order _ _ hreread]
    exact hheld

theorem vouched_run (capacity : Nat) (before after : List DeskStep) (s : DeskStep)
    (request : DeskRequest) (r : PositionReport) (hevent : s.event = .request request)
    (hfiled : (run capacity before).filing? s.moment request = some r) :
    r.coordinates.isValid = true ∧ r.Vouched (run capacity before).store ∧
      r.Vouched (run capacity (before ++ [s])).store ∧
      (run capacity (before ++ s :: after)).store.orders.contains r.orderId = true := by
  have hfiling := filing_carryOut s.moment (run capacity before) request
  rw [hfiled] at hfiling
  obtain ⟨hvalid, hbefore, hafter⟩ := vouched_filing s.moment _ _ r hfiling
    (indexed_run capacity before) (readable_run capacity before)
  have hstep : (run capacity (before ++ [s])) = ((run capacity before).carryOut s.moment
      request).2 := by
    rw [run_append]
    unfold Desk.after
    rw [hevent]
  rw [hstep]
  refine ⟨hvalid, hbefore, hafter, ?_⟩
  obtain ⟨o, hget, -⟩ := hbefore
  exact contains_run_append capacity before (s :: after) r.orderId
    (OrderStore.contains_of_get _ _ o hget)

/-- Position reports are a log, whatever happens to the desk or to its store alone. The history of
an order reads the texts of its reports from the newest on, and finds just what was filed if those
texts are read as they were written; the newest report is the first of the history; and what is
filed stays. What the desk itself files is about a place on the globe and a stored order, and comes
from the provider that the order is assigned to. -/
theorem positions_logged {ε : Type} (lift : StoreError → ε) (capacity : Nat)
    (events : List (StoreEvent ε))
    (room : (StoreEvent.log lift (ofCapacity capacity) events).length < 2 ^ 64) :
    let s := (StoreEvent.run lift capacity events).store
    let log := StoreEvent.log lift (ofCapacity capacity) events
    (∀ i, s.reportRows i = (about i log).reverse.map Coded.render) ∧
      (∀ i n reports, s.reportHistory i n = .ok reports ↔
        ((about i log).reverse.take n).mapM Rereads.reread? = some reports) ∧
      (∀ i n, s.reportHistory i n = .ok ((about i log).reverse.take n) ↔
        ∀ r ∈ (about i log).reverse.take n, Rereads.reread? r = some r) ∧
      (∀ i, s.latestReport i = (s.reportHistory i 1).map List.head?) ∧
      (∀ i n reports, s.reportHistory i (n + 1) = .ok reports →
        s.latestReport i = .ok reports.head?) ∧
      (∀ more, (StoreEvent.log lift (ofCapacity capacity) (events ++ more)).length < 2 ^ 64 →
        ∀ i, s.reports.under i <+:
          (StoreEvent.run lift capacity (events ++ more)).store.reports.under i) ∧
      (∀ steps, events = steps.map .desk → ∀ r ∈ log,
        r.coordinates.isValid = true ∧ s.orders.contains r.orderId = true ∧
        ∃ before step after, steps = before ++ step :: after ∧
          (StoreEvent.desk step : StoreEvent ε).filing? (run capacity before) = some r ∧
          r.Vouched (run capacity before).store ∧
          r.Vouched (run capacity (before ++ [step])).store) := by
  intro s log
  have hs : s.Files log := StoreEvent.files_run lift capacity events room
  refine ⟨s.reportRows_of_files log hs, ?_, ?_, s.latestReport_eq_head?,
    s.latestReport_of_history, ?_, ?_⟩
  · intro i n reports
    rw [eq_ok_iff, s.reportHistory_of_files log hs]
  · intro i n
    rw [eq_ok_iff, s.reportHistory_of_files log hs, mapM_reread?_eq_self]
  · intro more hroom i
    rw [hs.under, (StoreEvent.files_run lift capacity (events ++ more) hroom).under]
    apply OrderStore.filed_prefix
    rw [StoreEvent.log_append]
    exact List.prefix_append _ _
  · rintro steps rfl r hr
    obtain ⟨before, step, after, request, rfl, hevent, hfiled⟩ :=
      StoreEvent.mem_log_desk lift capacity steps r hr
    obtain ⟨hvalid, hbefore, hafter, hstored⟩ :=
      vouched_run capacity before after step request r hevent hfiled
    have hrun : s = (run capacity (before ++ step :: after)).store := by
      show (StoreEvent.run lift capacity _).store = _
      rw [StoreEvent.run_desk]
    have hfiles : (StoreEvent.desk step : StoreEvent ε).filing? (run capacity before) = some r := by
      simp only [StoreEvent.filing?, hevent]
      exact hfiled
    rw [hrun]
    exact ⟨hvalid, hstored, before, step, after, rfl, hfiles, hbefore, hafter⟩

/-! ## Positions of an order -/

/-- What comes of a position that the assigned provider of an order tells. -/
theorem updateLocation_of_get (d : Desk) (m : Moment) (i : String) (r : LocationRequest)
    (l : Location) (o : Order) (hcheck : r.check i = .ok l) (hget : d.get i = .ok o)
    (hheld : o.isAssignedTo r.providerId = true) :
    d.updateLocation m i r =
      (.ok ⟨o.id, m.newId d.drawn, l, Travel.minutes l.coordinates o.etaTarget.coordinates⟩,
        { d with
          drawn := d.drawn + 1
          store := d.store.insertReport
            ⟨m.newId d.drawn, o.id, r.providerId, l.latitude, l.longitude, m.now⟩ }) := by
  unfold updateLocation
  rw [hcheck, hget]
  show (if o.isAssignedTo r.providerId then _ else _) = _
  rw [if_pos hheld]

/-- The provider of the assigned order tells where it is. -/
def whereabouts (c : Coordinates) : LocationRequest := ⟨"p-1", some (.ofPoint c)⟩

def tellingAt (m : Moment) (c : Coordinates) : DeskStep :=
  ⟨m, .request (.updateLocation "o-1" (whereabouts c))⟩

def telling : DeskStep := tellingAt quiet ⟨9.754723111570643, 2⟩

/-- It tells so again, from elsewhere and somewhat later. -/
def tellingAgain : DeskStep :=
  tellingAt { quiet with now := 60000, later := 60000, newId := fun _ => "l-2" } ⟨10, 2⟩

/-- The reports that are filed. -/
def toldReport : PositionReport := ⟨"o-1", "o-1", "p-1", 9.754723111570643, 2, 0⟩

def toldAgain : PositionReport := ⟨"l-2", "o-1", "p-1", 10, 2, 60000⟩

theorem check_whereabouts (c : Coordinates) (hc : c.isValid = true) :
    (whereabouts c).check "o-1" = .ok (.ofPoint c) := by
  have hrequired : requireLocation "location" (some (.ofPoint c)) = .ok (.ofPoint c) := if_pos hc
  unfold LocationRequest.check requireText
  rw [isBlank_names.1, show Text.isBlank (whereabouts c).providerId = false from isBlank_names.2]
  exact hrequired

/-- Telling files a report, and leaves the order as it is found. -/
theorem files_tellingAt (d : Desk) (m : Moment) (c : Coordinates)
    (hget : d.store.get "o-1" = .ok (some assignedOrder)) (hc : c.isValid = true) :
    d.filing? m (.updateLocation "o-1" (whereabouts c)) =
        some ⟨m.newId d.drawn, "o-1", "p-1", c.latitude, c.longitude, m.now⟩ ∧
      (d.after (tellingAt m c)).store.get "o-1" = .ok (some assignedOrder) := by
  have hheld : assignedOrder.isAssignedTo "p-1" = true := by decide
  have hanswer := updateLocation_of_get d m "o-1" _ _ assignedOrder (check_whereabouts c hc)
    (get_of_store_get d "o-1" _ isBlank_names.1 hget) hheld
  constructor
  · show (whereabouts c).filing? m (d.updateLocation m "o-1" (whereabouts c)).1 = _
    rw [hanswer]
    rfl
  · show (d.updateLocation m "o-1" (whereabouts c)).2.store.get "o-1" = _
    rw [hanswer]
    exact (OrderStore.get_insertReport _ _ _).trans hget

theorem get_telling :
    (run 1 [opening, assigning, telling]).store.get "o-1" = .ok (some assignedOrder) := by
  have hget := get_assigning 1
  rw [show [opening, assigning, telling] = [opening, assigning] ++ [telling] from rfl, run_append]
  generalize run 1 [opening, assigning] = d at hget
  exact (files_tellingAt d quiet _ hget (by decide)).2

/-- What one more step files comes last in the log. -/
theorem log_append_desk {ε : Type} (lift : StoreError → ε) (capacity : Nat)
    (steps : List DeskStep) (s : DeskStep) :
    StoreEvent.log lift (ofCapacity capacity) ((steps ++ [s]).map .desk) =
      StoreEvent.log lift (ofCapacity capacity) (steps.map .desk) ++
        ((StoreEvent.desk s : StoreEvent ε).filing? (run capacity steps)).toList := by
  have hrun := StoreEvent.run_desk lift capacity steps
  unfold StoreEvent.run at hrun
  rw [List.map_append, StoreEvent.log_append, hrun]
  exact congrArg _ (List.append_nil _)

theorem log_telling (lift : StoreError → Failure) :
    StoreEvent.log lift (ofCapacity 1) ([opening, assigning, telling].map .desk) =
      [toldReport] := by
  have hfiled := (files_tellingAt _ quiet ⟨9.754723111570643, 2⟩ (get_assigning 1)
    (by decide)).1
  rw [show [opening, assigning, telling] = [opening, assigning] ++ [telling] from rfl,
    log_append_desk]
  show [] ++ (filing? (run 1 [opening, assigning]) quiet (.updateLocation "o-1" _)).toList = _
  rw [hfiled]
  rfl

/-- An order is opened and assigned, and its provider tells twice where it is. -/
def toldTwice : List DeskStep := [opening, assigning, telling] ++ [tellingAgain]

theorem get_toldTwice : (run 1 toldTwice).store.get "o-1" = .ok (some assignedOrder) := by
  have hget := get_telling
  rw [toldTwice, run_append]
  generalize run 1 [opening, assigning, telling] = d at hget
  exact (files_tellingAt d _ _ hget (by decide)).2

theorem log_toldTwice (lift : StoreError → Failure) :
    StoreEvent.log lift (ofCapacity 1) (toldTwice.map .desk) = [toldReport, toldAgain] := by
  have hfiled := (files_tellingAt _ tellingAgain.moment ⟨10, 2⟩ get_telling (by decide)).1
  rw [toldTwice, log_append_desk, log_telling]
  show [toldReport] ++ (filing? (run 1 [opening, assigning, telling]) tellingAgain.moment
    (.updateLocation "o-1" _)).toList = _
  rw [hfiled]
  rfl

theorem reread?_toldAgain : Rereads.reread? toldAgain = some toldAgain := by decide

/-- Both reports are kept, on the globe and about a stored order, and the second is the newest. -/
theorem positions_logged_toldTwice :
    let s := (run 1 toldTwice).store
    (StoreEvent.log Failure.storage (ofCapacity 1) (toldTwice.map .desk)).length < 2 ^ 64 ∧
      s.reportRows "o-1" = [Coded.render toldAgain, Coded.render toldReport] ∧
      s.latestReport "o-1" = .ok (some toldAgain) ∧
      ∀ r ∈ [toldReport, toldAgain],
        r.coordinates.isValid = true ∧ s.orders.contains r.orderId = true := by
  have hlog := log_toldTwice Failure.storage
  have hroom :
      (StoreEvent.log Failure.storage (ofCapacity 1) (toldTwice.map .desk)).length < 2 ^ 64 := by
    rw [hlog]
    decide
  obtain ⟨hrows, -, hhistory, -, hlatest, -, hvouched⟩ :=
    positions_logged Failure.storage 1 (toldTwice.map .desk) hroom
  rw [hlog, StoreEvent.run_desk] at hrows hhistory hvouched
  rw [StoreEvent.run_desk] at hlatest
  have hnewest : (run 1 toldTwice).store.reportHistory "o-1" 1 = .ok [toldAgain] :=
    (hhistory "o-1" 1).2 fun r hr => by
      rw [List.mem_singleton.1 hr]
      exact reread?_toldAgain
  refine ⟨hroom, hrows "o-1", hlatest "o-1" 0 _ hnewest, fun r hr => ?_⟩
  obtain ⟨hvalid, hstored, -⟩ := hvouched _ rfl r hr
  exact ⟨hvalid, hstored⟩

/-! ## A position that drifts -/

theorem reread?_toldReport :
    Rereads.reread? toldReport = some { toldReport with latitude := 9.754723111570645 } := by
  decide +kernel

/-- The history of an order tells another position than the one that was reported. -/
theorem position_drifts :
    let s := (run 1 [opening, assigning, telling]).store
    StoreEvent.log Failure.storage (ofCapacity 1) ([opening, assigning, telling].map .desk) =
        [toldReport] ∧
      s.reportHistory "o-1" 1 = .ok [{ toldReport with latitude := 9.754723111570645 }] ∧
      s.reportHistory "o-1" 1 ≠ .ok [toldReport] := by
  intro s
  have hlog := log_telling Failure.storage
  have hfiles : s.Files [toldReport] := by
    have h := StoreEvent.files_run Failure.storage 1 ([opening, assigning, telling].map .desk)
      (by rw [hlog]; decide)
    rwa [hlog, StoreEvent.run_desk] at h
  have hdrift : (9.754723111570645 : Float) ≠ 9.754723111570643 := by decide
  have hhistory : s.reportHistory "o-1" 1 =
      .ok [{ toldReport with latitude := 9.754723111570645 }] := by
    rw [eq_ok_iff, s.reportHistory_of_files _ hfiles]
    show [toldReport].mapM Rereads.reread? = _
    rw [List.mapM_cons, reread?_toldReport]
    rfl
  refine ⟨hlog, hhistory, fun h => hdrift ?_⟩
  rw [hhistory] at h
  exact congrArg PositionReport.latitude (List.cons.inj (Except.ok.inj h)).1

end Desk

end OrderDispatch
