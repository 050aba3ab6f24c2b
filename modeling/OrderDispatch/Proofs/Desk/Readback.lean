import Mathlib
import OrderDispatch.Proofs.Desk.Positions
import OrderDispatch.Proofs.Desk.WriteBehind
import OrderDispatch.Proofs.Store.Texts

/-!
# Whatever is stored can be read

The desk writes orders with finite figures, reports with valid coordinates, and entries of the
ledger, and nothing else goes into a row. So the rows are texts of what can be read back, whatever
was done before (`allTexts_run`). Then nothing that is asked of the desk fails for a row that cannot
be read (`ReadsAll`), and an order that is answered is found again right away: it has just been
written, and what is found is what its text is read as.

    d.AllTexts → d.ReadsAll                                            (readsAll_of_allTexts)
    a request is answered with o → the text of o is stored under o.id  (stores_carryOut)
-/

namespace OrderDispatch

open Binary64 (isFinite ReadsBack)

/-! ## Failures to read -/

/-- A row of the order store could not be read. -/
def StoreError.isSerialization : StoreError → Bool
  | serialization _ => true
  | database _ | orderNotFound _ | orderExists _ => false

/-- A row of the ledger could not be read. -/
def LedgerError.isSerialization : LedgerError → Bool
  | serialization _ => true
  | database _ | unavailable _ => false

/-- An operation failed for a row that could not be read. -/
def Failure.isSerialization : Failure → Bool
  | storage e => e.isSerialization
  | ledger e => e.isSerialization
  | _ => false

/-- No order was opened for a row that could not be read. -/
def OpenError.isSerialization : OpenError → Bool
  | refused f => f.isSerialization
  | overflow _ => false

/-- This may fail, but not for a row that cannot be read. -/
def Reads {α : Type} (answer : Except Failure α) : Prop :=
  ∀ f, answer = .error f → f.isSerialization = false

section Reads

variable {α β : Type}

theorem reads_ok (a : α) : Reads (.ok a) := by
  rintro f ⟨⟩

theorem reads_error (f : Failure) (h : f.isSerialization = false) :
    Reads (.error f : Except Failure α) := by
  rintro _ ⟨⟩
  exact h

theorem reads_bind (x : Except Failure α) (next : α → Except Failure β) (hx : Reads x)
    (hnext : ∀ a, Reads (next a)) : Reads (x >>= next) := by
  cases x with
  | error f => exact reads_error f (hx f rfl)
  | ok a => exact hnext a

theorem reads_forM (check : α → Except Failure Unit) (h : ∀ a, Reads (check a)) (as : List α) :
    Reads (as.forM check) := by
  induction as with
  | nil => exact reads_ok ()
  | cons a as ih => exact reads_bind _ _ (h a) fun _ => ih

theorem reads_storage (x : Except StoreError α) (h : ∃ a, x = .ok a) :
    Reads (x.mapError .storage) := by
  obtain ⟨a, rfl⟩ := h
  exact reads_ok a

/-- The answer as it is passed on, about the order alone. -/
theorem isSerialization_refused (x : Except Failure α) (id : α → String) (hx : Reads x)
    (e : OpenError) (h : (x.map id).mapError OpenError.refused = .error e) :
    e.isSerialization = false := by
  cases x with
  | error f =>
    cases h
    exact hx f rfl
  | ok a => cases h

end Reads

/-! ## Checks -/

theorem reads_requireText (field value : String) : Reads (requireText field value) := by
  unfold requireText
  split
  · exact reads_error _ rfl
  · exact reads_ok _

theorem reads_requireLocation (field : String) (l : Option Location) :
    Reads (requireLocation field l) := by
  unfold requireLocation
  split
  · exact reads_error _ rfl
  · split
    · exact reads_ok _
    · exact reads_error _ rfl

theorem CreateRequest.reads_check (r : CreateRequest) : Reads r.check := by
  refine reads_bind _ _ (reads_requireText _ _) fun _ => ?_
  refine reads_bind _ _ (reads_requireLocation _ _) fun _ => ?_
  refine reads_bind _ _ (reads_requireLocation _ _) fun _ => ?_
  refine reads_bind _ _ (reads_forM _ (fun item => ?_) r.items) fun _ => reads_ok _
  cases item.check with
  | error e => exact reads_error (.invalidArgument e.message) rfl
  | ok u => exact reads_ok u

theorem LocationRequest.reads_check (r : LocationRequest) (i : String) : Reads (r.check i) :=
  reads_bind _ _ (reads_requireText _ _) fun _ =>
    reads_bind _ _ (reads_requireText _ _) fun _ => reads_requireLocation _ _

theorem Order.reads_requireAssigned (o : Order) (i providerId : String) :
    Reads (o.requireAssigned i providerId) := by
  unfold requireAssigned
  split
  · exact reads_ok ()
  · exact reads_error _ rfl

/-! ## Requests and queries -/

namespace Desk

/-- Every row at the desk is the text of something that can be read back. -/
structure AllTexts (d : Desk) : Prop where
  store : d.store.AllTexts
  ledger : d.ledger.AllTexts

/-- Every row can be read, and whatever is done at the desk, or in the store and the ledger behind
it, does not fail for a row. -/
structure ReadsAll (d : Desk) : Prop where
  orderRow : ∀ row ∈ d.store.orders.values, ∃ o : Order, Coded.read row = .ok o
  reportRow : ∀ row ∈ d.store.reports.values, ∃ r : PositionReport, Coded.read row = .ok r
  ledgerRow : ∀ row ∈ d.ledger.entries.values, ∃ e : LedgerEntry, Coded.read row = .ok e
  found : ∀ i, ∃ found, d.store.get i = .ok found
  listed : ∀ x key status offset limit, ∃ page, d.store.list x key status offset limit = .ok page
  updated : ∀ {ε : Type} (lift : StoreError → ε) (i : String) (change : Order → Except ε Order)
    (e : ε), d.store.update lift i change = .error e →
      e = lift (.orderNotFound i) ∨ ∃ o, d.store.get i = .ok (some o) ∧ change o = .error e
  latest : ∀ i, ∃ report, d.store.latestReport i = .ok report
  reports : ∀ i n, ∃ reports, d.store.reportHistory i n = .ok reports
  recorded : ∀ job now, ∃ recorded, d.ledger.record job now = .ok recorded
  referred : ∀ txRef, ∃ found, d.ledger.getByRef txRef = .ok found
  verified : ∀ i txRef, ∃ answer, d.ledger.verify i txRef = .ok answer
  history : ∀ i, ∃ es, d.ledger.history i = .ok es
  chain : ∃ report, d.ledger.verifyChain = .ok report
  carryOut : ∀ m r e, (d.carryOut m r).1 = .error e → e.isSerialization = false
  get : ∀ i, Reads (d.get i)
  listByUser : ∀ userId q, Reads (d.listByUser userId q)
  listByProvider : ∀ providerId q, Reads (d.listByProvider providerId q)
  locationHistory : ∀ i q, Reads (d.locationHistory i q)
  verifyLedger : ∀ m i, Reads (d.verifyLedger m i)
  ledgerHistory : ∀ m i, Reads (d.ledgerHistory m i)

section AllTexts

variable (d : Desk)

theorem reads_checked {α β : Type} (check : Except Failure α)
    (next : α → Except Failure β × Desk) (hcheck : Reads check) (hnext : ∀ a, Reads (next a).1) :
    Reads (d.checked check next).1 := by
  cases check with
  | error f => exact reads_error f (hcheck f rfl)
  | ok a => exact hnext a

theorem reads_askLedger {α : Type} (m : Moment) (answer : Except LedgerError α)
    (h : ∃ a, answer = .ok a) : Reads (askLedger m answer) := by
  obtain ⟨a, rfl⟩ := h
  unfold askLedger
  cases m.ledgerOutage with
  | none => exact reads_ok a
  | some detail => exact reads_error _ rfl

theorem isSerialization_create (m : Moment) (r : CreateRequest) (e : OpenError)
    (h : (d.create m r).1 = .error e) : e.isSerialization = false := by
  unfold create at h
  cases hcheck : r.check with
  | error f =>
    rw [hcheck] at h
    cases h
    exact r.reads_check f hcheck
  | ok places =>
    rw [hcheck] at h
    simp only at h
    split at h
    · cases h
      rfl
    · simp only [draw] at h
      -- A drawn identifier may have been drawn before.
      unfold OrderStore.insert at h
      split at h
      · next hexists =>
        split at hexists
        · cases hexists
          cases h
          rfl
        · cases hexists
      · cases h

variable (hd : d.AllTexts)

include hd

theorem reads_get (i : String) : Reads (d.get i) := by
  refine reads_bind _ _ (reads_requireText _ _) fun _ => ?_
  obtain ⟨found, hfound⟩ := OrderStore.exists_get d.store hd.store i
  rw [hfound]
  cases found with
  | none => exact reads_error _ rfl
  | some o => exact reads_ok o

theorem reads_list (x : OrderIndex) (key : String) (q : ListQuery) : Reads (d.list x key q) :=
  reads_bind _ _ (reads_storage _ (OrderStore.exists_list d.store hd.store x key _ _ _))
    fun _ => reads_ok _

theorem reads_locationHistory (i : String) (q : LocationQuery) :
    Reads (d.locationHistory i q) :=
  reads_bind _ _ (reads_get d hd i) fun o =>
    reads_bind _ _ (reads_storage _ (OrderStore.exists_reportHistory d.store hd.store o.id _))
      fun _ => reads_ok _

theorem reads_verifyLedger (m : Moment) (i : String) : Reads (d.verifyLedger m i) := by
  refine reads_bind _ _ (reads_get d hd i) fun o => ?_
  cases o.ledgerRef with
  | none => exact reads_ok _
  | some txRef =>
    exact reads_bind _ _
      (reads_askLedger m _ (Ledger.exists_verify d.ledger hd.ledger o.id txRef)) fun _ => reads_ok _

theorem reads_ledgerHistory (m : Moment) (i : String) : Reads (d.ledgerHistory m i) :=
  reads_bind _ _ (reads_get d hd i) fun o =>
    reads_askLedger m _ (Ledger.exists_history d.ledger hd.ledger o.id)

theorem reads_revise (i : String) (change : Order → Except Failure Order)
    (hchange : ∀ o, Reads (change o)) : Reads (d.revise i change).1 := by
  unfold revise
  cases h : d.store.update .storage i change with
  | error f =>
    rcases OrderStore.update_eq_error d.store hd.store _ i change f h with rfl | ⟨o, -, ho⟩
    · exact reads_error _ rfl
    · exact reads_error f (hchange o f ho)
  | ok r => exact reads_ok _

theorem reads_assign (m : Moment) (i : String) (r : AssignRequest) :
    Reads (d.assign m i r).1 := by
  refine reads_checked d _ _ (reads_get d hd i) fun o => ?_
  split
  · exact reads_revise d hd i _ fun o => reads_ok _
  · unfold assignBest
    generalize Matching.best m.directory o offeredProviders = found
    obtain ⟨searches, result⟩ := found
    match result with
    | .error _ => exact reads_error _ rfl
    | .ok [] => exact reads_error _ rfl
    | .ok (best :: others) =>
      have hd' : ((d.noteSearches searches).sendOffers m o (best :: others)).AllTexts :=
        ⟨hd.store, hd.ledger⟩
      exact reads_revise _ hd' i _ fun o => reads_ok _

theorem reads_accept (m : Moment) (i : String) (r : AcceptRequest) :
    Reads (d.accept m i r).1 := by
  refine reads_checked d _ _ (reads_requireText _ _) fun _ => ?_
  refine reads_checked d _ _ (reads_requireText _ _) fun _ => ?_
  have hrevised := reads_revise d hd i
    (fun o => do
      o.requireAssigned i r.providerId
      return o.pushStatus m.now .providerAccepted r.providerId "Provider accepted the order")
    fun o => reads_bind _ _ (o.reads_requireAssigned i _) fun _ => reads_ok _
  generalize d.revise i _ = answer at hrevised
  obtain ⟨answer, d'⟩ := answer
  cases answer with
  | error f => exact hrevised
  | ok o => exact reads_ok o

theorem reads_reject (m : Moment) (i : String) (r : RejectRequest) :
    Reads (d.reject m i r).1 := by
  refine reads_checked d _ _ (reads_requireText _ _) fun _ => ?_
  refine reads_checked d _ _ (reads_requireText _ _) fun _ => ?_
  have hrevised := reads_revise d hd i (rejected m.now i r) fun o =>
    reads_bind _ _ (o.reads_requireAssigned i _) fun _ => reads_ok _
  generalize d.revise i (rejected m.now i r) = answer at hrevised
  obtain ⟨answer, d'⟩ := answer
  cases answer with
  | error f => exact hrevised
  | ok o => exact reads_ok o

theorem reads_updateLocation (m : Moment) (i : String) (r : LocationRequest) :
    Reads (d.updateLocation m i r).1 := by
  refine reads_checked d _ _ (r.reads_check i) fun _ => ?_
  refine reads_checked d _ _ (reads_get d hd i) fun _ => ?_
  split
  · exact reads_ok _
  · exact reads_error _ rfl

theorem isSerialization_carryOut (m : Moment) (r : DeskRequest) (e : OpenError)
    (h : (d.carryOut m r).1 = .error e) : e.isSerialization = false := by
  cases r with
  | create r =>
    change (d.create m r).1.map (·.id) = .error e at h
    cases hcreate : (d.create m r).1 with
    | error e' =>
      rw [hcreate] at h
      cases h
      exact isSerialization_create d m r e hcreate
    | ok o =>
      rw [hcreate] at h
      cases h
  | updateStatus i r =>
    refine isSerialization_refused (d.updateStatus m i r).1 _ ?_ e h
    exact reads_checked d _ _ (reads_requireText _ _) fun _ =>
      reads_revise d hd i _ fun o => reads_ok _
  | cancel i r =>
    refine isSerialization_refused (d.cancel m i r).1 _ ?_ e h
    refine reads_checked d _ _ (reads_requireText _ _) fun _ => reads_revise d hd i _ fun o => ?_
    unfold cancelled
    split
    · exact reads_error _ rfl
    · exact reads_ok _
  | assign i r => exact isSerialization_refused _ _ (reads_assign d hd m i r) e h
  | accept i r => exact isSerialization_refused _ _ (reads_accept d hd m i r) e h
  | reject i r => exact isSerialization_refused _ _ (reads_reject d hd m i r) e h
  | updateLocation i r => exact isSerialization_refused _ _ (reads_updateLocation d hd m i r) e h

theorem readsAll_of_allTexts : d.ReadsAll where
  orderRow := OrderStore.exists_read_order d.store hd.store
  reportRow := OrderStore.exists_read_report d.store hd.store
  ledgerRow := Ledger.exists_read d.ledger hd.ledger
  found := OrderStore.exists_get d.store hd.store
  listed := OrderStore.exists_list d.store hd.store
  updated := OrderStore.update_eq_error d.store hd.store
  latest := OrderStore.exists_latestReport d.store hd.store
  reports := OrderStore.exists_reportHistory d.store hd.store
  recorded := Ledger.exists_record d.ledger hd.ledger
  referred := Ledger.exists_getByRef d.ledger hd.ledger
  verified := Ledger.exists_verify d.ledger hd.ledger
  history := Ledger.exists_history d.ledger hd.ledger
  chain := Ledger.exists_verifyChain d.ledger hd.ledger
  carryOut := isSerialization_carryOut d hd
  get := reads_get d hd
  listByUser userId q :=
    reads_bind _ _ (reads_requireText _ _) fun _ => reads_list d hd .user userId q
  listByProvider providerId q :=
    reads_bind _ _ (reads_requireText _ _) fun _ => reads_list d hd .provider providerId q
  locationHistory := reads_locationHistory d hd
  verifyLedger := reads_verifyLedger d hd
  ledgerHistory := reads_ledgerHistory d hd

end AllTexts

/-! ## Runs -/

theorem isFinite_of_coordinates (r : PositionReport) (h : r.coordinates.isValid = true) :
    r.IsFinite := by
  obtain ⟨hlat, hlong⟩ := isFinite_of_isValid r.coordinates h
  intro x hx
  simp only [PositionReport.doubles, List.mem_cons, List.not_mem_nil, or_false] at hx
  rcases hx with rfl | rfl
  · exact hlat
  · exact hlong

/-- The figures of a report are finite: whatever a request files has been checked. -/
theorem reportTexts_filing (m : Moment) (d d' : Desk) (filed? : Option PositionReport)
    (h : Filing m d d' filed?)
    (hd : d.store.reports.TextsOf PositionReport.IsFinite) :
    d'.store.reports.TextsOf PositionReport.IsFinite := by
  have hmore (s : OrderStore) (hs : s.reports.TextsOf PositionReport.IsFinite)
      (report : PositionReport) (hvalid : report.coordinates.isValid = true) :
      (s.insertReport report).reports.TextsOf PositionReport.IsFinite :=
    Table.textsOf_insert _ s.reports hs _ report (isFinite_of_coordinates report hvalid)
  cases h with
  | nothing reports =>
    rw [reports.1]
    exact hd
  | reported i o report _ _ _ valid store =>
    rw [store]
    exact hmore _ hd report valid
  | accepted i o report _ _ _ valid store =>
    rw [store]
    exact hmore _ hd report valid

theorem reportTexts_after (d : Desk) (s : DeskStep)
    (hd : d.store.reports.TextsOf PositionReport.IsFinite) :
    (d.after s).store.reports.TextsOf PositionReport.IsFinite := by
  obtain ⟨m, event⟩ := s
  cases event with
  | request r => exact reportTexts_filing m d _ _ (d.filing_carryOut m r) hd
  | rematch o rejectedBy =>
    show (d.rematch m o rejectedBy).store.reports.TextsOf _
    rw [(d.sameReports_rematch m o rejectedBy).1]
    exact hd
  | post =>
    rw [(d.sameReports_post m).1]
    exact hd
  | shut => exact hd

/-- Only the bookkeeper writes to the ledger, and it puts one entry behind the others. -/
theorem ledgerTexts_moves (m : Moment) (d d' : Desk) (grown : Option String)
    (h : Moves m d d' grown) (hd : d.ledger.AllTexts) : d'.ledger.AllTexts := by
  cases h with
  | idle _ ledger | reported _ _ ledger | opened _ _ _ _ ledger | advanced _ _ _ _ _ _ ledger =>
    rw [ledger]
    exact hd
  | posted books =>
    have hledger : d'.ledger = (d.toBooks.postNext m.now m.ledgerOutage).ledger :=
      congrArg Books.ledger books
    have hposts := Books.posts_postNext m.now m.ledgerOutage d.toBooks
    generalize d.toBooks.postNext m.now m.ledgerOutage = b at hledger hposts
    rw [hledger]
    cases hposts with
    | nothing | lost => exact hd
    | recorded job _ txRef ledger _ record | noted job _ txRef ledger _ _ record =>
      obtain ⟨e, rfl⟩ := Ledger.exists_put_of_record _ ledger job m.now txRef record
      exact Ledger.allTexts_put _ hd e

theorem orderTexts_of_readable (s : OrderStore) (hs : s.Readable) :
    s.orders.TextsOf Order.IsFinite := by
  intro row hrow
  obtain ⟨⟨i, row⟩, he, rfl⟩ := List.mem_map.1 hrow
  have hfind := Table.find?_of_mem s.orders i row he
  have hi : s.orders.contains i = true := by
    unfold Table.contains
    rw [hfind]
    rfl
  obtain ⟨o, hstored, hfin⟩ := hs i hi
  exact ⟨o, hfin, Option.some.inj (hfind.symm.trans hstored)⟩

theorem reportTexts_run (capacity : Nat) (steps : List DeskStep) :
    (run capacity steps).store.reports.TextsOf PositionReport.IsFinite := by
  induction steps using List.reverseRecOn with
  | nil => exact Table.textsOf_empty _
  | append_singleton steps s ih =>
    rw [run_append]
    exact reportTexts_after _ s ih

theorem ledgerTexts_run (capacity : Nat) (steps : List DeskStep) :
    (run capacity steps).ledger.AllTexts := by
  induction steps using List.reverseRecOn with
  | nil => exact Table.textsOf_empty _
  | append_singleton steps s ih =>
    rw [run_append]
    exact ledgerTexts_moves s.moment _ _ _ (moves_after _ s (indexed_run capacity steps)) ih

/-- Nothing but texts is in the tables after any run. -/
theorem allTexts_run (capacity : Nat) (steps : List DeskStep) : (run capacity steps).AllTexts where
  store := ⟨orderTexts_of_readable _ (readable_run capacity steps), reportTexts_run capacity steps⟩
  ledger := ledgerTexts_run capacity steps

/-! ## What has just been written -/

/-- The order that is answered is stored under its identifier. -/
def Stores {ε : Type} (answer : Except ε Order × Desk) : Prop :=
  ∀ o, answer.1 = .ok o → answer.2.store.Stored o.id o

theorem stores_error {ε : Type} (d : Desk) (e : ε) : Stores (.error e, d) := by
  rintro o ⟨⟩

theorem stores_checked {α : Type} (d : Desk) (check : Except Failure α)
    (next : α → Except Failure Order × Desk) (h : ∀ a, check = .ok a → Stores (next a)) :
    Stores (d.checked check next) := by
  cases check with
  | error f => exact stores_error d f
  | ok a => exact h a rfl

/-- A change that leaves the identifier of an order alone. -/
theorem stores_revise (d : Desk) (i : String) (change : Order → Except Failure Order)
    (m : Moment) (hd : d.store.Indexed)
    (hmoves : ∀ o o', change o = .ok o' → o.MovesOn o' m.now) : Stores (d.revise i change) := by
  rcases revise_cases d i change with ⟨f, hf⟩ | ⟨old, new, hget, hchange, hok⟩
  · rw [hf]
    exact stores_error d f
  · rw [hok]
    rintro o ⟨⟩
    have hid : new.id = i :=
      (movesOn_owner old new _ (hmoves old new hchange)).1.trans (id_of_get _ hd i old hget)
    rw [submit_store, hid]
    exact (OrderStore.row_write d.store _ i new rfl).1

theorem stores_create (d : Desk) (m : Moment) (r : CreateRequest) : Stores (d.create m r) := by
  unfold create
  cases r.check with
  | error f => exact stores_error d _
  | ok places =>
    obtain ⟨pickup, destination⟩ := places
    simp only
    cases Totals.ofItems r.items with
    | error o => exact stores_error d _
    | ok totals =>
      simp only [draw]
      generalize r.order (m.newId d.drawn) m.now m.later pickup destination totals = o
      cases hinsert : d.store.insert o with
      | error e => exact stores_error _ _
      | ok store =>
        rintro _ ⟨⟩
        rw [submit_store]
        exact (OrderStore.row_write d.store store o.id o
          (OrderStore.insert_eq_ok d.store store o hinsert).2).1

theorem stores_assign (d : Desk) (m : Moment) (i : String) (r : AssignRequest)
    (hd : d.store.Indexed) : Stores (d.assign m i r) := by
  refine stores_checked d _ _ fun o _ => ?_
  split
  · next p _ => exact stores_revise d i _ m hd (movesOn_assigned m.now p)
  · unfold assignBest
    generalize Matching.best m.directory o offeredProviders = found
    obtain ⟨searches, result⟩ := found
    match result with
    | .error _ | .ok [] => exact stores_error _ _
    | .ok (best :: others) => exact stores_revise _ i _ m hd (movesOn_assigned m.now _)

theorem stores_accept (d : Desk) (m : Moment) (i : String) (r : AcceptRequest)
    (hd : d.store.Indexed) : Stores (d.accept m i r) := by
  refine stores_checked d _ _ fun _ _ => stores_checked d _ _ fun _ _ => ?_
  have hrevised := stores_revise d i _ m hd (movesOn_accepted m.now i r)
  generalize d.revise i _ = answer at hrevised
  obtain ⟨answer, d'⟩ := answer
  cases answer with
  | error f => exact stores_error d' f
  | ok o =>
    rintro _ ⟨⟩
    have hstored : d'.store.Stored o.id o := hrevised o rfl
    rcases (noteLocation_cases d' m o r.providerId r.currentLocation).1 with
      hstore | ⟨report, -, hstore⟩
    · rw [hstore]
      exact hstored
    · rw [hstore]
      exact hstored

theorem stores_reject (d : Desk) (m : Moment) (i : String) (r : RejectRequest)
    (hd : d.store.Indexed) : Stores (d.reject m i r) := by
  refine stores_checked d _ _ fun _ _ => stores_checked d _ _ fun _ _ => ?_
  have hrevised := stores_revise d i _ m hd (movesOn_rejected m.now i r)
  generalize d.revise i (rejected m.now i r) = answer at hrevised
  obtain ⟨answer, d'⟩ := answer
  cases answer with
  | error f => exact stores_error d' f
  | ok o =>
    rintro _ ⟨⟩
    exact hrevised o rfl

end Desk

/-- The order that an answer is. -/
def DeskReply.order? : DeskReply → Option Order
  | order answer => answer.toOption
  | position _ => none

namespace Desk

/-- An order that is answered has just been written. -/
theorem stores_carryOut (d : Desk) (m : Moment) (r : DeskRequest) (o : Order)
    (hd : d.store.Indexed) (h : (d.reply m r).order? = some o) :
    (d.carryOut m r).2.store.Stored o.id o := by
  have hchanged (answer : Except Failure Order × Desk) (hstores : Stores answer)
      (h : (answer.1.mapError OpenError.refused).toOption = some o) :
      answer.2.store.Stored o.id o := by
    rw [toOption_mapError] at h
    exact hstores o ((eq_ok_iff _ o).2 h)
  cases r with
  | create r => exact stores_create d m r o ((eq_ok_iff _ o).2 h)
  | updateStatus i r =>
    exact hchanged _ (stores_checked d _ _ fun _ _ =>
      stores_revise d i _ m hd (movesOn_set m.now r)) h
  | cancel i r =>
    exact hchanged _ (stores_checked d _ _ fun _ _ =>
      stores_revise d i _ m hd (movesOn_cancelled m.now r)) h
  | assign i r => exact hchanged _ (stores_assign d m i r hd) h
  | accept i r => exact hchanged _ (stores_accept d m i r hd) h
  | reject i r => exact hchanged _ (stores_reject d m i r hd) h
  | updateLocation i r => cases h

/-- What is answered is found, as its text is read, and unchanged if its doubles are. -/
theorem get_answered (capacity : Nat) (steps : List DeskStep) (m : Moment) (r : DeskRequest)
    (o : Order)
    (ids : ∀ s ∈ steps ++ [⟨m, .request r⟩], ∀ n, Text.isBlank (s.moment.newId n) = false)
    (h : ((run capacity steps).reply m r).order? = some o) :
    ∃ found, Coded.read (Coded.render o) = .ok found ∧
      ((run capacity steps).carryOut m r).2.get o.id = .ok found := by
  have hafter : ((run capacity steps).carryOut m r).2 =
      run capacity (steps ++ [⟨m, .request r⟩]) := by
    rw [run_append]
    rfl
  have hstored := stores_carryOut _ m r o (indexed_run capacity steps) h
  rw [hafter] at hstored ⊢
  have hcontains := OrderStore.contains_of_stored _ o.id o hstored
  obtain ⟨found, hget, -⟩ := OrderStore.exists_found _ (readable_run capacity _) o.id hcontains
  have hread := OrderStore.reread?_of_get _ o.id o found hstored hget
  have hblank := isBlank_run capacity _ ids o.id hcontains
  exact ⟨found, (read_render_eq_ok_iff o found).2 hread, get_of_store_get _ o.id found hblank hget⟩

/-- Stored records read back. An order or a position report is read as the same just if its doubles
are, each for itself, and an entry of the ledger always is; whatever has finite figures is read. So
after any run every row is read, and nothing that is done fails for a row. With identifiers that are
not blank, an order that is answered is found right away: as its text is read, and hence as it was
answered just if its doubles are read as the same. -/
theorem records_read_back :
    (∀ o : Order, (Coded.read (Coded.render o) = .ok o ↔ ∀ x ∈ o.doubles, ReadsBack x) ∧
      ((∀ x ∈ o.doubles, isFinite x = true) → ∃ o' : Order, Coded.read (Coded.render o) = .ok o')) ∧
    (∀ r : PositionReport, (Coded.read (Coded.render r) = .ok r ↔ ∀ x ∈ r.doubles, ReadsBack x) ∧
      ((∀ x ∈ r.doubles, isFinite x = true) →
        ∃ r' : PositionReport, Coded.read (Coded.render r) = .ok r')) ∧
    (∀ e : LedgerEntry, Coded.read (Coded.render e) = .ok e) ∧
    ∀ capacity steps,
      let d := run capacity steps
      d.ReadsAll ∧
      ∀ m r o, (∀ s ∈ steps ++ [⟨m, .request r⟩], ∀ n, Text.isBlank (s.moment.newId n) = false) →
        (d.reply m r).order? = some o →
        (∃ found, (d.carryOut m r).2.get o.id = .ok found) ∧
        ((d.carryOut m r).2.get o.id = .ok o ↔ ∀ x ∈ o.doubles, ReadsBack x) := by
  refine ⟨fun o => ⟨o.read_render, fun hfin => ?_⟩, fun r => ⟨r.read_render, fun hfin => ?_⟩,
    LedgerEntry.read_render, fun capacity steps => ⟨?_, fun m r o ids h => ?_⟩⟩
  · obtain ⟨o', hread, -⟩ := o.reread?_isFinite (o.isFinite_iff.2 hfin)
    exact ⟨o', (read_render_eq_ok_iff o o').2 hread⟩
  · obtain ⟨r', hread⟩ := r.reread?_isFinite hfin
    exact ⟨r', (read_render_eq_ok_iff r r').2 hread⟩
  · exact readsAll_of_allTexts _ (allTexts_run capacity steps)
  · obtain ⟨found, hread, hget⟩ := get_answered capacity steps m r o ids h
    refine ⟨⟨found, hget⟩, ?_⟩
    rw [← o.read_render, hread, hget]
    exact ⟨fun h => congrArg _ (Except.ok.inj h), fun h => congrArg _ (Except.ok.inj h)⟩

def late : CancelRequest := ⟨"u-1", "late"⟩

/-- The order once it is cancelled. -/
def lateOrder : Order := plainOrder.pushStatus quiet.now .cancelled (actorOrSystem "u-1") "late"

theorem get_plainOpening : (run 1 [plainOpening]).store.get "o-1" = .ok (some plainOrder) := by
  obtain ⟨store, -, hstored, hbooks⟩ := toBooks_first 1 { quiet with ledgerOutage := some "down" }
    plain _ _ plainTotals plainOrder rfl totals_plain rfl
  rw [show (run 1 [plainOpening]).store = store from congrArg Books.store hbooks]
  exact OrderStore.get_of_reread? store "o-1" plainOrder plainOrder hstored isSteady_plainOrder

/-- An order is opened and cancelled, and found as it was answered. -/
theorem records_read_back_late :
    (∀ s ∈ [plainOpening] ++ [⟨quiet, .request (.cancel "o-1" late)⟩], ∀ n,
      Text.isBlank (s.moment.newId n) = false) ∧
    ((run 1 [plainOpening]).reply quiet (.cancel "o-1" late)).order? = some lateOrder ∧
    (∀ x ∈ lateOrder.doubles, isFinite x = true ∧ ReadsBack x) ∧
    ((run 1 [plainOpening]).carryOut quiet (.cancel "o-1" late)).2.get "o-1" = .ok lateOrder := by
  have hids : ∀ s ∈ [plainOpening] ++ [⟨quiet, .request (.cancel "o-1" late)⟩], ∀ n,
      Text.isBlank (s.moment.newId n) = false := by
    intro s hs n
    simp only [List.cons_append, List.nil_append, List.mem_cons, List.not_mem_nil, or_false] at hs
    rcases hs with rfl | rfl <;> exact isBlank_names.1
  have hanswer : ((run 1 [plainOpening]).reply quiet (.cancel "o-1" late)).order? =
      some lateOrder := by
    show (((run 1 [plainOpening]).cancel quiet "o-1" late).1.mapError OpenError.refused).toOption = _
    rw [(cancel_of_get _ quiet "o-1" late plainOrder lateOrder isBlank_names.1 get_plainOpening
      rfl).1]
    rfl
  have hdoubles : ∀ x ∈ lateOrder.doubles, isFinite x = true ∧ ReadsBack x := by
    have hfinite : ∀ x ∈ lateOrder.doubles, isFinite x = true := by decide
    exact fun x hx => ⟨hfinite x hx, plainOrder.reread?_eq_self.1 isSteady_plainOrder x hx⟩
  obtain ⟨-, -, -, hrun⟩ := records_read_back
  obtain ⟨-, hfound⟩ := hrun 1 [plainOpening]
  obtain ⟨-, hexact⟩ := hfound quiet (.cancel "o-1" late) lateOrder hids hanswer
  exact ⟨hids, hanswer, hdoubles, hexact.2 fun x hx => (hdoubles x hx).2⟩

end Desk

end OrderDispatch
