import OrderDispatch.Desk.Records
import OrderDispatch.Proofs.Desk.Replay
import OrderDispatch.Proofs.Ledger.Chain

/-!
# The reference of an order

The bookkeeper works behind the desk: snapshots wait in a queue that may drop them, and an order may
have moved on, more than once, before one of its snapshots is recorded. Even so, its reference is
that of the newest entry about it, because nobody but the bookkeeper writes it, and the bookkeeper
writes it with every entry.

    b.Refers es:   o is stored under i → o.ledgerRef = newestRef? es i
    a step         (b.Refers es) leads to b' with b'.Refers es or b'.Refers (es ++ [e])

An order with a reference is verified, unless two entries have different content but one hash.
-/

namespace OrderDispatch

/-- The reference of the last entry about an order. -/
def newestRef? (es : List LedgerEntry) (i : String) : Option String :=
  (es.filter (·.orderId = i)).getLast?.map (·.txRef)

theorem newestRef?_eq_none (es : List LedgerEntry) (i : String) (h : ∀ e ∈ es, e.orderId ≠ i) :
    newestRef? es i = none := by
  have hnone : es.filter (·.orderId = i) = [] :=
    List.filter_eq_nil_iff.2 fun e he => by simpa using h e he
  unfold newestRef?
  rw [hnone]
  rfl

theorem newestRef?_append_self (es : List LedgerEntry) (e : LedgerEntry) :
    newestRef? (es ++ [e]) e.orderId = some e.txRef := by
  unfold newestRef?
  rw [Ledger.filter_append_singleton]
  simp

theorem newestRef?_append_ne (es : List LedgerEntry) (e : LedgerEntry) (i : String)
    (h : e.orderId ≠ i) : newestRef? (es ++ [e]) i = newestRef? es i := by
  unfold newestRef?
  rw [Ledger.filter_append_singleton]
  simp [h]

/-- The newest reference is that of an entry about the order. -/
theorem exists_of_newestRef? (es : List LedgerEntry) (i txRef : String)
    (h : newestRef? es i = some txRef) : ∃ e ∈ es, e.orderId = i ∧ e.txRef = txRef := by
  unfold newestRef? at h
  obtain ⟨e, he, href⟩ := Option.map_eq_some_iff.1 h
  obtain ⟨hes, hi⟩ := List.mem_filter.1 (List.mem_of_getLast? he)
  exact ⟨e, hes, by simpa using hi, href⟩

theorem newestRef?_isSome_iff (es : List LedgerEntry) (i : String) :
    (newestRef? es i).isSome = true ↔ ∃ e ∈ es, e.orderId = i := by
  constructor
  · intro h
    obtain ⟨txRef, hsome⟩ := Option.isSome_iff_exists.1 h
    obtain ⟨e, he, hi, -⟩ := exists_of_newestRef? es i txRef hsome
    exact ⟨e, he, hi⟩
  · rintro ⟨e, he, hi⟩
    have hmem : e ∈ es.filter (·.orderId = i) := List.mem_filter.2 ⟨he, by simpa using hi⟩
    unfold newestRef?
    rw [List.getLast?_eq_some_getLast (List.ne_nil_of_mem hmem)]
    rfl

/-! ## Orders and entries -/

namespace OrderStore

/-- Every order refers to the newest entry about it. -/
def Refers (s : OrderStore) (es : List LedgerEntry) : Prop :=
  ∀ i o, s.Stored i o → o.ledgerRef = newestRef? es i

/-- What is found refers to the newest entry, too. -/
theorem ledgerRef_of_get (s : OrderStore) (es : List LedgerEntry) (hs : s.Readable)
    (hrefs : s.Refers es) (i : String) (o : Order) (h : s.get i = .ok (some o)) :
    o.ledgerRef = newestRef? es i := by
  exact of_get (fun p => p.ledgerRef = newestRef? es i) (fun _ _ hp => hp) s hs i o (hrefs i) h

theorem contains_write (s t : OrderStore) (i : String) (o : Order)
    (h : t.orders = s.orders.insert i (Coded.render o)) (j : String)
    (hj : s.orders.contains j = true) : t.orders.contains j = true := by
  obtain ⟨hstored, hothers⟩ := row_write s t i o h
  by_cases hji : j = i
  · rw [hji]
    exact contains_of_stored t i o hstored
  · rw [contains_eq_of_find? s t j (hothers j hji)]
    exact hj

/-- A row is written with the newest reference, and no other order has got a new entry. -/
theorem refers_write (s t : OrderStore) (es es' : List LedgerEntry) (i : String) (o : Order)
    (ht : t.Readable) (hrefs : s.Refers es)
    (h : t.orders = s.orders.insert i (Coded.render o)) (href : o.ledgerRef = newestRef? es' i)
    (hothers : ∀ j, j ≠ i → newestRef? es' j = newestRef? es j) : t.Refers es' := by
  obtain ⟨hstored, hrows⟩ := row_write s t i o h
  intro j p hp
  by_cases hji : j = i
  · subst hji
    rw [eq_withFigures_of_stored t ht j o p hstored hp]
    exact href
  · rw [hothers j hji]
    exact hrefs j p ((hrows j hji).symm.trans hp)

end OrderStore

/-! ## The books -/

namespace Books

/-- The ledger holds these entries, every order refers to the newest one about it, and neither a
job nor an entry is about an order that is not stored. -/
structure Refers (b : Books) (es : List LedgerEntry) : Prop where
  holds : b.ledger.Holds es
  refs : b.store.Refers es
  jobs : ∀ job ∈ b.queue.waiting, b.store.orders.contains job.orderId = true
  known : ∀ e ∈ es, b.store.orders.contains e.orderId = true

theorem refers_ofCapacity (capacity : Nat) : (ofCapacity capacity).Refers [] := by
  refine ⟨Ledger.holds_empty, ?_, ?_, ?_⟩
  · intro i o h
    cases h
  · intro job h
    cases h
  · intro e h
    cases h

/-- Only the rows, the ledger and the waiting jobs matter. -/
theorem refers_of_eq (b b' : Books) (es : List LedgerEntry) (hb : b.Refers es)
    (horders : b'.store.orders = b.store.orders) (hledger : b'.ledger = b.ledger)
    (hwaiting : b'.queue.waiting = b.queue.waiting) : b'.Refers es := by
  constructor
  · rw [hledger]
    exact hb.holds
  · intro i o ho
    unfold OrderStore.Stored at ho
    rw [horders] at ho
    exact hb.refs i o ho
  · rw [horders, hwaiting]
    exact hb.jobs
  · rw [horders]
    exact hb.known

/-- A submitted job waits behind the others, or is dropped. -/
theorem mem_waiting_submit (q : LedgerQueue) (new job : Ledger.Job)
    (h : job ∈ (q.submit new).waiting) : job ∈ q.waiting ∨ job = new := by
  unfold LedgerQueue.submit at h
  split at h
  · rcases List.mem_append.1 h with h | h
    · exact .inl h
    · exact .inr (List.mem_singleton.1 h)
  · exact .inl h
  · exact .inl h

/-- A row is written with the reference it should have, and its snapshot is submitted. -/
theorem refers_write (b b' : Books) (es : List LedgerEntry) (hb : b.Refers es)
    (hread : b'.store.Readable) (o : Order)
    (hstore : b'.store.orders = b.store.orders.insert o.id (Coded.render o))
    (hledger : b'.ledger = b.ledger) (hqueue : b'.queue = b.queue.submit (.ofOrder o))
    (href : o.ledgerRef = newestRef? es o.id) : b'.Refers es := by
  have hstays := OrderStore.contains_write b.store b'.store o.id o hstore
  refine ⟨?_, ?_, ?_, fun e he => hstays _ (hb.known e he)⟩
  · rw [hledger]
    exact hb.holds
  · exact OrderStore.refers_write b.store b'.store es es o.id o hread hb.refs hstore href
      fun _ _ => rfl
  · intro job hjob
    rw [hqueue] at hjob
    rcases mem_waiting_submit _ _ _ hjob with hjob | rfl
    · exact hstays _ (hb.jobs job hjob)
    · exact OrderStore.contains_of_stored b'.store o.id o
        (OrderStore.row_write _ _ o.id o hstore).1

/-- What the bookkeeper records is noted, so that orders refer to it. -/
theorem refers_posts (now : Timestamp) (outage : Option String) (b b' : Books)
    (es : List LedgerEntry) (hb : b.Refers es) (hread : b.store.Readable)
    (hread' : b'.store.Readable) (hroom : es.length + 1 < 2 ^ 64) (h : Posts now outage b b') :
    b'.Refers es ∨ ∃ e, b'.Refers (es ++ [e]) := by
  have hrest : ∀ job rest, b.queue.waiting = job :: rest → ∀ j ∈ b.queue.advance.waiting,
      b.store.orders.contains j.orderId = true := by
    intro job rest hwaiting j hj
    exact hb.jobs j (List.mem_of_mem_tail hj)
  cases h with
  | nothing => exact .inl hb
  | lost job rest waiting => exact .inl ⟨hb.holds, hb.refs, hrest job rest waiting, hb.known⟩
  | recorded job rest txRef ledger waiting record missing =>
    -- The order of a job is stored, and what is stored is found.
    have hstored := hb.jobs job (by rw [waiting]; exact List.mem_cons_self)
    obtain ⟨o, hget, -⟩ := OrderStore.exists_found b.store hread job.orderId hstored
    exact absurd hget (missing o)
  | noted job rest txRef ledger old waiting record found =>
    obtain ⟨e, hrecord, hholds, hjob⟩ := hb.holds.record b.ledger es job now hroom
    rw [hrecord] at record
    cases record
    right
    refine ⟨e, hholds, ?_, ?_, ?_⟩
    · refine OrderStore.refers_write b.store _ es _ job.orderId _ hread' hb.refs rfl ?_ ?_
      · rw [← hjob]
        exact (newestRef?_append_self es e).symm
      · intro j hj
        exact newestRef?_append_ne es e j (by rw [hjob]; exact Ne.symm hj)
    · intro j hj
      exact OrderStore.contains_write b.store _ job.orderId _ rfl _ (hrest job rest waiting j hj)
    · intro x hx
      rcases List.mem_append.1 hx with hx | hx
      · exact OrderStore.contains_write b.store _ job.orderId _ rfl _ (hb.known x hx)
      · rw [List.mem_singleton.1 hx, hjob]
        exact OrderStore.contains_write b.store _ job.orderId _ rfl _
          (OrderStore.contains_of_get _ _ _ found)

end Books

/-! ## Runs -/

namespace Desk

/-- An order that moves on keeps its identifier and its reference. -/
theorem ledgerRef_movesOn (old new : Order) (now : Timestamp) (h : old.MovesOn new now) :
    new.id = old.id ∧ new.ledgerRef = old.ledgerRef := by
  obtain ⟨_, _, _, _, rfl⟩ := h
  exact ⟨rfl, rfl⟩

/-- A step leaves the entries as they are, or adds one behind them. -/
theorem refers_moves (m : Moment) (d d' : Desk) (grown : Option String) (es : List LedgerEntry)
    (hs : d.store.Indexed) (hread : d.store.Readable) (hread' : d'.store.Readable)
    (hd : d.toBooks.Refers es) (hroom : es.length + 1 < 2 ^ 64) (h : Moves m d d' grown) :
    d'.toBooks.Refers es ∨ ∃ e, d'.toBooks.Refers (es ++ [e]) := by
  cases h with
  | idle store ledger waiting =>
    exact .inl (Books.refers_of_eq _ _ es hd (by rw [store]) ledger waiting)
  | reported r store ledger queue =>
    exact .inl (Books.refers_of_eq _ _ es hd (by rw [store]; rfl) ledger (by rw [queue]))
  | opened r o opens store ledger queue =>
    -- No entry can be about an order that was not stored before.
    obtain ⟨hfresh, horders⟩ := OrderStore.insert_eq_ok _ _ o store
    have hnew : newestRef? es o.id = none := by
      apply newestRef?_eq_none
      intro e he hid
      have hknown := hd.known e he
      rw [hid, hfresh] at hknown
      cases hknown
    have href : o.ledgerRef = none := by
      obtain ⟨_, _, _, _, -, -, rfl⟩ := opens
      rfl
    exact .inl (Books.refers_write d.toBooks d'.toBooks es hd hread' o horders ledger queue
      (href.trans hnew.symm))
  | advanced i old new found moves store ledger queue =>
    obtain ⟨hid, href⟩ := ledgerRef_movesOn old new m.now moves
    have hi : new.id = i := hid.trans (id_of_get d.store hs i old found)
    have horders := orders_of_writes _ _ i old new store
    rw [← hi] at horders found
    exact .inl (Books.refers_write d.toBooks d'.toBooks es hd hread' new horders ledger queue
      (href.trans (d.store.ledgerRef_of_get es hread hd.refs new.id old found)))
  | posted books =>
    have hposts := Books.posts_postNext m.now m.ledgerOutage d.toBooks
    rw [← books] at hposts
    exact Books.refers_posts m.now m.ledgerOutage d.toBooks d'.toBooks es hd hread hread' hroom
      hposts

/-- After a run, the ledger has at most as many entries as there were steps. -/
theorem refers_run (capacity : Nat) (steps : List DeskStep) (h : steps.length < 2 ^ 64) :
    ∃ es, es.length ≤ steps.length ∧ (run capacity steps).toBooks.Refers es := by
  induction steps using List.reverseRecOn with
  | nil => exact ⟨[], Nat.le_refl 0, Books.refers_ofCapacity capacity⟩
  | append_singleton steps s ih =>
    rw [List.length_append, List.length_singleton] at h ⊢
    obtain ⟨es, hlength, hrefers⟩ := ih (by omega)
    have hread' := readable_run capacity (steps ++ [s])
    rw [run_append] at hread' ⊢
    have hindexed := indexed_run capacity steps
    rcases refers_moves s.moment _ _ _ es hindexed (readable_run capacity steps) hread' hrefers
      (by omega) (moves_after _ s hindexed) with hsame | ⟨e, hadded⟩
    · exact ⟨es, by omega, hsame⟩
    · exact ⟨es ++ [e], by rw [List.length_append, List.length_singleton]; omega, hadded⟩

/-- Identifiers of stored orders have been drawn, so they are as little blank as those drawn. -/
theorem isBlank_run (capacity : Nat) (steps : List DeskStep)
    (h : ∀ s ∈ steps, ∀ n, Text.isBlank (s.moment.newId n) = false) (i : String)
    (hi : (run capacity steps).store.orders.contains i = true) : Text.isBlank i = false := by
  induction steps using List.reverseRecOn with
  | nil => cases hi
  | append_singleton steps s ih =>
    have hbefore := ih fun s' hs' => h s' (List.mem_append_left _ hs')
    rw [run_append] at hi
    have hmoves := rowMoves_after _ s (indexed_run capacity steps) i
    generalize decide ((run capacity steps).grows? s = some i) = grown at hmoves
    cases hmoves with
    | same row =>
      rw [OrderStore.contains_eq_of_find? _ _ i row] at hi
      exact hbefore hi
    | opened r o opens id =>
      obtain ⟨drawn, _, _, _, -, -, rfl⟩ := opens
      rw [← id]
      exact h s (by simp) drawn
    | advanced old new found | noted old txRef found =>
      exact hbefore (OrderStore.contains_of_get _ i old found)

/-- A stored order that is not blank is verified by what the ledger says of its reference. -/
theorem verifyLedger_of_get (d : Desk) (m : Moment) (i : String) (o : Order)
    (hblank : Text.isBlank i = false) (hget : d.store.get i = .ok (some o)) (hid : o.id = i)
    (hledger : ∀ txRef, o.ledgerRef = some txRef → d.ledger.verify i txRef = .ok true)
    (hreach : m.ledgerOutage = none) :
    d.verifyLedger m i = .ok ⟨i, o.ledgerRef, o.ledgerRef.isSome⟩ := by
  have hfound : d.get i = .ok o := get_of_store_get d i o hblank hget
  unfold verifyLedger
  rw [hfound, ok_bind, hid]
  cases href : o.ledgerRef with
  | none => rfl
  | some txRef =>
    have hasked : askLedger m (d.ledger.verify i txRef) = .ok true := by
      unfold askLedger
      rw [hreach, hledger txRef href]
      rfl
    show (askLedger m (d.ledger.verify i txRef) >>= fun verified =>
      pure (⟨i, some txRef, verified⟩ : LedgerVerification)) = _
    rw [hasked]
    rfl

/-- After any run, an order has a reference exactly if the ledger has entries about it. It is then
the reference of the newest of them, and is verified unless two different contents have one hash. -/
theorem newest_reference (capacity : Nat) (steps : List DeskStep) (hsteps : steps.length < 2 ^ 64)
    (hids : ∀ s ∈ steps, ∀ n, Text.isBlank (s.moment.newId n) = false) :
    let d := run capacity steps
    ∃ es, d.ledger.entries.values.mapM Ledger.readRow = .ok es ∧
      (∀ i, d.ledger.history i = .ok (es.filter (·.orderId = i))) ∧
      ∀ i, d.store.orders.contains i = true → ∃ o, d.store.get i = .ok (some o) ∧ o.id = i ∧
        (o.ledgerRef.isSome = true ↔ ∃ e ∈ es, e.orderId = i) ∧
        o.ledgerRef = (es.filter (·.orderId = i)).getLast?.map (·.txRef) ∧
        (Ledger.Collides es ∨ ∀ m : Moment, m.ledgerOutage = none →
          d.verifyLedger m i = .ok ⟨i, o.ledgerRef, o.ledgerRef.isSome⟩) := by
  intro d
  obtain ⟨es, -, hrefers⟩ := refers_run capacity steps hsteps
  have hread := readable_run capacity steps
  refine ⟨es, hrefers.holds.values, hrefers.holds.history, fun i hi => ?_⟩
  obtain ⟨o, hget, -⟩ := OrderStore.exists_found d.store hread i hi
  have hid := id_of_get d.store (indexed_run capacity steps) i o hget
  have href := d.store.ledgerRef_of_get es hread hrefers.refs i o hget
  refine ⟨o, hget, hid, ?_, href, ?_⟩
  · rw [href]
    exact newestRef?_isSome_iff es i
  · by_cases hcollides : Ledger.Collides es
    · exact .inl hcollides
    · right
      intro m hreach
      refine verifyLedger_of_get d m i o (isBlank_run capacity steps hids i hi) hget hid ?_ hreach
      intro txRef htxRef
      obtain ⟨e, he, hei, hetx⟩ := exists_of_newestRef? es i txRef (href.symm.trans htxRef)
      rw [← hei, ← hetx]
      exact hrefers.holds.verify d.ledger es hcollides e he

/-! ## A reference -/

/-- With the ledger in reach, what is recorded is noted on the order that is found. -/
theorem postNext_of_record (now : Timestamp) (b : Books) (job : Ledger.Job)
    (rest : List Ledger.Job) (txRef : String) (ledger : Ledger) (old : Order)
    (hwaiting : b.queue.waiting = job :: rest)
    (hrecord : b.ledger.record job now = .ok (txRef, ledger))
    (hget : b.store.get job.orderId = .ok (some old)) :
    b.postNext now none = {
      store := b.store.replace job.orderId old.providerId { old with ledgerRef := some txRef }
      ledger
      queue := b.queue.advance } := by
  unfold Books.postNext
  rw [hwaiting]
  have hreach : (do Ledger.reach none; b.ledger.record job now) = .ok (txRef, ledger) := hrecord
  have hnoted : b.store.setLedgerRef job.orderId txRef =
      .ok ({ old with ledgerRef := some txRef },
        b.store.replace job.orderId old.providerId { old with ledgerRef := some txRef }) :=
    OrderStore.update_of_get _ _ _ _ _ hget
  simp only [Books.post, hreach, hnoted]

/-- So the bookkeeper's step adds an entry, while there are heights left. -/
theorem after_post (d : Desk) (m : Moment) (es : List LedgerEntry) (job : Ledger.Job)
    (rest : List Ledger.Job) (old : Order) (hreach : m.ledgerOutage = none)
    (hholds : d.ledger.Holds es) (hroom : es.length + 1 < 2 ^ 64)
    (hwaiting : d.queue.waiting = job :: rest)
    (hget : d.store.get job.orderId = .ok (some old)) :
    ∃ e, e.orderId = job.orderId ∧ (d.after ⟨m, .post⟩).ledger.Holds (es ++ [e]) ∧
      (d.after ⟨m, .post⟩).queue.waiting = rest ∧
      (d.after ⟨m, .post⟩).store.Stored job.orderId { old with ledgerRef := some e.txRef } := by
  obtain ⟨e, hrecord, hput, hid⟩ := hholds.record d.ledger es job m.now hroom
  have hposted := postNext_of_record m.now d.toBooks job rest e.txRef _ old hwaiting hrecord hget
  have hbooks : (d.after ⟨m, .post⟩).toBooks = d.toBooks.postNext m.now none := by
    rw [← hreach]
    rfl
  rw [hposted] at hbooks
  refine ⟨e, hid, ?_, ?_, ?_⟩
  · rw [hbooks]
    exact hput
  · rw [hbooks]
    exact congrArg List.tail hwaiting
  · rw [hbooks]
    exact (OrderStore.row_write d.store _ job.orderId _ rfl).1

def posting : DeskStep := ⟨quiet, .post⟩

/-- An order is opened and assigned, and both snapshots of it are recorded. -/
def recordedTwice : List DeskStep := [opening, assigning, posting, posting]

theorem holds_recordedTwice : ∃ e₁ e₂ : LedgerEntry,
    (run 2 recordedTwice).ledger.Holds [e₁, e₂] ∧ e₁.orderId = "o-1" ∧ e₂.orderId = "o-1" ∧
      (run 2 recordedTwice).store.orders.contains "o-1" = true := by
  obtain ⟨store, -, hbooks⟩ := toBooks_assigning 2
  have hget := get_assigning 2
  rw [show recordedTwice = [opening, assigning] ++ [posting] ++ [posting] from rfl, run_append,
    run_append]
  generalize run 2 [opening, assigning] = d at hbooks hget
  have hholds : d.ledger.Holds [] := by
    rw [hbooks]
    exact Ledger.holds_empty
  have hwaiting : d.queue.waiting = [.ofOrder costlyOrder, .ofOrder assignedOrder] := by
    rw [hbooks]
    rfl
  obtain ⟨e₁, hid₁, hholds₁, hwaiting₁, hstored₁⟩ :=
    after_post d quiet [] _ _ assignedOrder rfl hholds (by decide) hwaiting hget
  have hget₁ := OrderStore.get_of_reread? _ _ _ _ hstored₁
    (reread?_ledgerRef assignedOrder assignedOrder (some e₁.txRef) reread?_assignedOrder)
  obtain ⟨e₂, hid₂, hholds₂, -, hstored₂⟩ :=
    after_post _ quiet _ _ _ _ rfl hholds₁ (by simp) hwaiting₁ hget₁
  exact ⟨e₁, e₂, hholds₂, hid₁, hid₂, OrderStore.contains_of_stored _ _ _ hstored₂⟩

/-- The reference of the order is that of the second snapshot, and is verified unless the two have
different content but one hash. -/
theorem newest_reference_recordedTwice :
    recordedTwice.length < 2 ^ 64 ∧
      (∀ s ∈ recordedTwice, ∀ n, Text.isBlank (s.moment.newId n) = false) ∧
      ∃ o e₁ e₂, (run 2 recordedTwice).ledger.history "o-1" = .ok [e₁, e₂] ∧
        (run 2 recordedTwice).store.get "o-1" = .ok (some o) ∧ o.ledgerRef = some e₂.txRef ∧
        (Ledger.Collides [e₁, e₂] ∨
          (run 2 recordedTwice).verifyLedger quiet "o-1" = .ok ⟨"o-1", some e₂.txRef, true⟩) := by
  have hsteps : recordedTwice.length < 2 ^ 64 := by decide
  have hids : ∀ s ∈ recordedTwice, ∀ n, Text.isBlank (s.moment.newId n) = false := by
    intro s hs n
    have hquiet : s.moment = quiet := by
      simp only [recordedTwice, List.mem_cons, List.not_mem_nil, or_false] at hs
      rcases hs with rfl | rfl | rfl | rfl <;> rfl
    rw [hquiet]
    exact isBlank_names.1
  obtain ⟨es, hvalues, hhistory, horders⟩ := newest_reference 2 recordedTwice hsteps hids
  obtain ⟨e₁, e₂, hholds, hid₁, hid₂, hstored⟩ := holds_recordedTwice
  have hes : es = [e₁, e₂] := by
    rw [hholds.values] at hvalues
    exact (Except.ok.inj hvalues).symm
  subst hes
  have hall : [e₁, e₂].filter (·.orderId = "o-1") = [e₁, e₂] :=
    List.filter_eq_self.2 fun e he => by
      rcases List.mem_pair.1 he with rfl | rfl
      · exact decide_eq_true hid₁
      · exact decide_eq_true hid₂
  obtain ⟨o, hget, -, -, href, hverified⟩ := horders "o-1" hstored
  have hnewest : o.ledgerRef = some e₂.txRef := by
    rw [href, hall]
    rfl
  refine ⟨hsteps, hids, o, e₁, e₂, (hhistory "o-1").trans (congrArg _ hall), hget, hnewest, ?_⟩
  rcases hverified with hcollides | hverified
  · exact .inl hcollides
  · right
    rw [hverified quiet rfl, hnewest]
    rfl

end Desk

end OrderDispatch
