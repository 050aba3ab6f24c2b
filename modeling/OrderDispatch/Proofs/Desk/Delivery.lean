import OrderDispatch.Proofs.Desk.References
import OrderDispatch.Proofs.Desk.Rematch
import OrderDispatch.Proofs.Ledger.Statement

/-!
# From the history to the ledger

Every entry of a history is recorded once. Along a run, three lists are kept: the jobs that were
submitted, those that were taken out of the queue, and the entries that were made of them. A step
adds to the ends of all three:

    submitted          one job for the order whose history grows, made of the order as it is stored
    submitted          = taken ++ what is waiting, as long as nothing is dropped
    entries            state what the taken jobs state, but for those lost while the ledger was out
                       of reach

So once nothing is waiting, the entries about an order are those of its history, in order.
-/

namespace OrderDispatch

/-! ## Queue and ledger -/

namespace Ledger

/-- The entries of a ledger are what its rows say. -/
theorem Holds.unique (l : Ledger) (es es' : List LedgerEntry) (h : l.Holds es)
    (h' : l.Holds es') : es = es' := by
  have hvalues := h.values
  rw [h'.values] at hvalues
  exact (Except.ok.inj hvalues).symm

end Ledger

/-- The bookkeeper takes one job out of the queue, or none, and makes an entry of it, or none while
the ledger is out of reach. -/
theorem Books.postNext_spec (now : Timestamp) (outage : Option String) (b : Books)
    (es : List LedgerEntry) (hholds : b.ledger.Holds es)
    (hfound : ∀ job ∈ b.queue.waiting, ∃ o, b.store.get job.orderId = .ok (some o))
    (hroom : es.length + 1 < 2 ^ 64) :
    ∃ (took : List Ledger.Job) (added : List LedgerEntry),
      b.queue.waiting = took ++ (b.postNext now outage).queue.waiting ∧
      (b.postNext now outage).ledger.Holds (es ++ added) ∧
      (added.map (·.statement)).Sublist (took.map (·.statement)) ∧
      (outage = none → added.map (·.statement) = took.map (·.statement)) := by
  cases hwaiting : b.queue.waiting with
  | nil =>
    have hsame : b.postNext now outage = b := by
      unfold postNext
      rw [hwaiting]
    rw [hsame, hwaiting]
    refine ⟨[], [], rfl, ?_, List.Sublist.slnil, fun _ => rfl⟩
    rwa [List.append_nil]
  | cons job rest =>
    have hrest : job :: rest = [job] ++ b.queue.advance.waiting := by
      show job :: rest = [job] ++ b.queue.waiting.tail
      rw [hwaiting]
      rfl
    cases outage with
    | some detail =>
      have hlost : b.postNext now (some detail) = { b with queue := b.queue.advance } := by
        unfold postNext
        rw [hwaiting]
        rfl
      rw [hlost]
      refine ⟨[job], [], hrest, ?_, List.nil_sublist _, fun h => by cases h⟩
      rwa [List.append_nil]
    | none =>
      obtain ⟨old, hget⟩ := hfound job (by rw [hwaiting]; exact List.mem_cons_self)
      have hrecord := hholds.record_eq b.ledger es job now
      have hstated : [Ledger.nextEntry es job now].map (·.statement) =
          [job].map (·.statement) := by
        rw [List.map_singleton, List.map_singleton, Ledger.nextEntry, statement_entryFor]
      rw [Desk.postNext_of_record now b job rest _ _ old hwaiting hrecord hget]
      exact ⟨[job], [Ledger.nextEntry es job now], hrest,
        hholds.put_nextEntry b.ledger es job now hroom, by rw [hstated], fun _ => hstated⟩

namespace Desk

/-! ## What a step submits -/

/-- The jobs that come with the growth of a history: one for the order as it is stored. -/
inductive Submits (t : OrderStore) : Option String → List Ledger.Job → Prop where
  | nothing : Submits t none []
  | order (new : Order) (stored : t.Stored new.id new) : Submits t (some new.id) [.ofOrder new]

theorem submits_written (d d' : Desk) (i : String) (new : Order) (hid : new.id = i)
    (hrow : d'.store.orders = d.store.orders.insert i (Coded.render new))
    (hledger : d'.ledger = d.ledger) (hqueue : d'.queue = d.queue.submit (.ofOrder new))
    (haccepted : d.queue.fate = .accepted) :
    ∃ submitted, Submits d'.store (some i) submitted ∧ d'.ledger = d.ledger ∧
      d'.queue.waiting = d.queue.waiting ++ submitted := by
  subst hid
  refine ⟨[.ofOrder new], .order new (OrderStore.row_write _ _ _ new hrow).1, hledger, ?_⟩
  rw [hqueue, LedgerQueue.submit_waiting _ _ haccepted]

/-- A request changes neither the ledger nor what waits, or a snapshot of its order waits too. -/
theorem submits_request (d : Desk) (m : Moment) (r : DeskRequest) (hs : d.store.Indexed)
    (haccepted : d.grows? ⟨m, .request r⟩ ≠ none → d.queue.fate = .accepted) :
    ∃ submitted, Submits (d.carryOut m r).2.store (d.grows? ⟨m, .request r⟩) submitted ∧
      (d.carryOut m r).2.ledger = d.ledger ∧
      (d.carryOut m r).2.queue.waiting = d.queue.waiting ++ submitted := by
  unfold grows? at haccepted ⊢
  simp only at haccepted ⊢
  have h := outcome_carryOut m d r hs
  generalize d.carryOut m r = answer at h haccepted ⊢
  obtain ⟨answer, d'⟩ := answer
  cases h with
  | refused _ e books =>
    refine ⟨[], ?_, congrArg Books.ledger books, ?_⟩
    · show Submits d'.store (if r.advances = true then none else none) []
      rw [ite_self]
      exact .nothing
    · rw [List.append_nil]
      exact congrArg (·.queue.waiting) books
  | opened r o opens store ledger queue =>
    have hrow := (OrderStore.insert_eq_ok _ _ o store).2
    exact submits_written d d' o.id o rfl hrow ledger queue (haccepted fun h => by cases h)
  | advanced _ i old new _ advances found moves store ledger queue =>
    have hgrows : (if r.advances = true then Except.toOption (.ok i : Except OpenError String)
        else none) = some i := if_pos advances
    simp only [hgrows] at haccepted ⊢
    have hid : new.id = i := (movesOn_owner old new _ moves).1.trans (id_of_get _ hs i old found)
    exact submits_written d d' i new hid (orders_of_writes _ _ i old new store) ledger queue
      (haccepted fun h => by cases h)
  | reported i r report _ _ store ledger queue =>
    refine ⟨[], .nothing, ledger, ?_⟩
    rw [List.append_nil]
    exact congrArg (·.waiting) queue

/-- Who is not the bookkeeper leaves the ledger alone, and takes nothing out of the queue. -/
theorem submits_after (d : Desk) (s : DeskStep) (hs : d.store.Indexed) (hevent : s.event ≠ .post)
    (haccepted : d.grows? s ≠ none → d.queue.fate = .accepted) :
    ∃ submitted, Submits (d.after s).store (d.grows? s) submitted ∧
      (d.after s).ledger = d.ledger ∧
      (d.after s).queue.waiting = d.queue.waiting ++ submitted := by
  obtain ⟨m, event⟩ := s
  cases event with
  | request r => exact submits_request d m r hs haccepted
  | rematch o rejectedBy =>
    unfold grows? at haccepted ⊢
    simp only at haccepted ⊢
    show ∃ submitted, Submits (d.rematch m o rejectedBy).store _ submitted ∧
      (d.rematch m o rejectedBy).ledger = d.ledger ∧
      (d.rematch m o rejectedBy).queue.waiting = d.queue.waiting ++ submitted
    rcases rematch_cases m d o rejectedBy with
      ⟨hno, books⟩ | ⟨old, new, hyes, found, moves, store, ledger, queue⟩
    · rw [hno]
      refine ⟨[], .nothing, congrArg Books.ledger books, ?_⟩
      rw [List.append_nil]
      exact congrArg (·.queue.waiting) books
    · rw [hyes] at haccepted ⊢
      have hid : new.id = o.id :=
        (movesOn_owner old new _ moves).1.trans (id_of_get _ hs o.id old found)
      have hrow : (d.rematch m o rejectedBy).store.orders =
          d.store.orders.insert o.id (Coded.render new) := by
        rw [store]
        rfl
      exact submits_written d _ o.id new hid hrow ledger queue (haccepted fun h => by cases h)
  | post => exact absurd rfl hevent
  | shut =>
    refine ⟨[], .nothing, rfl, ?_⟩
    rw [List.append_nil]
    rfl

/-- A step adds to what was submitted, to what was taken out of the queue and to the entries. -/
theorem after_spec (d : Desk) (s : DeskStep) (es : List LedgerEntry) (hs : d.store.Indexed)
    (hread : d.store.Readable) (hrefers : d.toBooks.Refers es) (hroom : es.length + 1 < 2 ^ 64)
    (haccepted : d.grows? s ≠ none → d.queue.fate = .accepted) :
    ∃ submitted took added, Submits (d.after s).store (d.grows? s) submitted ∧
      d.queue.waiting ++ submitted = took ++ (d.after s).queue.waiting ∧
      (d.after s).ledger.Holds (es ++ added) ∧
      (added.map (·.statement)).Sublist (took.map (·.statement)) ∧
      ((s.event = .post → s.moment.ledgerOutage = none) →
        added.map (·.statement) = took.map (·.statement)) := by
  by_cases hevent : s.event = .post
  · have hstep : (d.after s).toBooks = d.toBooks.postNext s.moment.now s.moment.ledgerOutage := by
      unfold after
      rw [hevent]
    have hgrows : d.grows? s = none := by
      unfold grows?
      rw [hevent]
    have hfound : ∀ job ∈ d.queue.waiting, ∃ o, d.store.get job.orderId = .ok (some o) := by
      intro job hjob
      obtain ⟨o, hget, -⟩ := OrderStore.exists_found d.store hread _ (hrefers.jobs job hjob)
      exact ⟨o, hget⟩
    obtain ⟨took, added, hwaiting, hholds, hstated, hall⟩ := Books.postNext_spec s.moment.now
      s.moment.ledgerOutage d.toBooks es hrefers.holds hfound hroom
    rw [← hstep] at hwaiting hholds
    rw [hgrows]
    refine ⟨[], took, added, .nothing, ?_, hholds, hstated, fun h => hall (h hevent)⟩
    rw [List.append_nil]
    exact hwaiting
  · obtain ⟨submitted, hsubmits, hledger, hwaiting⟩ := submits_after d s hs hevent haccepted
    refine ⟨submitted, [], [], hsubmits, hwaiting.symm, ?_, List.Sublist.slnil, fun _ => rfl⟩
    rw [List.append_nil, hledger]
    exact hrefers.holds

/-! ## Histories and jobs -/

/-- The order right after the step that gave its history the entry `k`, counted from zero. -/
def Stage (capacity : Nat) (steps : List DeskStep) (i : String) (k : Nat) (p : Order) : Prop :=
  ∃ before s rest, steps = before ++ s :: rest ∧ (run capacity before).grows? s = some i ∧
    (run capacity (before ++ [s])).store.Stored i p ∧ p.history.length = k + 1

/-- The queue accepts every snapshot of the run. -/
def NoneDropped (capacity : Nat) (steps : List DeskStep) : Prop :=
  ∀ before s rest, steps = before ++ s :: rest → (run capacity before).grows? s ≠ none →
    (run capacity before).queue.fate = .accepted

/-- A step of a longer run is the last one, or one of those before. -/
theorem split_append_iff (steps before rest : List DeskStep) (s s' : DeskStep) :
    steps ++ [s] = before ++ s' :: rest ↔
      steps = before ∧ s = s' ∧ rest = [] ∨ ∃ rest', rest = rest' ++ [s] ∧
        steps = before ++ s' :: rest' := by
  cases rest using List.reverseRecOn with
  | nil =>
    constructor
    · intro h
      obtain ⟨hbefore, hs⟩ := List.append_inj' h rfl
      exact .inl ⟨hbefore, (List.cons.inj hs).1, rfl⟩
    · rintro (⟨rfl, rfl, -⟩ | ⟨rest', hrest, -⟩)
      · rfl
      · simp at hrest
  | append_singleton rest x =>
    rw [← List.cons_append, ← List.append_assoc]
    constructor
    · intro h
      obtain ⟨hsteps, hs⟩ := List.append_inj' h rfl
      rw [(List.cons.inj hs).1]
      exact .inr ⟨rest, rfl, hsteps⟩
    · rintro (⟨-, -, hrest⟩ | ⟨rest', hrest, rfl⟩)
      · simp at hrest
      · obtain ⟨rfl, hx⟩ := List.append_inj' hrest rfl
        rw [(List.cons.inj hx).1]

theorem stage_append_iff (capacity : Nat) (steps : List DeskStep) (s : DeskStep) (i : String)
    (k : Nat) (p : Order) :
    Stage capacity (steps ++ [s]) i k p ↔ Stage capacity steps i k p ∨
      (run capacity steps).grows? s = some i ∧
        (run capacity (steps ++ [s])).store.Stored i p ∧ p.history.length = k + 1 := by
  constructor
  · rintro ⟨before, s', rest, hsplit, hstage⟩
    rcases (split_append_iff steps before rest s s').1 hsplit with
      ⟨rfl, rfl, -⟩ | ⟨rest', -, hsteps⟩
    · exact .inr hstage
    · exact .inl ⟨before, s', rest', hsteps, hstage⟩
  · rintro (⟨before, s', rest, hsteps, hstage⟩ | hstage)
    · exact ⟨before, s', rest ++ [s],
        (split_append_iff steps before _ s s').2 (.inr ⟨rest, rfl, hsteps⟩), hstage⟩
    · exact ⟨steps, s, [], rfl, hstage⟩

theorem noneDropped_append (capacity : Nat) (steps : List DeskStep) (s : DeskStep)
    (h : NoneDropped capacity (steps ++ [s])) :
    NoneDropped capacity steps ∧
      ((run capacity steps).grows? s ≠ none → (run capacity steps).queue.fate = .accepted) := by
  constructor
  · intro before s' rest hsteps
    exact h before s' (rest ++ [s])
      ((split_append_iff steps before _ s s').2 (.inr ⟨rest, rfl, hsteps⟩))
  · exact h steps s [] rfl

/-- A history gets longer by the entry that a step adds. -/
theorem length_history_rowMoves (m : Moment) (s t : OrderStore) (hs : s.Readable) (ht : t.Readable)
    (i : String) (grown : Bool) (h : RowMoves m s t i grown) (n : Nat)
    (hbefore : ∀ o, s.Stored i o → o.history.length = n)
    (hfresh : s.orders.contains i = false → n = 0) (p : Order) (hp : t.Stored i p) :
    p.history.length = n + if grown then 1 else 0 := by
  cases hknown : s.orders.contains i with
  | true =>
    obtain ⟨o, ho, -⟩ := hs i hknown
    obtain ⟨o', ho', hcontinues, -⟩ := continues_rowMoves m s t ht i grown h o ho
    obtain ⟨added, hadded, hlength⟩ := hcontinues.history
    rw [OrderStore.eq_withFigures_of_stored t ht i o' p ho' hp]
    show o'.history.length = _
    rw [hadded, List.length_append, hbefore o ho, hlength]
  | false =>
    obtain ⟨hgrown, hone⟩ := appears_rowMoves m s t ht i grown h hknown
    rw [OrderStore.contains_of_stored t i p hp] at hgrown
    rw [hfresh hknown, ← hgrown, hone p hp]
    rfl

theorem filter_concat_self (jobs : List Ledger.Job) (new : Order) :
    (jobs ++ [Ledger.Job.ofOrder new]).filter (·.orderId = new.id) =
      jobs.filter (·.orderId = new.id) ++ [Ledger.Job.ofOrder new] := by
  have hid : (Ledger.Job.ofOrder new).orderId = new.id := rfl
  rw [List.filter_append, List.filter_cons_of_pos (by simp [hid]), List.filter_nil]

theorem filter_concat_ne (jobs : List Ledger.Job) (new : Order) (i : String) (hi : new.id ≠ i) :
    (jobs ++ [Ledger.Job.ofOrder new]).filter (·.orderId = i) = jobs.filter (·.orderId = i) := by
  have hid : (Ledger.Job.ofOrder new).orderId = new.id := rfl
  rw [List.filter_append, List.filter_cons_of_neg (by simpa [hid] using hi), List.filter_nil,
    List.append_nil]

/-- These jobs have been submitted in a run: for every order one for each entry of its history, made
of the order as it was stored with that entry. -/
structure Submitted (capacity : Nat) (steps : List DeskStep) (jobs : List Ledger.Job) : Prop where
  counts : ∀ i o, (run capacity steps).store.Stored i o →
    o.history.length = (jobs.filter (·.orderId = i)).length
  known : ∀ job ∈ jobs, (run capacity steps).store.orders.contains job.orderId = true
  stages : ∀ i k, k < (jobs.filter (·.orderId = i)).length → ∃ p, Stage capacity steps i k p
  told : ∀ i k p, Stage capacity steps i k p →
    (jobs.filter (·.orderId = i))[k]? = some (.ofOrder p)

theorem submitted_nil (capacity : Nat) : Submitted capacity [] [] := by
  constructor
  · intro i o ho
    cases ho
  · intro job hjob
    cases hjob
  · intro i k hk
    cases hk
  · rintro i k p ⟨before, s, rest, hsteps, -⟩
    simp at hsteps

section Step

variable (capacity : Nat) (steps : List DeskStep) (s : DeskStep) (jobs : List Ledger.Job)
  (h : Submitted capacity steps jobs)

include h

/-- There were as many jobs as entries, and there is one entry more exactly if the history grows. -/
theorem Submitted.length_history (i : String) (p : Order)
    (hp : (run capacity (steps ++ [s])).store.Stored i p) :
    p.history.length = (jobs.filter (·.orderId = i)).length +
      if decide ((run capacity steps).grows? s = some i) then 1 else 0 := by
  have hread := readable_run capacity (steps ++ [s])
  rw [run_append] at hp hread
  refine length_history_rowMoves s.moment _ _ (readable_run capacity steps) hread i _
    (rowMoves_after _ s (indexed_run capacity steps) i) _ (h.counts i) ?_ p hp
  intro hfresh
  rw [List.length_eq_zero_iff, List.filter_eq_nil_iff]
  intro job hjob hi
  have hknown := h.known job hjob
  rw [show job.orderId = i by simpa using hi, hfresh] at hknown
  cases hknown

theorem Submitted.known_append (job : Ledger.Job) (hjob : job ∈ jobs) :
    (run capacity (steps ++ [s])).store.orders.contains job.orderId = true := by
  rw [run_append]
  exact contains_rowMoves _ _ _ _ _ (rowMoves_after _ s (indexed_run capacity steps) job.orderId)
    (h.known job hjob)

/-- Where no history grows, nothing is to be submitted. -/
theorem Submitted.append_nothing (hgrows : (run capacity steps).grows? s = none) :
    Submitted capacity (steps ++ [s]) jobs := by
  constructor
  · intro i o ho
    rw [h.length_history capacity steps s jobs i o ho, hgrows]
    rfl
  · exact h.known_append capacity steps s jobs
  · intro i k hk
    obtain ⟨p, hp⟩ := h.stages i k hk
    exact ⟨p, (stage_append_iff capacity steps s i k p).2 (.inl hp)⟩
  · intro i k p hp
    rcases (stage_append_iff capacity steps s i k p).1 hp with hp | ⟨hi, -⟩
    · exact h.told i k p hp
    · rw [hgrows] at hi
      cases hi

/-- The order whose history grows is submitted as it is stored. -/
theorem Submitted.append_order (new : Order) (hgrows : (run capacity steps).grows? s = some new.id)
    (stored : (run capacity (steps ++ [s])).store.Stored new.id new) :
    Submitted capacity (steps ++ [s]) (jobs ++ [.ofOrder new]) := by
  have hread := readable_run capacity (steps ++ [s])
  have hlength := h.length_history capacity steps s jobs
  have hnew := hlength new.id new stored
  rw [hgrows, decide_eq_true rfl, if_pos rfl] at hnew
  have hmore := filter_concat_self jobs new
  constructor
  · intro i o ho
    rw [hlength i o ho, hgrows]
    by_cases hi : new.id = i
    · subst hi
      rw [hmore, List.length_append, decide_eq_true rfl]
      rfl
    · rw [filter_concat_ne jobs new i hi, decide_eq_false (by simpa using hi)]
      rfl
  · intro job hjob
    rcases List.mem_append.1 hjob with hjob | hjob
    · exact h.known_append capacity steps s jobs job hjob
    · rw [List.mem_singleton.1 hjob]
      exact OrderStore.contains_of_stored _ new.id new stored
  · intro i k hk
    by_cases hold : k < (jobs.filter (·.orderId = i)).length
    · obtain ⟨p, hp⟩ := h.stages i k hold
      exact ⟨p, (stage_append_iff capacity steps s i k p).2 (.inl hp)⟩
    · have hi : new.id = i := by
        by_contra hne
        rw [filter_concat_ne jobs new i hne] at hk
        exact hold hk
      subst hi
      rw [hmore, List.length_append, List.length_singleton] at hk
      exact ⟨new, (stage_append_iff capacity steps s new.id k new).2
        (.inr ⟨hgrows, stored, by omega⟩)⟩
  · intro i k p hp
    rcases (stage_append_iff capacity steps s i k p).1 hp with hp | ⟨hi, hstored, hentry⟩
    · have htold := h.told i k p hp
      rw [List.filter_append, List.getElem?_append_left (List.getElem?_eq_some_iff.1 htold).1]
      exact htold
    · rw [hgrows] at hi
      cases hi
      -- The row is that of the order submitted, so that both have one snapshot.
      have hjob : Ledger.Job.ofOrder new = .ofOrder p :=
        Order.ofOrder_of_render new p (Option.some.inj (stored.symm.trans hstored))
          (OrderStore.eq_withFigures_of_stored _ hread new.id new p stored hstored)
      have hlast := hlength new.id p hstored
      rw [hgrows, decide_eq_true rfl, if_pos rfl] at hlast
      have hk : k = (jobs.filter (·.orderId = new.id)).length := by omega
      rw [hmore, hk, List.getElem?_concat_length, hjob]

end Step

/-! ## Histories and entries -/

/-- What a run has submitted, what was taken out of the queue, and what the ledger holds. -/
structure Delivered (capacity : Nat) (steps : List DeskStep) (jobs taken : List Ledger.Job)
    (es : List LedgerEntry) : Prop where
  submitted : Submitted capacity steps jobs
  queued : jobs = taken ++ (run capacity steps).queue.waiting
  holds : (run capacity steps).ledger.Holds es
  stated : (es.map (·.statement)).Sublist (taken.map (·.statement))
  complete : (∀ s ∈ steps, s.event = .post → s.moment.ledgerOutage = none) →
    es.map (·.statement) = taken.map (·.statement)

theorem delivered_append (capacity : Nat) (steps : List DeskStep) (s : DeskStep)
    (jobs taken : List Ledger.Job) (es : List LedgerEntry)
    (h : Delivered capacity steps jobs taken es) (hsteps : steps.length + 1 < 2 ^ 64)
    (haccepted : (run capacity steps).grows? s ≠ none →
      (run capacity steps).queue.fate = .accepted) :
    ∃ jobs taken es, Delivered capacity (steps ++ [s]) jobs taken es := by
  obtain ⟨es', hlength, hrefers⟩ := refers_run capacity steps (by omega)
  have hes := h.holds.unique _ es es' hrefers.holds
  subst hes
  obtain ⟨submitted, took, added, hsubmits, hwaiting, hholds, hstated, hcomplete⟩ :=
    after_spec (run capacity steps) s es (indexed_run capacity steps) (readable_run capacity steps)
      hrefers (by omega) haccepted
  rw [← run_append] at hsubmits hwaiting hholds
  refine ⟨jobs ++ submitted, taken ++ took, es ++ added, ?_, ?_, hholds, ?_, ?_⟩
  · generalize hgrows : (run capacity steps).grows? s = grown at hsubmits
    cases hsubmits with
    | nothing =>
      rw [List.append_nil]
      exact h.submitted.append_nothing capacity steps s jobs hgrows
    | order new stored => exact h.submitted.append_order capacity steps s jobs new hgrows stored
  · rw [h.queued, List.append_assoc, hwaiting, List.append_assoc]
  · rw [List.map_append, List.map_append]
    exact h.stated.append hstated
  · intro hreach
    rw [List.map_append, List.map_append,
      h.complete fun s' hs' => hreach s' (List.mem_append_left _ hs'),
      hcomplete (hreach s (List.mem_append_right _ List.mem_cons_self))]

theorem delivered_run (capacity : Nat) (steps : List DeskStep) (hsteps : steps.length < 2 ^ 64)
    (hnone : NoneDropped capacity steps) :
    ∃ jobs taken es, Delivered capacity steps jobs taken es := by
  induction steps using List.reverseRecOn with
  | nil =>
    exact ⟨[], [], [], submitted_nil capacity, rfl, Ledger.holds_empty, List.Sublist.slnil,
      fun _ => rfl⟩
  | append_singleton steps s ih =>
    rw [List.length_append, List.length_singleton] at hsteps
    obtain ⟨hbefore, haccepted⟩ := noneDropped_append capacity steps s hnone
    obtain ⟨jobs, taken, es, hdelivered⟩ := ih (by omega) hbefore
    exact delivered_append capacity steps s jobs taken es hdelivered hsteps haccepted

/-- After any run in which no snapshot was dropped, once nothing waits any more, the entries about
an order state what it was after each entry of its history, in order and none of them twice. None
is missing if the ledger was in reach whenever the bookkeeper recorded: there are then as many as the
history has entries, and each has the user and the provider that the order had right after its own
entry of the history, and the hash of the order as it was then, without its reference. -/
theorem transitions_recorded (capacity : Nat) (steps : List DeskStep)
    (hsteps : steps.length < 2 ^ 64) (hnone : NoneDropped capacity steps)
    (hempty : (run capacity steps).queue.waiting = []) :
    let d := run capacity steps
    ∀ i o, d.store.Stored i o → ∃ (told : List Ledger.Statement) (records : List LedgerEntry),
      told.length = o.history.length ∧
      (∀ k, k < o.history.length → ∃ p, Stage capacity steps i k p) ∧
      (∀ k p, Stage capacity steps i k p → told[k]? = some p.statement) ∧
      d.ledger.history i = .ok records ∧
      (records.map (·.statement)).Sublist told ∧
      ((∀ s ∈ steps, s.event = .post → s.moment.ledgerOutage = none) →
        records.map (·.statement) = told ∧
        records.length = o.history.length ∧
        ∀ k p e, Stage capacity steps i k p → records[k]? = some e →
          e.orderId = i ∧ e.userId = p.userId ∧ e.providerId = p.providerId ∧
          e.payloadHash = Sha256.hexDigest
            (Text.utf8 (Coded.render (Snapshot.mk { p with ledgerRef := none })))) := by
  intro d i o ho
  obtain ⟨jobs, taken, es, hdelivered⟩ := delivered_run capacity steps hsteps hnone
  have hqueued := hdelivered.queued
  rw [hempty, List.append_nil] at hqueued
  subst hqueued
  have hcount := hdelivered.submitted.counts i o ho
  have htold : (jobs.filter (·.orderId = i)).map (·.statement) =
      (jobs.map (·.statement)).filter (·.orderId = i) := by
    rw [List.filter_map]
    rfl
  have hrecords : (es.filter (·.orderId = i)).map (·.statement) =
      (es.map (·.statement)).filter (·.orderId = i) := by
    rw [List.filter_map]
    rfl
  have hstages : ∀ k p, Stage capacity steps i k p →
      ((jobs.filter (·.orderId = i)).map (·.statement))[k]? = some p.statement := by
    intro k p hp
    rw [List.getElem?_map, hdelivered.submitted.told i k p hp, Option.map_some, statement_ofOrder]
  refine ⟨(jobs.filter (·.orderId = i)).map (·.statement), es.filter (·.orderId = i), ?_, ?_,
    hstages, hdelivered.holds.history _ es i, ?_, fun hreach => ?_⟩
  · rw [List.length_map, hcount]
  · intro k hk
    exact hdelivered.submitted.stages i k (hcount ▸ hk)
  · rw [htold, hrecords]
    exact hdelivered.stated.filter _
  · have hall : (es.filter (·.orderId = i)).map (·.statement) =
        (jobs.filter (·.orderId = i)).map (·.statement) := by
      rw [htold, hrecords, hdelivered.complete hreach]
    refine ⟨hall, ?_, fun k p e hp he => ?_⟩
    · rw [hcount, ← List.length_map (f := LedgerEntry.statement), hall, List.length_map]
    · have hmem := (List.mem_filter.1 (List.mem_of_getElem? he)).2
      have hstated : e.statement = p.statement := by
        have hk := hstages k p hp
        rw [← hall, List.getElem?_map, he] at hk
        exact Option.some.inj hk
      exact ⟨by simpa using hmem, congrArg (·.userId) hstated, congrArg (·.providerId) hstated,
        congrArg (·.payloadHash) hstated⟩

/-! ## An order that is assigned twice -/

/-- The queue accepts every snapshot if it has room for as many as there are steps. -/
theorem noneDropped_of_room (capacity : Nat) (steps : List DeskStep)
    (hopen : ∀ s ∈ steps, s.event ≠ .shut) (hroom : steps.length ≤ capacity) :
    NoneDropped capacity steps := by
  rintro before s rest rfl -
  refine accepted_of_room capacity before (fun s' hs' => hopen s' (List.mem_append_left _ hs')) ?_
  rw [List.length_append, List.length_cons] at hroom
  omega

section Stages

variable (capacity : Nat) (before after rest : List DeskStep) (s : DeskStep)
  (hafter : after = before ++ [s])

include hafter

/-- The step with which a stored order gets one more entry is a stage of it. -/
theorem stage_of_stored (i : String) (k : Nat) (old p : Order)
    (hold : (run capacity before).store.Stored i old) (hk : old.history.length = k)
    (hp : (run capacity after).store.Stored i p) (hlength : p.history.length = k + 1) :
    Stage capacity (after ++ rest) i k p := by
  subst hafter
  refine ⟨before, s, rest, (List.append_cons before s rest).symm, ?_, hp, hlength⟩
  have hread := readable_run capacity before
  have hread' := readable_run capacity (before ++ [s])
  rw [run_append] at hp hread'
  have hsame : ∀ o, (run capacity before).store.Stored i o → o.history.length = k := by
    intro o ho
    rw [OrderStore.eq_withFigures_of_stored _ hread i old o hold ho]
    exact hk
  have hgrown := length_history_rowMoves s.moment _ _ hread hread' i _
    (rowMoves_after _ s (indexed_run capacity before) i) _ hsame
    (fun hfresh => by rw [OrderStore.contains_of_stored _ i old hold] at hfresh; cases hfresh) p hp
  by_contra hno
  rw [decide_eq_false hno] at hgrown
  simp [hlength] at hgrown

/-- The step with which an order is first stored is a stage of it. -/
theorem stage_of_fresh (i : String) (p : Order)
    (hfresh : (run capacity before).store.orders.contains i = false)
    (hp : (run capacity after).store.Stored i p) : Stage capacity (after ++ rest) i 0 p := by
  subst hafter
  have hread := readable_run capacity (before ++ [s])
  rw [run_append] at hread hp
  obtain ⟨hgrown, hone⟩ := appears_rowMoves s.moment _ _ hread i _
    (rowMoves_after _ s (indexed_run capacity before) i) hfresh
  rw [OrderStore.contains_of_stored _ i p hp] at hgrown
  exact ⟨before, s, rest, (List.append_cons before s rest).symm, of_decide_eq_true hgrown.symm,
    by rwa [run_append], hone p hp⟩

end Stages

/-- The bookkeeper adds nothing to histories. -/
theorem length_history_posts (capacity : Nat) (before posts : List DeskStep)
    (h : ∀ s ∈ posts, s.event = .post) (i : String) (old p : Order)
    (hold : (run capacity before).store.Stored i old)
    (hp : (run capacity (before ++ posts)).store.Stored i p) :
    p.history.length = old.history.length := by
  induction posts using List.reverseRecOn generalizing p with
  | nil =>
    rw [List.append_nil] at hp
    rw [OrderStore.eq_withFigures_of_stored _ (readable_run capacity before) i old p hold hp]
    rfl
  | append_singleton posts s ih =>
    have hknown := contains_run_append capacity before posts i
      (OrderStore.contains_of_stored _ i old hold)
    have hread' := readable_run capacity (before ++ (posts ++ [s]))
    rw [← List.append_assoc, run_append] at hp hread'
    have hgrows : (run capacity (before ++ posts)).grows? s = none := by
      unfold grows?
      rw [h s (by simp)]
    have hlength := length_history_rowMoves s.moment _ _ (readable_run capacity (before ++ posts))
      hread' i _ (rowMoves_after _ s (indexed_run capacity (before ++ posts)) i)
      old.history.length (ih fun s' hs' => h s' (List.mem_append_left _ hs'))
      (fun hfresh => by rw [hknown] at hfresh; cases hfresh) p hp
    rwa [hgrows] at hlength

def postings : List DeskStep := List.replicate 4 posting

/-- An order is opened, assigned and rejected, and a rematch assigns it again, before the bookkeeper
records all that. -/
def recordedLate : List DeskStep := [opening, assigning, rejecting, rematching] ++ postings

theorem stage_recordedLate (k : Nat) (p : Order)
    (h : [costlyOrder, assignedOrder, rejectedOrder, rematchedOrder][k]? = some p) :
    Stage 8 recordedLate "o-1" k p := by
  have hopened := stored_opening 8
  have hassigned := stored_assigning 8
  have hrejected := (reject_assigned 8).2
  match k with
  | 0 =>
    cases h
    exact stage_of_fresh 8 [] [opening] ([assigning, rejecting, rematching] ++ postings) opening rfl
      "o-1" costlyOrder rfl hopened
  | 1 =>
    cases h
    exact stage_of_stored 8 [opening] [opening, assigning] ([rejecting, rematching] ++ postings)
      assigning rfl "o-1" 1 costlyOrder assignedOrder hopened rfl hassigned rfl
  | 2 =>
    cases h
    exact stage_of_stored 8 [opening, assigning] [opening, assigning, rejecting]
      ([rematching] ++ postings) rejecting rfl "o-1" 2 assignedOrder rejectedOrder hassigned rfl
      hrejected rfl
  | 3 =>
    cases h
    exact stage_of_stored 8 [opening, assigning, rejecting]
      [opening, assigning, rejecting, rematching] postings rematching rfl "o-1" 3 rejectedOrder
      rematchedOrder hrejected rfl (stored_rematching 8) rfl
  | k + 4 => cases h

/-- Nobody shuts the queue, and the ledger is in reach throughout. -/
theorem undisturbed_recordedLate :
    ∀ s ∈ recordedLate, s.event ≠ .shut ∧ s.moment.ledgerOutage = none := by
  intro s hs
  simp only [recordedLate, List.mem_append, List.mem_cons, List.not_mem_nil, or_false] at hs
  rcases hs with (rfl | rfl | rfl | rfl) | hs
  · exact ⟨nofun, rfl⟩
  · exact ⟨nofun, rfl⟩
  · exact ⟨nofun, rfl⟩
  · exact ⟨nofun, rfl⟩
  · rw [List.eq_of_mem_replicate hs]
    exact ⟨nofun, rfl⟩

/-- The ledger tells all four stages of the order, one after another. -/
theorem transitions_recorded_late :
    recordedLate.length < 2 ^ 64 ∧ NoneDropped 8 recordedLate ∧
      (run 8 recordedLate).queue.waiting = [] ∧
      ∃ records, (run 8 recordedLate).ledger.history "o-1" = .ok records ∧
        records.map (·.userId) = ["u-1", "u-1", "u-1", "u-1"] ∧
        records.map (·.providerId) = [none, some "p-1", none, some "p-2"] ∧
        records.map (·.payloadHash) =
          [costlyOrder, assignedOrder, rejectedOrder, rematchedOrder].map fun p => Sha256.hexDigest
            (Text.utf8 (Coded.render (Snapshot.mk { p with ledgerRef := none }))) := by
  have hsteps : recordedLate.length < 2 ^ 64 := by decide
  have hposts : ∀ s ∈ postings, s.event = .post := by
    intro s hs
    rw [List.eq_of_mem_replicate hs]
    rfl
  have hnone : NoneDropped 8 recordedLate :=
    noneDropped_of_room 8 _ (fun s hs => (undisturbed_recordedLate s hs).1) (by decide)
  have hempty : (run 8 recordedLate).queue.waiting = [] :=
    waiting_posts_eq_nil 8 _ _
      (fun s hs => (undisturbed_recordedLate s (List.mem_append_left _ hs)).1) hposts (by decide)
  obtain ⟨o, ho, -⟩ := readable_run 8 recordedLate "o-1" (contains_run_append 8 _ _ "o-1"
    (OrderStore.contains_of_stored _ _ _ (stored_rematching 8)))
  have hfour : o.history.length = 4 :=
    length_history_posts 8 _ _ hposts "o-1" rematchedOrder o (stored_rematching 8) ho
  obtain ⟨told, records, -, -, -, hhistory, -, hcomplete⟩ :=
    transitions_recorded 8 recordedLate hsteps hnone hempty "o-1" o ho
  obtain ⟨-, hlength, hall⟩ := hcomplete fun s hs _ => (undisturbed_recordedLate s hs).2
  rw [hfour] at hlength
  obtain ⟨a, b, c, d, rfl⟩ : ∃ a b c d, records = [a, b, c, d] :=
    match records, hlength with
    | [a, b, c, d], _ => ⟨a, b, c, d, rfl⟩
  obtain ⟨-, huser₀, hprovider₀, hhash₀⟩ := hall 0 _ a (stage_recordedLate 0 _ rfl) rfl
  obtain ⟨-, huser₁, hprovider₁, hhash₁⟩ := hall 1 _ b (stage_recordedLate 1 _ rfl) rfl
  obtain ⟨-, huser₂, hprovider₂, hhash₂⟩ := hall 2 _ c (stage_recordedLate 2 _ rfl) rfl
  obtain ⟨-, huser₃, hprovider₃, hhash₃⟩ := hall 3 _ d (stage_recordedLate 3 _ rfl) rfl
  refine ⟨hsteps, hnone, hempty, _, hhistory, ?_, ?_, ?_⟩
  · simp only [List.map_cons, List.map_nil, huser₀, huser₁, huser₂, huser₃]
    rfl
  · simp only [List.map_cons, List.map_nil, hprovider₀, hprovider₁, hprovider₂, hprovider₃]
    rfl
  · simp only [List.map_cons, List.map_nil, hhash₀, hhash₁, hhash₂, hhash₃]

end Desk

end OrderDispatch
