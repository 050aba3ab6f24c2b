import OrderDispatch.Proofs.Desk.Rows

/-!
# What becomes of an order

`MovesOn` says that an order has one more entry in its history; here is which entry that is, and
what the order must have been like before. A step turns at most one stored order into another, and
that by one of six turns:

    set         any status, by hand
    cancelled   not from a terminal status
    assigned    to any provider, from any status
    accepted    by the provider it is assigned to
    rejected    by the provider it is assigned to, who leaves it
    reassigned  while it waits for a provider after a rejection

`rowTurns_after` shows that a row else stays, appears with its opening, or gets a reference.
-/

namespace OrderDispatch

/-- The note in the history of an order that its provider has rejected. -/
def RejectRequest.note (r : RejectRequest) : String :=
  if Text.isBlank r.reason then "Provider rejected the order" else r.reason

/-- What an event that falls on a time makes of the order under an identifier. -/
inductive DeskEvent.Turns (now : Timestamp) : DeskEvent → String → Order → Order → Prop where
  | set (i : String) (r : StatusRequest) (o : Order) :
      Turns now (.request (.updateStatus i r)) i o
        (o.pushStatus now r.status (actorOrSystem r.updatedBy) r.note)
  | cancelled (i : String) (r : CancelRequest) (o : Order) (going : o.status.isTerminal = false) :
      Turns now (.request (.cancel i r)) i o
        (o.pushStatus now .cancelled (actorOrSystem r.cancelledBy) r.reason)
  | assigned (i : String) (r : AssignRequest) (providerId : String) (o : Order) :
      Turns now (.request (.assign i r)) i o (o.assign now providerId)
  | accepted (i : String) (r : AcceptRequest) (o : Order)
      (held : o.isAssignedTo r.providerId = true) :
      Turns now (.request (.accept i r)) i o
        (o.pushStatus now .providerAccepted r.providerId "Provider accepted the order")
  | rejected (i : String) (r : RejectRequest) (o : Order)
      (held : o.isAssignedTo r.providerId = true) :
      Turns now (.request (.reject i r)) i o
        { o.pushStatus now .providerRejected r.providerId r.note with providerId := none }
  | reassigned (stale : Order) (rejectedBy providerId : String) (o : Order)
      (waits : o.status = .providerRejected) (free : o.providerId = none) :
      Turns now (.rematch stale rejectedBy) stale.id o (o.assign now providerId)

/-- What a step does to the row of one order. -/
inductive RowTurns (s : DeskStep) (u t : OrderStore) (i : String) : Prop where
  | same (row : t.orders.find? i = u.orders.find? i)
  | opened (r : CreateRequest) (o : Order) (event : s.event = .request (.create r))
      (opens : r.Opens s.moment o) (id : o.id = i) (fresh : u.orders.contains i = false)
      (stored : t.Stored i o)
  | turned (old new : Order) (found : u.get i = .ok (some old))
      (turns : s.event.Turns s.moment.now i old new) (stored : t.Stored i new)
  | noted (event : s.event = .post) (old : Order) (txRef : String)
      (found : u.get i = .ok (some old)) (stored : t.Stored i { old with ledgerRef := some txRef })

/-! ## Changes of an order -/

theorem Order.isAssignedTo_of_require (o : Order) (orderId providerId : String)
    (h : o.requireAssigned orderId providerId = .ok ()) : o.isAssignedTo providerId = true := by
  unfold requireAssigned at h
  split at h
  · next hassigned => exact hassigned
  · cases h

theorem Order.providerId_of_isAssignedTo (o : Order) (providerId : String)
    (h : o.isAssignedTo providerId = true) : o.providerId = some providerId := by
  unfold isAssignedTo at h
  simp only [Bool.and_eq_true, beq_iff_eq] at h
  exact h.2

namespace Desk

theorem turns_cancelled (now : Timestamp) (i : String) (r : CancelRequest) (o o' : Order)
    (h : cancelled now r o = .ok o') : DeskEvent.Turns now (.request (.cancel i r)) i o o' := by
  unfold cancelled at h
  split at h
  · cases h
  · next hgoing =>
    cases h
    exact .cancelled i r o (by simpa using hgoing)

theorem turns_accepted (now : Timestamp) (i : String) (r : AcceptRequest) (o o' : Order)
    (h : (do
      o.requireAssigned i r.providerId
      return o.pushStatus now .providerAccepted r.providerId "Provider accepted the order" :
        Except Failure Order) = .ok o') :
    DeskEvent.Turns now (.request (.accept i r)) i o o' := by
  obtain ⟨_, hassigned, h⟩ := bind_eq_ok h
  cases h
  exact .accepted i r o (o.isAssignedTo_of_require i _ hassigned)

theorem turns_rejected (now : Timestamp) (i : String) (r : RejectRequest) (o o' : Order)
    (h : rejected now i r o = .ok o') : DeskEvent.Turns now (.request (.reject i r)) i o o' := by
  unfold rejected at h
  obtain ⟨_, hassigned, h⟩ := bind_eq_ok h
  cases h
  exact .rejected i r o (o.isAssignedTo_of_require i _ hassigned)

theorem turns_reassigned (now : Timestamp) (stale : Order) (rejectedBy providerId : String)
    (o o' : Order) (h : reassigned now providerId o = .ok o') :
    DeskEvent.Turns now (.rematch stale rejectedBy) stale.id o o' := by
  obtain ⟨⟨hwaits, hfree⟩, rfl⟩ := (reassigned_eq_ok_iff now providerId o o').1 h
  exact .reassigned stale rejectedBy providerId o hwaits hfree

/-! ## Requests -/

/-- No row changes, or that of one order does by a turn of the event. -/
def TurnsOne (now : Timestamp) (e : DeskEvent) (s t : OrderStore) : Prop :=
  t.orders = s.orders ∨ ∃ i old new, s.get i = .ok (some old) ∧ e.Turns now i old new ∧
    t.orders = s.orders.insert i (Coded.render new)

theorem turnsOne_revise (now : Timestamp) (e : DeskEvent) (d : Desk) (i : String)
    (change : Order → Except Failure Order)
    (h : ∀ o o', change o = .ok o' → e.Turns now i o o') :
    TurnsOne now e d.store (d.revise i change).2.store := by
  rcases revise_cases d i change with ⟨f, hf⟩ | ⟨old, new, hget, hchange, hok⟩
  · rw [hf]
    exact .inl rfl
  · rw [hok]
    refine .inr ⟨i, old, new, hget, h old new hchange, ?_⟩
    rw [submit_store]
    rfl

/-- A check that fails changes nothing. -/
theorem turnsOne_checked {α β : Type} (now : Timestamp) (e : DeskEvent) (d : Desk)
    (check : Except Failure α) (next : α → Except Failure β × Desk)
    (h : ∀ a, TurnsOne now e d.store (next a).2.store) :
    TurnsOne now e d.store (d.checked check next).2.store := by
  rcases checked_cases d check next with ⟨f, hf⟩ | ⟨a, -, hok⟩
  · rw [hf]
    exact .inl rfl
  · rw [hok]
    exact h a

theorem turnsOne_updateStatus (d : Desk) (m : Moment) (i : String) (r : StatusRequest) :
    TurnsOne m.now (.request (.updateStatus i r)) d.store (d.updateStatus m i r).2.store := by
  refine turnsOne_checked _ _ d _ _ fun _ => turnsOne_revise _ _ d i _ ?_
  rintro o o' ⟨⟩
  exact .set i r o

theorem turnsOne_cancel (d : Desk) (m : Moment) (i : String) (r : CancelRequest) :
    TurnsOne m.now (.request (.cancel i r)) d.store (d.cancel m i r).2.store :=
  turnsOne_checked _ _ d _ _ fun _ => turnsOne_revise _ _ d i _ (turns_cancelled m.now i r)

theorem turnsOne_assign (d : Desk) (m : Moment) (i : String) (r : AssignRequest) :
    TurnsOne m.now (.request (.assign i r)) d.store (d.assign m i r).2.store := by
  have hturns : ∀ p (o o' : Order), Except.ok (ε := Failure) (o.assign m.now p) = .ok o' →
      DeskEvent.Turns m.now (.request (.assign i r)) i o o' := by
    rintro p o o' ⟨⟩
    exact .assigned i r p o
  refine turnsOne_checked _ _ d _ _ fun o => ?_
  split
  · next p _ => exact turnsOne_revise _ _ d i _ (hturns p)
  · unfold assignBest
    generalize Matching.best m.directory o offeredProviders = found
    obtain ⟨searches, result⟩ := found
    match result with
    | .error _ | .ok [] => exact .inl rfl
    | .ok (best :: others) =>
      exact turnsOne_revise m.now _ ((d.noteSearches searches).sendOffers m o (best :: others)) i _
        (hturns best.candidate.providerId)

theorem turnsOne_accept (d : Desk) (m : Moment) (i : String) (r : AcceptRequest) :
    TurnsOne m.now (.request (.accept i r)) d.store (d.accept m i r).2.store := by
  refine turnsOne_checked _ _ d _ _ fun _ => turnsOne_checked _ _ d _ _ fun _ => ?_
  have hrevised := turnsOne_revise m.now (.request (.accept i r)) d i _ (turns_accepted m.now i r)
  generalize d.revise i _ = answer at hrevised
  obtain ⟨answer, d'⟩ := answer
  cases answer with
  | error f => exact hrevised
  | ok o =>
    -- A position of the provider may come behind it, but no row.
    have horders : (d'.noteLocation m o r.providerId r.currentLocation).store.orders =
        d'.store.orders := by
      rcases (noteLocation_cases d' m o r.providerId r.currentLocation).1 with h | ⟨report, -, h⟩
      · rw [h]
      · rw [h]
        rfl
    unfold TurnsOne
    show (d'.noteLocation m o r.providerId r.currentLocation).store.orders = _ ∨ _
    simp only [horders]
    exact hrevised

theorem turnsOne_reject (d : Desk) (m : Moment) (i : String) (r : RejectRequest) :
    TurnsOne m.now (.request (.reject i r)) d.store (d.reject m i r).2.store := by
  refine turnsOne_checked _ _ d _ _ fun _ => turnsOne_checked _ _ d _ _ fun _ => ?_
  have hrevised := turnsOne_revise m.now (.request (.reject i r)) d i _ (turns_rejected m.now i r)
  generalize d.revise i (rejected m.now i r) = answer at hrevised
  obtain ⟨answer, d'⟩ := answer
  cases answer with
  | error f => exact hrevised
  | ok o => exact hrevised

theorem orders_updateLocation (d : Desk) (m : Moment) (i : String) (r : LocationRequest) :
    (d.updateLocation m i r).2.store.orders = d.store.orders := by
  unfold updateLocation
  rcases checked_cases d (r.check i) _ with ⟨f, hf⟩ | ⟨location, -, hok⟩
  · rw [hf]
  · rw [hok]
    rcases checked_cases d (d.get i) _ with ⟨f, hf⟩ | ⟨o, -, hok⟩
    · rw [hf]
    · rw [hok]
      split <;> rfl

theorem turnsOne_rematch (d : Desk) (m : Moment) (stale : Order) (rejectedBy : String) :
    TurnsOne m.now (.rematch stale rejectedBy) d.store (d.rematch m stale rejectedBy).store := by
  unfold rematch
  generalize Matching.best m.directory stale offeredProviders = found
  obtain ⟨searches, result⟩ := found
  cases result with
  | error e => exact .inl rfl
  | ok scored =>
    simp only
    generalize scored.filter (·.candidate.providerId != rejectedBy) = others
    cases others with
    | nil => exact .inl rfl
    | cons best others =>
      exact turnsOne_revise m.now _
        ((d.noteSearches searches).sendOffers m stale (best :: others)) stale.id _
        (turns_reassigned m.now stale rejectedBy best.candidate.providerId)

/-! ## All steps -/

/-- A turn of one order, seen from the row of any. -/
theorem rowTurns_of_turnsOne (s : DeskStep) (u t : OrderStore) (i : String)
    (h : TurnsOne s.moment.now s.event u t) : RowTurns s u t i := by
  rcases h with h | ⟨j, old, new, found, turns, horders⟩
  · exact .same (by rw [h])
  · obtain ⟨hstored, hothers⟩ := OrderStore.row_write u t j new horders
    by_cases hij : i = j
    · subst hij
      exact .turned old new found turns hstored
    · exact .same (hothers i hij)

theorem rowTurns_create (d : Desk) (m : Moment) (r : CreateRequest) (i : String) :
    RowTurns ⟨m, .request (.create r)⟩ d.store (d.create m r).2.store i := by
  have h := outcome_create m d r
  generalize (d.create m r).1.map (·.id) = answer at h
  generalize (d.create m r).2 = d' at h
  cases h with
  | refused _ e books => exact .same (by rw [show d'.store = d.store from congrArg Books.store books])
  | opened r o opens store =>
    obtain ⟨hfresh, horders⟩ := OrderStore.insert_eq_ok _ _ o store
    obtain ⟨hstored, hothers⟩ := OrderStore.row_write _ _ _ o horders
    by_cases hi : o.id = i
    · subst hi
      exact .opened r o rfl opens rfl hfresh hstored
    · exact .same (hothers i (Ne.symm hi))
  | advanced _ _ _ _ target => cases target

theorem rowTurns_post (d : Desk) (m : Moment) (i : String) :
    RowTurns ⟨m, .post⟩ d.store (d.after ⟨m, .post⟩).store i := by
  have h := rowMoves m d (d.after ⟨m, .post⟩) none (.posted rfl) i
  generalize hgrown : decide ((none : Option String) = some i) = grown at h
  cases h with
  | same row => exact .same row
  | noted old txRef found stored => exact .noted rfl old txRef found stored
  | opened | advanced => cases hgrown

/-- The row of an order stays, appears, is turned into that of what has become of the order, or gets
a reference. -/
theorem rowTurns_after (d : Desk) (s : DeskStep) (i : String) :
    RowTurns s d.store (d.after s).store i := by
  obtain ⟨m, event⟩ := s
  cases event with
  | request r =>
    cases r with
    | create r => exact rowTurns_create d m r i
    | updateStatus j r => exact rowTurns_of_turnsOne _ _ _ i (turnsOne_updateStatus d m j r)
    | cancel j r => exact rowTurns_of_turnsOne _ _ _ i (turnsOne_cancel d m j r)
    | assign j r => exact rowTurns_of_turnsOne _ _ _ i (turnsOne_assign d m j r)
    | accept j r => exact rowTurns_of_turnsOne _ _ _ i (turnsOne_accept d m j r)
    | reject j r => exact rowTurns_of_turnsOne _ _ _ i (turnsOne_reject d m j r)
    | updateLocation j r =>
      refine .same ?_
      show (d.updateLocation m j r).2.store.orders.find? i = _
      rw [orders_updateLocation]
  | rematch stale rejectedBy =>
    exact rowTurns_of_turnsOne _ _ _ i (turnsOne_rematch d m stale rejectedBy)
  | post => exact rowTurns_post d m i
  | shut => exact .same rfl

/-! ## Invariants of stored orders -/

/-- A property of orders that does not look at figures, holds of an opened order, and stays whatever
becomes of it by events of a class. -/
structure Stays (allowed : DeskEvent → Prop) (P : Order → Prop) : Prop where
  figures : ∀ o p, P o → P (o.withFigures p)
  opened : ∀ (r : CreateRequest) m o, r.Opens m o → P o
  turned : ∀ now (e : DeskEvent) i old new, allowed e → e.Turns now i old new → P old → P new
  noted : ∀ o txRef, P o → P { o with ledgerRef := some txRef }

variable (allowed : DeskEvent → Prop) (P : Order → Prop) (hP : Stays allowed P)

include hP

theorem Stays.rowTurns (s : DeskStep) (u t : OrderStore) (hu : u.Readable) (ht : t.Readable)
    (hs : allowed s.event) (i : String) (h : RowTurns s u t i) (hold : ∀ o, u.Stored i o → P o)
    (o : Order) (ho : t.Stored i o) : P o := by
  cases h with
  | same row => exact hold o (row.symm.trans ho)
  | opened r p _ opens _ _ stored =>
    exact t.of_stored P hP.figures ht i p o stored (hP.opened r _ p opens) ho
  | turned old new found turns stored =>
    have hfound := u.of_get P hP.figures hu i old hold found
    exact t.of_stored P hP.figures ht i new o stored (hP.turned _ _ i old new hs turns hfound) ho
  | noted _ old txRef found stored =>
    have hfound := u.of_get P hP.figures hu i old hold found
    exact t.of_stored P hP.figures ht i _ o stored (hP.noted old txRef hfound) ho

/-- What stays with every step holds of all that is stored after a run. -/
theorem Stays.stored_run (capacity : Nat) (steps : List DeskStep)
    (h : ∀ s ∈ steps, allowed s.event) (i : String) (o : Order)
    (ho : (run capacity steps).store.Stored i o) : P o := by
  induction steps using List.reverseRecOn generalizing o with
  | nil => cases ho
  | append_singleton steps s ih =>
    have hread := readable_run capacity (steps ++ [s])
    rw [run_append] at ho hread
    exact hP.rowTurns allowed P s _ _ (readable_run capacity steps) hread (h s (by simp)) i
      (rowTurns_after _ s i) (ih fun s' hs' => h s' (List.mem_append_left _ hs')) o ho

/-- It holds of all that is found, too. -/
theorem Stays.get_run (capacity : Nat) (steps : List DeskStep)
    (h : ∀ s ∈ steps, allowed s.event) (i : String) (o : Order)
    (ho : (run capacity steps).store.get i = .ok (some o)) : P o :=
  (run capacity steps).store.of_get P hP.figures (readable_run capacity steps) i o
    (hP.stored_run allowed P capacity steps h i) ho

end Desk

end OrderDispatch
