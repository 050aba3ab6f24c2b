import OrderDispatch.Desk.Backlog
import OrderDispatch.Proofs.Desk.Settled
import OrderDispatch.Tracking

/-!
# Desks that differ only behind the ledger queue

Two desks are alike if nothing tells them apart but the references of their orders to the ledger:
the same orders are found, the indexes and position reports are the same, and the directory has seen
the same calls. Every request finds the same answer at both, up to references, and leaves them
alike; so does a rematch, and so does the bookkeeper at one of them alone.

No operation looks at a reference: `IgnoresReference` says so of every change of an order, and what
is searched for an order and offered of it does not mention one. That an order is found as it was
written takes figures that settle.
-/

namespace OrderDispatch

/-- An order without its reference to the ledger. -/
def Order.unreferenced (o : Order) : Order := { o with ledgerRef := none }

/-- Orders that are the same without their references differ in nothing else. -/
theorem Order.exists_ledgerRef (o p : Order) (h : o.unreferenced = p.unreferenced) :
    ∃ ref, p = { o with ledgerRef := ref } := by
  refine ⟨p.ledgerRef, ?_⟩
  calc p = { p.unreferenced with ledgerRef := p.ledgerRef } := rfl
    _ = { o.unreferenced with ledgerRef := p.ledgerRef } := by rw [h]

/-- A change does the same to an order whatever its reference. -/
def IgnoresReference (change : Order → Except Failure Order) : Prop :=
  ∀ o : Order,
    (change o.unreferenced).map Order.unreferenced = (change o).map Order.unreferenced

/-! ## Answers up to a part -/

section Except

variable {ε α β : Type} (f : α → β)

/-- Two answers that are the same up to a part are the same failure, or differ in that part. -/
theorem map_eq_cases (x y : Except ε α) (h : x.map f = y.map f) :
    (∃ e, x = .error e ∧ y = .error e) ∨ ∃ a b, x = .ok a ∧ y = .ok b ∧ f a = f b := by
  cases x with
  | error e =>
    cases y with
    | error e' =>
      cases h
      exact .inl ⟨e, rfl, rfl⟩
    | ok b => cases h
  | ok a =>
    cases y with
    | error e => cases h
    | ok b => exact .inr ⟨a, b, rfl, rfl, Except.ok.inj h⟩

end Except

/-! ## Stores -/

namespace OrderStore

/-- The same is found under an identifier, up to references. -/
def SameAt (s t : OrderStore) (i : String) : Prop :=
  (s.get i).map (·.map Order.unreferenced) = (t.get i).map (·.map Order.unreferenced)

theorem sameAt_cases (s t : OrderStore) (i : String) (h : s.SameAt t i) :
    (∃ e, s.get i = .error e ∧ t.get i = .error e) ∨
      (s.get i = .ok none ∧ t.get i = .ok none) ∨
      ∃ o o', s.get i = .ok (some o) ∧ t.get i = .ok (some o') ∧
        o.unreferenced = o'.unreferenced := by
  rcases map_eq_cases _ _ _ h with he | ⟨a, b, ha, hb, hab⟩
  · exact .inl he
  · cases a with
    | none =>
      cases b with
      | none => exact .inr (.inl ⟨ha, hb⟩)
      | some o' => cases hab
    | some o =>
      cases b with
      | none => cases hab
      | some o' => exact .inr (.inr ⟨o, o', ha, hb, Option.some.inj hab⟩)

theorem sameAt_of_get (s t : OrderStore) (i : String) (o o' : Order)
    (hs : s.get i = .ok (some o)) (ht : t.get i = .ok (some o'))
    (h : o.unreferenced = o'.unreferenced) : s.SameAt t i := by
  unfold SameAt
  rw [hs, ht]
  show Except.ok (some o.unreferenced) = .ok (some o'.unreferenced)
  rw [h]

theorem sameAt_congr (s s' t t' : OrderStore) (i : String) (h : s.SameAt t i)
    (hs : s'.orders.find? i = s.orders.find? i) (ht : t'.orders.find? i = t.orders.find? i) :
    s'.SameAt t' i := by
  unfold SameAt
  rw [get_congr s s' i hs, get_congr t t' i ht]
  exact h

/-- An order is found where its row is, and nowhere else. -/
theorem get_eq_none_iff (s : OrderStore) (i : String) :
    s.get i = .ok none ↔ s.orders.contains i = false := by
  unfold get Table.contains
  cases s.orders.find? i with
  | none => simp
  | some row =>
    show (readRow row).map some = .ok none ↔ _
    cases (readRow row : Except StoreError Order) <;> simp [Except.map]

theorem contains_of_sameAt (s t : OrderStore) (i : String) (h : s.SameAt t i) :
    s.orders.contains i = t.orders.contains i := by
  have hnone : s.get i = .ok none ↔ t.get i = .ok none := by
    rcases sameAt_cases s t i h with ⟨e, hs, ht⟩ | ⟨hs, ht⟩ | ⟨o, o', hs, ht, -⟩ <;>
      simp [hs, ht]
  rw [get_eq_none_iff, get_eq_none_iff] at hnone
  cases hs : s.orders.contains i <;> cases ht : t.orders.contains i <;> simp_all

end OrderStore

namespace Desk

/-- Nothing tells two desks apart but the references of their orders. -/
structure Alike (d d' : Desk) : Prop where
  found : ∀ i, d.store.SameAt d'.store i
  byUser : d.store.byUser = d'.store.byUser
  byProvider : d.store.byProvider = d'.store.byProvider
  reports : d.store.reports = d'.store.reports
  sequence : d.store.sequence = d'.store.sequence
  traffic : d.traffic = d'.traffic
  drawn : d.drawn = d'.drawn

namespace Alike

theorem symm (d d' : Desk) (h : d.Alike d') : d'.Alike d where
  found i := (h.found i).symm
  byUser := h.byUser.symm
  byProvider := h.byProvider.symm
  reports := h.reports.symm
  sequence := h.sequence.symm
  traffic := h.traffic.symm
  drawn := h.drawn.symm

theorem trans (d d' d'' : Desk) (h : d.Alike d') (h' : d'.Alike d'') : d.Alike d'' where
  found i := (h.found i).trans (h'.found i)
  byUser := h.byUser.trans h'.byUser
  byProvider := h.byProvider.trans h'.byProvider
  reports := h.reports.trans h'.reports
  sequence := h.sequence.trans h'.sequence
  traffic := h.traffic.trans h'.traffic
  drawn := h.drawn.trans h'.drawn

end Alike

/-! ## Answers of the desk -/

/-- Two outcomes of an operation give the same answer up to references, and leave alike desks. -/
def Agree {ε : Type} (a a' : Except ε Order × Desk) : Prop :=
  a.1.map Order.unreferenced = a'.1.map Order.unreferenced ∧ a.2.Alike a'.2

/-- Submitting a snapshot makes no difference. -/
theorem alike_submit (d d' : Desk) (o o' : Order) (h : d.Alike d') :
    (d.submit o).Alike (d'.submit o') := by
  constructor
  · rw [submit_store, submit_store]
    exact h.found
  · rw [submit_store, submit_store]
    exact h.byUser
  · rw [submit_store, submit_store]
    exact h.byProvider
  · rw [submit_store, submit_store]
    exact h.reports
  · rw [submit_store, submit_store]
    exact h.sequence
  · rw [submit_traffic, submit_traffic]
    exact h.traffic
  · rw [submit_drawn, submit_drawn]
    exact h.drawn

/-- Searches and offers for an order are the same whatever its reference. -/
theorem alike_sendOffers (d d' : Desk) (m : Moment) (o : Order) (ref : Option String)
    (searches : List Search) (providers : List Scored) (h : d.Alike d') :
    ((d.noteSearches searches).sendOffers m o providers).Alike
      ((d'.noteSearches searches).sendOffers m { o with ledgerRef := ref } providers) where
  found := h.found
  byUser := h.byUser
  byProvider := h.byProvider
  reports := h.reports
  sequence := h.sequence
  traffic := by
    show d.traffic ++ _ ++ _ = d'.traffic ++ _ ++ _
    rw [h.traffic]
    rfl
  drawn := h.drawn

theorem alike_noteSearches (d d' : Desk) (searches : List Search) (h : d.Alike d') :
    (d.noteSearches searches).Alike (d'.noteSearches searches) where
  found := h.found
  byUser := h.byUser
  byProvider := h.byProvider
  reports := h.reports
  sequence := h.sequence
  traffic := by
    show d.traffic ++ _ = d'.traffic ++ _
    rw [h.traffic]
  drawn := h.drawn

/-- Position reports get the same numbers. -/
theorem alike_insertReport (d d' : Desk) (r : PositionReport) (drawn : Nat) (h : d.Alike d') :
    { d with store := d.store.insertReport r, drawn }.Alike
      { d' with store := d'.store.insertReport r, drawn } where
  found := h.found
  byUser := h.byUser
  byProvider := h.byProvider
  reports := by
    show d.store.reports.insert _ _ = d'.store.reports.insert _ _
    rw [h.reports, h.sequence]
  sequence := by
    show d.store.sequence + 1 = d'.store.sequence + 1
    rw [h.sequence]
  traffic := h.traffic
  drawn := rfl

theorem alike_noteLocation (d d' : Desk) (m : Moment) (o : Order) (ref : Option String)
    (providerId : String) (location : Option Location) (h : d.Alike d') :
    (d.noteLocation m o providerId location).Alike
      (d'.noteLocation m { o with ledgerRef := ref } providerId location) := by
  unfold noteLocation draw
  split
  · exact h
  · simp only [h.drawn]
    exact alike_insertReport d d' _ _ h

/-- The same order is found at both desks, up to its reference. -/
theorem get_alike (d d' : Desk) (i : String) (h : d.Alike d') :
    (d.get i).map Order.unreferenced = (d'.get i).map Order.unreferenced := by
  unfold get
  cases requireText "order ID" i with
  | error f => rfl
  | ok u =>
    simp only [ok_bind]
    rcases OrderStore.sameAt_cases _ _ i (h.found i) with
      ⟨e, hget, hget'⟩ | ⟨hget, hget'⟩ | ⟨o, o', hget, hget', hsame⟩
    · rw [hget, hget']
    · rw [hget, hget']
    · rw [hget, hget']
      exact congrArg Except.ok hsame

/-- A position is reported at both desks, and the answer is the same. -/
theorem agree_updateLocation (d d' : Desk) (m : Moment) (i : String) (r : LocationRequest)
    (h : d.Alike d') :
    (d.updateLocation m i r).1 = (d'.updateLocation m i r).1 ∧
      (d.updateLocation m i r).2.Alike (d'.updateLocation m i r).2 := by
  unfold updateLocation checked
  cases r.check i with
  | error f => exact ⟨rfl, h⟩
  | ok location =>
    simp only
    rcases map_eq_cases _ _ _ (get_alike d d' i h) with
      ⟨f, hget, hget'⟩ | ⟨o, o', hget, hget', hsame⟩
    · rw [hget, hget']
      exact ⟨rfl, h⟩
    · obtain ⟨ref, rfl⟩ := o.exists_ledgerRef o' hsame
      rw [hget, hget']
      have hassigned : { o with ledgerRef := ref }.isAssignedTo r.providerId =
          o.isAssignedTo r.providerId := rfl
      simp only [hassigned]
      split
      · unfold draw
        simp only [h.drawn]
        exact ⟨rfl, alike_insertReport d d' _ _ h⟩
      · exact ⟨rfl, h⟩

section Steady

variable (d d' : Desk) (h : d.Alike d') (exact exact' : Prop) (hd : d.store.FindsSteady exact)
  (hd' : d'.store.FindsSteady exact')

include h

theorem agree_checked {α : Type} (check : Except Failure α)
    (next next' : α → Except Failure Order × Desk) (hnext : ∀ a, Agree (next a) (next' a)) :
    Agree (d.checked check next) (d'.checked check next') := by
  cases check with
  | error f => exact ⟨rfl, h⟩
  | ok a => exact hnext a

include hd hd'

/-- The same change of the same order is refused at both desks, or written at both. -/
theorem agree_revise (i : String) (change : Order → Except Failure Order)
    (hignores : IgnoresReference change)
    (hfigures : ∀ o o', change o = .ok o' → o' = o'.withFigures o) :
    Agree (d.revise i change) (d'.revise i change) := by
  unfold revise OrderStore.update
  rcases OrderStore.sameAt_cases _ _ i (h.found i) with
    ⟨e, hget, hget'⟩ | ⟨hget, hget'⟩ | ⟨old, old', hget, hget', hold⟩
  · rw [hget, hget']
    exact ⟨rfl, h⟩
  · rw [hget, hget']
    exact ⟨rfl, h⟩
  rw [hget, hget']
  have hchanged : (change old).map Order.unreferenced = (change old').map Order.unreferenced := by
    rw [← hignores old, hold, hignores old']
  rcases map_eq_cases _ _ _ hchanged with ⟨f, hnew, hnew'⟩ | ⟨new, new', hnew, hnew', hsame⟩
  · simp only [hnew, hnew']
    exact ⟨rfl, h⟩
  simp only [hnew, hnew']
  refine ⟨congrArg Except.ok hsame, alike_submit _ _ new new' ?_⟩
  obtain ⟨hstored, hothers⟩ :=
    OrderStore.row_write d.store (d.store.replace i old.providerId new) i new rfl
  obtain ⟨hstored', hothers'⟩ :=
    OrderStore.row_write d'.store (d'.store.replace i old'.providerId new') i new' rfl
  have hsteady := (hd i old hget).1.withFigures new old (hfigures old new hnew)
  have hsteady' := (hd' i old' hget').1.withFigures new' old' (hfigures old' new' hnew')
  constructor
  · intro j
    by_cases hj : j = i
    · subst hj
      exact OrderStore.sameAt_of_get _ _ j new new'
        (OrderStore.get_of_isSteady _ j new hstored hsteady)
        (OrderStore.get_of_isSteady _ j new' hstored' hsteady') hsame
    · exact OrderStore.sameAt_congr _ _ _ _ j (h.found j) (hothers j hj) (hothers' j hj)
  · exact h.byUser
  · obtain ⟨_, rfl⟩ := old.exists_ledgerRef old' hold
    obtain ⟨_, rfl⟩ := new.exists_ledgerRef new' hsame
    unfold OrderStore.replace
    simp only [h.byProvider]
  · exact h.reports
  · exact h.sequence
  · exact h.traffic
  · exact h.drawn

theorem agree_updateStatus (m : Moment) (i : String) (r : StatusRequest) :
    Agree (d.updateStatus m i r) (d'.updateStatus m i r) := by
  refine agree_checked d d' h _ _ _ fun _ => agree_revise d d' h _ _ hd hd' i _ (fun _ => rfl) ?_
  rintro o o' ⟨⟩
  rfl

theorem agree_cancel (m : Moment) (i : String) (r : CancelRequest) :
    Agree (d.cancel m i r) (d'.cancel m i r) := by
  have hignores : IgnoresReference (cancelled m.now r) := by
    intro o
    show (cancelled m.now r o.unreferenced).map _ = _
    unfold cancelled
    show (if o.status.isTerminal then _ else _ : Except Failure Order).map _ = _
    split <;> rfl
  exact agree_checked d d' h _ _ _ fun _ => agree_revise d d' h _ _ hd hd' i _ hignores
    fun o o' hchange => (turns_cancelled m.now i r o o' hchange).figures _ _ _ _ _

theorem agree_reject (m : Moment) (i : String) (r : RejectRequest) :
    Agree (d.reject m i r) (d'.reject m i r) := by
  have hignores : IgnoresReference (rejected m.now i r) := by
    intro o
    unfold rejected
    show (do o.requireAssigned i r.providerId; _ : Except Failure Order).map _ = _
    cases o.requireAssigned i r.providerId <;> rfl
  refine agree_checked d d' h _ _ _ fun _ => agree_checked d d' h _ _ _ fun _ => ?_
  obtain ⟨hanswer, hafter⟩ := agree_revise d d' h _ _ hd hd' i _ hignores
    fun o o' hchange => (turns_rejected m.now i r o o' hchange).figures _ _ _ _ _
  generalize d.revise i (rejected m.now i r) = a at hanswer hafter
  generalize d'.revise i (rejected m.now i r) = a' at hanswer hafter
  obtain ⟨answer, e⟩ := a
  obtain ⟨answer', e'⟩ := a'
  rcases map_eq_cases _ _ _ hanswer with ⟨f, rfl, rfl⟩ | ⟨o, o', rfl, rfl, hsame⟩
  · exact ⟨rfl, hafter⟩
  · exact ⟨congrArg Except.ok hsame, hafter.found, hafter.byUser, hafter.byProvider,
      hafter.reports, hafter.sequence, hafter.traffic, hafter.drawn⟩

theorem agree_accept (m : Moment) (i : String) (r : AcceptRequest) :
    Agree (d.accept m i r) (d'.accept m i r) := by
  let change : Order → Except Failure Order := fun o => do
    o.requireAssigned i r.providerId
    return o.pushStatus m.now .providerAccepted r.providerId "Provider accepted the order"
  have hignores : IgnoresReference change := by
    intro o
    show (do o.requireAssigned i r.providerId; _ : Except Failure Order).map _ = (change o).map _
    unfold change
    cases o.requireAssigned i r.providerId <;> rfl
  refine agree_checked d d' h _ _ _ fun _ => agree_checked d d' h _ _ _ fun _ => ?_
  obtain ⟨hanswer, hafter⟩ := agree_revise d d' h _ _ hd hd' i change hignores
    fun o o' hchange => (turns_accepted m.now i r o o' hchange).figures _ _ _ _ _
  generalize d.revise i change = a at hanswer hafter
  generalize d'.revise i change = a' at hanswer hafter
  obtain ⟨answer, e⟩ := a
  obtain ⟨answer', e'⟩ := a'
  rcases map_eq_cases _ _ _ hanswer with ⟨f, rfl, rfl⟩ | ⟨o, o', rfl, rfl, hsame⟩
  · exact ⟨rfl, hafter⟩
  · obtain ⟨ref, rfl⟩ := o.exists_ledgerRef o' hsame
    exact ⟨rfl, alike_noteLocation e e' m o ref r.providerId r.currentLocation hafter⟩

theorem agree_assignProvider (m : Moment) (i providerId : String) :
    Agree (d.assignProvider m i providerId) (d'.assignProvider m i providerId) := by
  refine agree_revise d d' h _ _ hd hd' i _ (fun _ => rfl) ?_
  rintro o o' ⟨⟩
  rfl

theorem agree_assignBest (m : Moment) (i : String) (o : Order) (ref : Option String) :
    Agree (d.assignBest m i o) (d'.assignBest m i { o with ledgerRef := ref }) := by
  have hbest : Matching.best m.directory { o with ledgerRef := ref } offeredProviders =
      Matching.best m.directory o offeredProviders := rfl
  unfold assignBest
  rw [hbest]
  generalize Matching.best m.directory o offeredProviders = found
  obtain ⟨searches, result⟩ := found
  match result with
  | .error e => exact ⟨rfl, alike_noteSearches d d' searches h⟩
  | .ok [] => exact ⟨rfl, alike_noteSearches d d' searches h⟩
  | .ok (best :: others) =>
    exact agree_assignProvider _ _ (alike_sendOffers d d' m o ref searches (best :: others) h)
      _ _ hd hd' m i best.candidate.providerId

theorem agree_assign (m : Moment) (i : String) (r : AssignRequest) :
    Agree (d.assign m i r) (d'.assign m i r) := by
  unfold assign checked
  rcases map_eq_cases _ _ _ (get_alike d d' i h) with
    ⟨f, hget, hget'⟩ | ⟨o, o', hget, hget', hsame⟩
  · rw [hget, hget']
    exact ⟨rfl, h⟩
  · obtain ⟨ref, rfl⟩ := o.exists_ledgerRef o' hsame
    rw [hget, hget']
    simp only
    split
    · exact agree_assignProvider d d' h _ _ hd hd' m i _
    · exact agree_assignBest d d' h _ _ hd hd' m i o ref

/-- A rematch comes to the same at both desks, whatever the reference that the order had. -/
theorem alike_rematch (m : Moment) (o : Order) (ref : Option String) (rejectedBy : String) :
    (d.rematch m o rejectedBy).Alike (d'.rematch m { o with ledgerRef := ref } rejectedBy) := by
  have hbest : Matching.best m.directory { o with ledgerRef := ref } offeredProviders =
      Matching.best m.directory o offeredProviders := rfl
  unfold rematch
  rw [hbest]
  generalize Matching.best m.directory o offeredProviders = found
  obtain ⟨searches, result⟩ := found
  cases result with
  | error e => exact alike_noteSearches d d' searches h
  | ok scored =>
    simp only
    generalize scored.filter (·.candidate.providerId != rejectedBy) = others
    cases others with
    | nil => exact alike_noteSearches d d' searches h
    | cons best others =>
      have hignores : IgnoresReference (reassigned m.now best.candidate.providerId) := by
        intro p
        unfold reassigned
        show (if p.status ≠ .providerRejected ∨ p.providerId.isSome then _ else _ :
          Except Failure Order).map _ = _
        split <;> rfl
      exact (agree_revise _ _ (alike_sendOffers d d' m o ref searches (best :: others) h) _ _ hd hd'
        o.id _ hignores fun p p' hchange =>
          (turns_reassigned m.now o rejectedBy best.candidate.providerId p p' hchange).figures
            _ _ _ _ _).2

omit hd' in
/-- What the bookkeeper records makes no difference. -/
theorem alike_post (m : Moment) : (d.after ⟨m, .post⟩).Alike d' := by
  have hposts := Books.posts_postNext m.now m.ledgerOutage d.toBooks
  show Desk.Alike { d with toBooks := d.toBooks.postNext m.now m.ledgerOutage } d'
  generalize d.toBooks.postNext m.now m.ledgerOutage = b at hposts
  cases hposts with
  | nothing => exact h
  | lost | recorded =>
    exact ⟨h.found, h.byUser, h.byProvider, h.reports, h.sequence, h.traffic, h.drawn⟩
  | noted job rest txRef ledger old waiting record found =>
    refine ⟨fun j => ?_, h.byUser, ?_, h.reports, h.sequence, h.traffic, h.drawn⟩
    · obtain ⟨hstored, hothers⟩ := OrderStore.row_write d.store
        (d.store.replace job.orderId old.providerId { old with ledgerRef := some txRef })
        job.orderId _ rfl
      by_cases hj : j = job.orderId
      · subst hj
        have hsteady := (hd job.orderId old found).1.withFigures
          { old with ledgerRef := some txRef } old rfl
        have hget := OrderStore.get_of_isSteady _ _ _ hstored hsteady
        have hsame : (d.store.get job.orderId).map (·.map Order.unreferenced) = _ :=
          h.found job.orderId
        unfold OrderStore.SameAt
        rw [← hsame, found]
        exact (congrArg (Except.map _) hget).trans rfl
      · exact OrderStore.sameAt_congr _ _ _ _ j (h.found j) (hothers j hj) rfl
    · have hkept : (d.store.replace job.orderId old.providerId
          { old with ledgerRef := some txRef }).byProvider = d.store.byProvider := if_pos rfl
      exact hkept.trans h.byProvider

end Steady

/-- An order is opened at both desks, or at none, with the same answer. -/
theorem agree_create (d d' : Desk) (m : Moment) (r : CreateRequest) (h : d.Alike d') :
    Agree (d.create m r) (d'.create m r) := by
  unfold create
  cases r.check with
  | error f => exact ⟨rfl, h⟩
  | ok places =>
    simp only
    cases Totals.ofItems r.items with
    | error o => exact ⟨rfl, h⟩
    | ok totals =>
      simp only [draw, h.drawn]
      have hdrawn : { d with drawn := d'.drawn + 1 }.Alike { d' with drawn := d'.drawn + 1 } :=
        ⟨h.found, h.byUser, h.byProvider, h.reports, h.sequence, h.traffic, rfl⟩
      generalize r.order (m.newId d'.drawn) m.now m.later places.1 places.2 totals = o
      unfold OrderStore.insert
      rw [OrderStore.contains_of_sameAt _ _ _ (h.found o.id)]
      by_cases hknown : d'.store.orders.contains o.id = true
      · simp only [if_pos hknown]
        exact ⟨rfl, hdrawn⟩
      · simp only [if_neg hknown]
        refine ⟨rfl, alike_submit _ _ o o ?_⟩
        refine ⟨fun j => ?_, ?_, ?_, h.reports, h.sequence, h.traffic, rfl⟩
        · by_cases hj : j = o.id
          · subst hj
            unfold OrderStore.SameAt OrderStore.get
            simp only [Table.find?_insert, if_true]
          · apply OrderStore.sameAt_congr _ _ _ _ j (h.found j)
            · exact (Table.find?_insert _ _ _ _).trans (if_neg hj)
            · exact (Table.find?_insert _ _ _ _).trans (if_neg hj)
        · simp only [h.byUser]
        · simp only [h.byProvider]

end Desk

end OrderDispatch
