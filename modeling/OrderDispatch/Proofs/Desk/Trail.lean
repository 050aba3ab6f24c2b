import OrderDispatch.Directory.Unreachable
import OrderDispatch.Proofs.Desk.Rows

/-!
# The trail of an order

Every stored order carries its whole history: it begins with the opening by the system, its last
entry is the status the order has, and a step adds one entry or none at the end.

    a stored order tells of its opening and of its last change        (Order.Sound)
    if the clock never runs backwards, so does the history not        (Order.InOrder)
    a step continues the history by one entry exactly if it grows     (Order.Continues)

What an order was opened with stays but for one thing. A row that is written again has been read
before, and the figures in it, coordinates, quantities, prices and amounts, are then what reading
makes of them. So its terms stay the same exactly if the row is not written again, or if they are
read back as they are; `terms_drift` shows an amount that is not.
-/

namespace OrderDispatch

namespace Order

/-- The history begins with the opening, and ends with the status of the order. -/
structure Sound (o : Order) : Prop where
  first : ∃ e, o.history.head? = some e ∧
    e.status = .created ∧ e.actor = "system" ∧ e.note = "Order created"
  last : ∃ e, o.history.getLast? = some e ∧ e.status = o.status ∧ e.timestamp = o.updatedAt

/-- The history begins no earlier than the order was created, and goes forward in time. -/
structure InOrder (o : Order) : Prop where
  created : ∀ e, o.history.head? = some e → o.createdAt ≤ e.timestamp
  ascending : o.history.Pairwise fun a b => a.timestamp ≤ b.timestamp

/-- A later record of an order: its history has been continued, by one entry or by none, and who it
belongs to and what it is about has stayed, so far as it is not told in figures. -/
structure Continues (o o' : Order) (grown : Bool) : Prop where
  history : ∃ added, o'.history = o.history ++ added ∧ added.length = if grown then 1 else 0
  id : o'.id = o.id
  userId : o'.userId = o.userId
  kind : o'.kind = o.kind
  paymentMethod : o'.paymentMethod = o.paymentMethod
  notes : o'.notes = o.notes
  createdAt : o'.createdAt = o.createdAt
  words : o.SameWords o'

/-- What an order was opened with: all but its provider, its status, its history and its place in
the ledger. -/
def terms (o : Order) : Order :=
  { o with
    providerId := none
    status := .created
    ledgerRef := none
    history := []
    updatedAt := o.createdAt }

/-- The terms are read back as the order is. -/
theorem reread?_terms (o o' : Order) (h : Rereads.reread? o = some o') :
    Rereads.reread? o.terms = some o'.terms := by
  have hread : Rereads.reread? o.terms = (Rereads.reread? o).map o.terms.withFigures :=
    reread?_withFigures o o.terms
  rw [hread, h, reread?_order o o' h]
  rfl

theorem terms_movesOn (old new : Order) (now : Timestamp) (h : old.MovesOn new now) :
    new.terms = old.terms := by
  obtain ⟨_, _, _, _, rfl⟩ := h
  rfl

theorem sound_opens (r : CreateRequest) (m : Moment) (o : Order) (h : r.Opens m o) :
    o.Sound := by
  obtain ⟨_, _, _, _, -, -, rfl⟩ := h
  exact ⟨⟨_, rfl, rfl, rfl, rfl⟩, ⟨_, rfl, rfl, rfl⟩⟩

theorem sound_movesOn (old new : Order) (now : Timestamp) (hold : old.Sound)
    (h : old.MovesOn new now) : new.Sound := by
  obtain ⟨status, actor, note, _, rfl⟩ := h
  obtain ⟨e, he, hopening⟩ := hold.first
  refine ⟨⟨e, ?_, hopening⟩, ⟨⟨status, actor, note, now⟩, ?_, rfl, rfl⟩⟩
  · show (old.history ++ [_]).head? = some e
    rw [List.head?_append, he]
    rfl
  · exact List.getLast?_concat

theorem inOrder_opens (r : CreateRequest) (m : Moment) (o : Order) (hclock : m.now ≤ m.later)
    (h : r.Opens m o) : o.InOrder := by
  obtain ⟨_, _, _, _, -, -, rfl⟩ := h
  refine ⟨?_, List.pairwise_singleton _ _⟩
  intro e he
  cases he
  exact hclock

/-- An order that was in order stays so if it moves on no earlier than its last entry. -/
theorem inOrder_movesOn (old new : Order) (now : Timestamp) (hsound : old.Sound)
    (hold : old.InOrder) (hlater : ∀ e ∈ old.history, e.timestamp ≤ now)
    (h : old.MovesOn new now) : new.InOrder := by
  obtain ⟨status, actor, note, _, rfl⟩ := h
  obtain ⟨first, hfirst, -⟩ := hsound.first
  constructor
  · intro e he
    apply hold.created
    have hhead : (old.history ++ [(⟨status, actor, note, now⟩ : HistoryEntry)]).head? = some e := he
    rw [List.head?_append, hfirst] at hhead
    rw [hfirst]
    exact hhead
  · show (old.history ++ [(⟨status, actor, note, now⟩ : HistoryEntry)]).Pairwise _
    rw [List.pairwise_append]
    refine ⟨hold.ascending, List.pairwise_singleton _ _, ?_⟩
    intro e he f hf
    rw [List.mem_singleton.1 hf]
    exact hlater e he

end Order

/-! ## One row, one story -/

/-- What a step may read off the clock, in order. -/
def DeskStep.readings (s : DeskStep) : List Timestamp := [s.moment.now, s.moment.later]

namespace Desk

/-- From one reading to the next, whether in one step or in two, the clock never goes back. -/
def ClockAscends (steps : List DeskStep) : Prop :=
  (steps.flatMap (·.readings)).Pairwise (· ≤ ·)

theorem ClockAscends.of_append (steps : List DeskStep) (s : DeskStep)
    (h : ClockAscends (steps ++ [s])) :
    ClockAscends steps ∧ s.moment.now ≤ s.moment.later ∧
      ∀ s' ∈ steps, ∀ t ∈ s'.readings, t ≤ s.moment.now := by
  unfold ClockAscends at h
  rw [List.flatMap_append, List.pairwise_append] at h
  obtain ⟨hbefore, hlast, hbetween⟩ := h
  refine ⟨hbefore, List.rel_of_pairwise_cons hlast List.mem_cons_self, fun s' hs' t ht => ?_⟩
  exact hbetween t (List.mem_flatMap.2 ⟨s', hs', ht⟩) _ List.mem_cons_self

/-- What the history of an order is after these steps. -/
structure TellsOf (steps : List DeskStep) (o : Order) : Prop where
  sound : o.Sound
  stamped : ∀ e ∈ o.history, ∃ s ∈ steps, e.timestamp ∈ s.readings
  inOrder : ClockAscends steps → o.InOrder

theorem tellsOf_withFigures (steps : List DeskStep) (o p : Order) (h : TellsOf steps o) :
    TellsOf steps (o.withFigures p) :=
  ⟨⟨h.sound.first, h.sound.last⟩, h.stamped,
    fun hclock => ⟨(h.inOrder hclock).created, (h.inOrder hclock).ascending⟩⟩

theorem tellsOf_append (steps : List DeskStep) (s : DeskStep) (o : Order) (h : TellsOf steps o) :
    TellsOf (steps ++ [s]) o := by
  refine ⟨h.sound, ?_, fun hclock => h.inOrder (hclock.of_append steps s).1⟩
  intro e he
  obtain ⟨s', hs', hstamp⟩ := h.stamped e he
  exact ⟨s', List.mem_append_left _ hs', hstamp⟩

theorem tellsOf_opens (steps : List DeskStep) (s : DeskStep) (r : CreateRequest) (o : Order)
    (h : r.Opens s.moment o) : TellsOf (steps ++ [s]) o := by
  refine ⟨Order.sound_opens r _ o h, ?_,
    fun hclock => Order.inOrder_opens r _ o (hclock.of_append steps s).2.1 h⟩
  obtain ⟨_, _, _, _, -, -, rfl⟩ := h
  intro e he
  rw [List.mem_singleton.1 he]
  exact ⟨s, by simp, List.mem_cons_of_mem _ List.mem_cons_self⟩

theorem tellsOf_movesOn (steps : List DeskStep) (s : DeskStep) (old new : Order)
    (hold : TellsOf steps old) (h : old.MovesOn new s.moment.now) :
    TellsOf (steps ++ [s]) new := by
  refine ⟨Order.sound_movesOn old new _ hold.sound h, ?_, ?_⟩
  · obtain ⟨_, _, _, _, rfl⟩ := h
    intro e he
    rcases List.mem_append.1 he with he | he
    · exact (tellsOf_append steps s old hold).stamped e he
    · rw [List.mem_singleton.1 he]
      exact ⟨s, by simp, List.mem_cons_self⟩
  · intro hclock
    obtain ⟨hbefore, -, hlater⟩ := hclock.of_append steps s
    refine Order.inOrder_movesOn old new _ hold.sound (hold.inOrder hbefore) ?_ h
    intro e he
    obtain ⟨s', hs', hstamp⟩ := hold.stamped e he
    exact hlater s' hs' _ hstamp

/-- The invariant of a run: every row tells of the steps so far. -/
theorem tellsOf_rowMoves (steps : List DeskStep) (s : DeskStep) (u t : OrderStore)
    (hu : u.Readable) (ht : t.Readable) (i : String) (grown : Bool)
    (h : RowMoves s.moment u t i grown) (hold : ∀ o, u.Stored i o → TellsOf steps o) (o : Order)
    (ho : t.Stored i o) : TellsOf (steps ++ [s]) o := by
  -- Every order with the text of the row has the same history, so one of them is enough.
  have hone : ∀ p, t.Stored i p → TellsOf (steps ++ [s]) p → TellsOf (steps ++ [s]) o :=
    fun p hp htells =>
      OrderStore.of_stored _ (tellsOf_withFigures (steps ++ [s])) t ht i p o hp htells ho
  have hfound : ∀ old, u.get i = .ok (some old) → TellsOf steps old :=
    fun old hget => OrderStore.of_get _ (tellsOf_withFigures steps) u hu i old hold hget
  cases h with
  | same row => exact tellsOf_append steps s o (hold o (row.symm.trans ho))
  | opened r p opens _ _ stored => exact hone p stored (tellsOf_opens steps s r p opens)
  | advanced old new found moves stored =>
    exact hone new stored (tellsOf_movesOn steps s old new (hfound old found) moves)
  | noted old txRef found stored =>
    have htells := tellsOf_append steps s old (hfound old found)
    exact hone _ stored ⟨⟨htells.sound.first, htells.sound.last⟩, htells.stamped,
      fun hclock => ⟨(htells.inOrder hclock).created, (htells.inOrder hclock).ascending⟩⟩

theorem tellsOf_run (capacity : Nat) (steps : List DeskStep) (i : String) (o : Order)
    (h : (run capacity steps).store.Stored i o) : TellsOf steps o := by
  induction steps using List.reverseRecOn generalizing o with
  | nil => cases h
  | append_singleton steps s ih =>
    have hread := readable_run capacity (steps ++ [s])
    rw [run_append] at h hread
    exact tellsOf_rowMoves steps s _ _ (readable_run capacity steps) hread i _
      (rowMoves_after _ s (indexed_run capacity steps) i) ih o h

/-! ## Steps -/

theorem continues_movesOn (o old new : Order) (now : Timestamp)
    (hread : Rereads.reread? o = some old) (h : old.MovesOn new now) : o.Continues new true := by
  have hwords := sameWords_of_reread? o old hread
  obtain ⟨status, actor, note, _, rfl⟩ := h
  rw [reread?_order o old hread] at hwords ⊢
  exact ⟨⟨[⟨status, actor, note, now⟩], rfl, rfl⟩, rfl, rfl, rfl, rfl, rfl, rfl,
    ⟨hwords.pickup, hwords.destination, hwords.items⟩⟩

/-- What a step leaves of a stored order. -/
theorem continues_rowMoves (m : Moment) (s t : OrderStore) (ht : t.Readable) (i : String)
    (grown : Bool) (h : RowMoves m s t i grown) (o : Order) (ho : s.Stored i o) :
    ∃ o', t.Stored i o' ∧ o.Continues o' grown ∧
      (o' = o ∨ Rereads.reread? o.terms = some o'.terms) ∧
      (o'.terms = o.terms ↔
        t.orders.find? i = s.orders.find? i ∨ Rereads.reread? o.terms = some o.terms) := by
  have hread : ∀ old, s.get i = .ok (some old) → Rereads.reread? o = some old :=
    fun old hget => OrderStore.reread?_of_get s i o old ho hget
  -- An order is read before it is written, and its terms are what reading has made of them.
  have hterms : ∀ old new : Order, s.get i = .ok (some old) → new.terms = old.terms →
      Rereads.reread? o.terms = some new.terms := by
    intro old new hget hnew
    rw [hnew]
    exact Order.reread?_terms o old (hread old hget)
  by_cases hrow : t.orders.find? i = s.orders.find? i
  · refine ⟨o, hrow.trans ho, ?_, .inl rfl, iff_of_true rfl (.inl hrow)⟩
    have hsame : o.Continues o false :=
      ⟨⟨[], by simp⟩, rfl, rfl, rfl, rfl, rfl, rfl, .refl o⟩
    cases h with
    | same | noted => exact hsame
    | opened _ _ _ _ fresh =>
      rw [OrderStore.contains_of_stored s i o ho] at fresh
      cases fresh
    | advanced old new found moves stored =>
      -- The history has grown, so the text of the row cannot be what it was.
      obtain ⟨added, hadded, hlength⟩ :=
        (continues_movesOn o old new m.now (hread old found) moves).history
      have hsame := OrderStore.eq_withFigures_of_stored t ht i o new (hrow.trans ho) stored
      have hhistory : new.history = o.history := by rw [hsame]; rfl
      rw [hhistory] at hadded
      have hempty : added = [] := by simpa using hadded
      rw [hempty] at hlength
      cases hlength
  · have hstays : ∀ new : Order, Rereads.reread? o.terms = some new.terms → (new.terms = o.terms ↔
        t.orders.find? i = s.orders.find? i ∨ Rereads.reread? o.terms = some o.terms) := by
      intro new hnew
      rw [or_iff_right hrow, hnew, Option.some_inj]
    cases h with
    | same row => exact absurd row hrow
    | opened _ _ _ _ fresh =>
      rw [OrderStore.contains_of_stored s i o ho] at fresh
      cases fresh
    | advanced old new found moves stored =>
      have hnew := hterms old new found (Order.terms_movesOn old new m.now moves)
      exact ⟨new, stored, continues_movesOn o old new m.now (hread old found) moves, .inr hnew,
        hstays new hnew⟩
    | noted old txRef found stored =>
      have hnew := hterms old { old with ledgerRef := some txRef } found rfl
      have hwords := sameWords_of_reread? o old (hread old found)
      refine ⟨_, stored, ?_, .inr hnew, hstays _ hnew⟩
      rw [reread?_order o old (hread old found)] at hwords ⊢
      exact ⟨⟨[], (List.append_nil _).symm, rfl⟩, rfl, rfl, rfl, rfl, rfl, rfl,
        ⟨hwords.pickup, hwords.destination, hwords.items⟩⟩

/-- An order appears with the step that opens it, and with a history of one entry. -/
theorem appears_rowMoves (m : Moment) (s t : OrderStore) (ht : t.Readable) (i : String)
    (grown : Bool) (h : RowMoves m s t i grown) (hfresh : s.orders.contains i = false) :
    t.orders.contains i = grown ∧ ∀ o, t.Stored i o → o.history.length = 1 := by
  cases h with
  | same row =>
    have hnone := (OrderStore.contains_eq_of_find? s t i row).trans hfresh
    refine ⟨hnone, fun o ho => ?_⟩
    rw [OrderStore.contains_of_stored t i o ho] at hnone
    cases hnone
  | opened r p opens _ _ stored =>
    refine ⟨OrderStore.contains_of_stored t i p stored, fun o ho => ?_⟩
    rw [OrderStore.eq_withFigures_of_stored t ht i p o stored ho]
    obtain ⟨_, _, _, _, -, -, rfl⟩ := opens
    rfl
  | advanced old new found | noted old txRef found =>
    rw [OrderStore.contains_of_get s i old found] at hfresh
    cases hfresh

/-- Every stored order can be read, begins with its opening, ends with its status, and goes forward
in time with the clock. A step lets a history grow by one entry exactly if it succeeds in adding to
it, and keeps the rest. The terms of an order become what is read back of them where its row is
written, so that no word of them changes, and they stay exactly if the row is not written or they
are read back as they are. -/
theorem trail (capacity : Nat) (steps : List DeskStep) :
    let d := run capacity steps
    (∀ i, d.store.orders.contains i = true → ∃ o o', d.store.Stored i o ∧
      d.store.get i = .ok (some o') ∧ Rereads.reread? o = some o') ∧
    (∀ i o, d.store.Stored i o →
      o.id = i ∧ o.Sound ∧ (ClockAscends steps → o.InOrder)) ∧
    ∀ s : DeskStep,
      let d' := d.after s
      (∀ i, d.store.orders.contains i = false →
        d'.store.orders.contains i = decide (d.grows? s = some i) ∧
        ∀ o, d'.store.Stored i o → o.history.length = 1) ∧
      ∀ i o, d.store.Stored i o →
        ∃ o', d'.store.Stored i o' ∧ o.Continues o' (decide (d.grows? s = some i)) ∧
          (o' = o ∨ Rereads.reread? o.terms = some o'.terms) ∧
          (o'.terms = o.terms ↔
            d'.store.orders.find? i = d.store.orders.find? i ∨
              Rereads.reread? o.terms = some o.terms) := by
  intro d
  have hindexed := indexed_run capacity steps
  have hread := readable_run capacity steps
  refine ⟨?_, ?_, ?_⟩
  · intro i hi
    obtain ⟨o, ho, hfin⟩ := hread i hi
    obtain ⟨o', hreread, -⟩ := o.reread?_isFinite hfin
    exact ⟨o, o', ho, OrderStore.get_of_reread? d.store i o o' ho hreread, hreread⟩
  · intro i o ho
    have htells := tellsOf_run capacity steps i o ho
    obtain ⟨p, hp, hid⟩ := hindexed.row i (OrderStore.contains_of_stored _ i o ho)
    rw [OrderStore.eq_withFigures_of_stored _ hread i p o hp ho] at htells ⊢
    exact ⟨hid, htells.sound, htells.inOrder⟩
  · intro s d'
    have hread' : d'.store.Readable := by
      have h := readable_run capacity (steps ++ [s])
      rwa [run_append] at h
    refine ⟨fun i hi => ?_, fun i o ho => ?_⟩
    · exact appears_rowMoves _ _ _ hread' i _ (rowMoves_after d s hindexed i) hi
    · exact continues_rowMoves _ _ _ hread' i _ (rowMoves_after d s hindexed i) o ho

/-! ## An amount that drifts -/

/-- A moment with the ledger in reach, and no directory. -/
def quiet : Moment where
  now := 0
  later := 0
  directory := .unreachable ""
  ledgerOutage := none
  newId _ := "o-1"

/-- A request for an item whose total has seventeen digits. -/
def costly : CreateRequest where
  userId := "u-1"
  kind := .ride
  pickup := some (.ofPoint ⟨1, 2⟩)
  destination := some (.ofPoint ⟨3, 4⟩)
  items := [⟨"", "a", 7.81207, 1584.49769047, .empty⟩]
  paymentMethod := .creditCard
  notes := none

/-- The amounts of that item. -/
def costlyTotals : Totals := ⟨12378.206872789973, 1237.8206872789972, 9902.565498231977⟩

/-- The order that the request opens. -/
def costlyOrder : Order :=
  costly.order "o-1" 0 0 (.ofPoint ⟨1, 2⟩) (.ofPoint ⟨3, 4⟩) costlyTotals

/-- What is read back of it. -/
def costlyReread : Order :=
  { costlyOrder with totalPrice := 12378.206872789971, providerFee := 9902.565498231976 }

def opening : DeskStep := ⟨quiet, .request (.create costly)⟩

def completion : DeskStep := ⟨quiet, .request (.updateStatus "o-1" ⟨.completed, "u-1", ""⟩)⟩

/-- A request that is not refused and draws a new identifier opens an order. -/
theorem toBooks_create (d : Desk) (m : Moment) (r : CreateRequest) (pickup destination : Location)
    (totals : Totals) (store : OrderStore) (hcheck : r.check = .ok (pickup, destination))
    (htotals : Totals.ofItems r.items = .ok totals)
    (hinsert : d.store.insert
      (r.order (m.newId d.drawn) m.now m.later pickup destination totals) = .ok store) :
    (d.create m r).2.toBooks = {
      store
      ledger := d.ledger
      queue := d.queue.submit (.ofOrder
        (r.order (m.newId d.drawn) m.now m.later pickup destination totals)) } := by
  unfold create draw
  rw [hcheck, htotals]
  simp only [hinsert]
  exact submit_toBooks _ _

/-- The books once the first request of all has opened an order. -/
theorem toBooks_first (capacity : Nat) (m : Moment) (r : CreateRequest)
    (pickup destination : Location) (totals : Totals) (o : Order)
    (hcheck : r.check = .ok (pickup, destination)) (htotals : Totals.ofItems r.items = .ok totals)
    (ho : r.order (m.newId 0) m.now m.later pickup destination totals = o) :
    ∃ store, OrderStore.empty.insert o = .ok store ∧ store.Stored o.id o ∧
      (run capacity [⟨m, .request (.create r)⟩]).toBooks =
        ⟨store, .empty, (LedgerQueue.ofCapacity capacity).submit (.ofOrder o)⟩ := by
  subst ho
  obtain ⟨store, hinsert⟩ : ∃ store, OrderStore.empty.insert
      (r.order (m.newId 0) m.now m.later pickup destination totals) = .ok store := ⟨_, rfl⟩
  exact ⟨store, hinsert, (OrderStore.row_write _ _ _ _ (OrderStore.insert_eq_ok _ _ _ hinsert).2).1,
    toBooks_create (ofCapacity capacity) m r _ _ _ store hcheck htotals hinsert⟩

theorem toBooks_opening (capacity : Nat) :
    ∃ store, OrderStore.empty.insert costlyOrder = .ok store ∧
      store.Stored "o-1" costlyOrder ∧ (run capacity [opening]).toBooks =
        ⟨store, .empty, (LedgerQueue.ofCapacity capacity).submit (.ofOrder costlyOrder)⟩ := by
  have htotals : Totals.ofItems costly.items = .ok costlyTotals := by decide +kernel
  exact toBooks_first capacity quiet costly _ _ costlyTotals costlyOrder rfl htotals rfl

theorem stored_opening (capacity : Nat) :
    (run capacity [opening]).store.Stored "o-1" costlyOrder := by
  obtain ⟨store, -, hstored, hbooks⟩ := toBooks_opening capacity
  rw [hbooks]
  exact hstored

theorem reread?_costlyOrder : Rereads.reread? costlyOrder = some costlyReread := by decide +kernel

theorem reread?_costlyReread : Rereads.reread? costlyReread = some costlyReread := by
  decide +kernel

theorem get_opening (capacity : Nat) :
    (run capacity [opening]).store.get "o-1" = .ok (some costlyReread) :=
  OrderStore.get_of_reread? _ _ _ _ (stored_opening capacity) reread?_costlyOrder

/-- An amount of an order is another one after a change of its status. -/
theorem terms_drift :
    ∃ o o', (run 1 [opening]).store.Stored "o-1" o ∧
      (run 1 [opening, completion]).store.Stored "o-1" o' ∧
      o.totalPrice = 12378.206872789973 ∧ o'.totalPrice = 12378.206872789971 ∧
      o'.terms ≠ o.terms := by
  have hdrift : (12378.206872789971 : Float) ≠ 12378.206872789973 := by decide
  have hrevised := revise_of_get (run 1 [opening]) "o-1"
    (fun o => .ok (o.pushStatus 0 .completed "u-1" "")) costlyReread _
    (get_opening 1) rfl
  refine ⟨costlyOrder, costlyReread.pushStatus 0 .completed "u-1" "", stored_opening 1, ?_, rfl,
    rfl, ?_⟩
  · have hstep : ∀ d : Desk, d.after completion =
        (d.revise "o-1" fun o => .ok (o.pushStatus 0 .completed "u-1" "")).2 := fun _ => rfl
    rw [show [opening, completion] = [opening] ++ [completion] from rfl, run_append, hstep,
      hrevised]
    refine (OrderStore.row_write (run 1 [opening]).store _ "o-1" _ ?_).1
    rw [submit_store]
    rfl
  · exact fun h => hdrift (congrArg Order.totalPrice h)

end Desk

end OrderDispatch
