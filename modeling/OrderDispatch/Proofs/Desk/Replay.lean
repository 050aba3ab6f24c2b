import OrderDispatch.Proofs.Desk.Trail
import OrderDispatch.Proofs.Desk.Turns

/-!
# The history tells the provider

Who an order is assigned to can be told from its history alone: an assignment names its provider in
its note, a rejection ends the assignment, and nothing else has to do with it.

    holder? o.history = o.providerId, and whoever accepted or rejected was the holder then

This is so as long as nobody sets one of the three statuses of assignment by hand. The note of an
assignment is read back from both its ends, so that any text can be the name of a provider.
-/

namespace OrderDispatch

/-! ## Reading a history -/

/-- The note in the history of an order that has been assigned. -/
def assignmentNote (providerId : String) : String := "Provider " ++ providerId ++ " assigned"

/-- The provider that the note of an assignment names. -/
def noteProvider? (note : String) : Option String :=
  ((note.toList.dropPrefix? "Provider ".toList).bind (·.dropSuffix? " assigned".toList)).map
    String.ofList

theorem noteProvider?_eq_some_iff (note providerId : String) :
    noteProvider? note = some providerId ↔ note = assignmentNote providerId := by
  simp only [noteProvider?, Option.map_eq_some_iff, Option.bind_eq_some_iff,
    List.dropPrefix?_eq_some_iff, List.dropSuffix?_eq_some_iff, beq_iff_eq]
  constructor
  · rintro ⟨cs, ⟨rest, ⟨_, hnote, rfl⟩, _, rfl, rfl⟩, rfl⟩
    apply String.toList_inj.1
    simpa [assignmentNote] using hnote
  · rintro rfl
    refine ⟨providerId.toList, ⟨_, ⟨_, ?_, rfl⟩, _, rfl, rfl⟩, String.ofList_toList⟩
    simp [assignmentNote]

/-- Who holds an order behind an entry of its history, given who did before it. -/
def HistoryEntry.passOn (e : HistoryEntry) (holder : Option String) : Option String :=
  match e.status with
  | .providerAssigned => (noteProvider? e.note).or holder
  | .providerRejected => none
  | _ => holder

/-- Who holds an order after these entries of its history. -/
def holder? (entries : List HistoryEntry) : Option String :=
  entries.foldl (fun holder e => e.passOn holder) none

theorem holder?_append (entries : List HistoryEntry) (e : HistoryEntry) :
    holder? (entries ++ [e]) = e.passOn (holder? entries) := by
  unfold holder?
  rw [List.foldl_append]
  rfl

/-- The provider takes or leaves the order with this entry. -/
def HistoryEntry.IsAnswer (e : HistoryEntry) : Prop :=
  e.status = .providerAccepted ∨ e.status = .providerRejected

/-- The history tells the provider, now and whenever one answered. -/
structure Order.Traced (o : Order) : Prop where
  provider : holder? o.history = o.providerId
  answered : ∀ k e, o.history[k]? = some e → e.IsAnswer →
    holder? (o.history.take k) = some e.actor

/-- An entry that tells what becomes of the provider. -/
theorem Order.traced_append (old new : Order) (e : HistoryEntry) (hold : old.Traced)
    (hhistory : new.history = old.history ++ [e]) (hpass : e.passOn old.providerId = new.providerId)
    (hanswer : e.IsAnswer → old.providerId = some e.actor) : new.Traced := by
  constructor
  · rw [hhistory, holder?_append, hold.provider, hpass]
  · intro k e' hk he'
    rw [hhistory] at hk ⊢
    rcases Nat.lt_or_ge k old.history.length with hlt | hge
    · rw [List.getElem?_append_left hlt] at hk
      rw [List.take_append_of_le_length (Nat.le_of_lt hlt)]
      exact hold.answered k e' hk he'
    · rw [List.getElem?_append_right hge, List.getElem?_singleton] at hk
      split at hk
      · next hzero =>
        cases hk
        rw [show k = old.history.length by omega, List.take_left, hold.provider]
        exact hanswer he'
      · cases hk

/-! ## Steps and runs -/

/-- The event does not set a status of assignment by hand. -/
def DeskEvent.SparesAssignment : DeskEvent → Prop
  | .request (.updateStatus _ r) =>
    r.status ≠ .providerAssigned ∧ r.status ≠ .providerAccepted ∧ r.status ≠ .providerRejected
  | _ => True

/-- An entry of another status leaves the provider alone. -/
theorem HistoryEntry.passOn_of_ne (e : HistoryEntry) (holder : Option String)
    (hassigned : e.status ≠ .providerAssigned) (hrejected : e.status ≠ .providerRejected) :
    e.passOn holder = holder := by
  unfold passOn
  split
  · next h => exact absurd h hassigned
  · next h => exact absurd h hrejected
  · rfl

theorem Order.traced_assign (o : Order) (now : Timestamp) (providerId : String) (h : o.Traced) :
    (o.assign now providerId).Traced := by
  refine o.traced_append _ _ h rfl ?_ ?_
  · have hnote := (noteProvider?_eq_some_iff _ providerId).2 rfl
    show (noteProvider? (assignmentNote providerId)).or o.providerId = some providerId
    rw [hnote]
    rfl
  · rintro (h | h) <;> cases h

namespace Desk

theorem traced_turns (now : Timestamp) (e : DeskEvent) (i : String) (old new : Order)
    (he : e.SparesAssignment) (h : e.Turns now i old new) (hold : old.Traced) : new.Traced := by
  cases h with
  | set i r =>
    obtain ⟨hassigned, haccepted, hrejected⟩ := he
    refine old.traced_append _ _ hold rfl (HistoryEntry.passOn_of_ne _ _ hassigned hrejected) ?_
    rintro (h | h)
    · exact absurd h haccepted
    · exact absurd h hrejected
  | cancelled i r =>
    refine old.traced_append _ _ hold rfl rfl ?_
    rintro (h | h) <;> cases h
  | assigned i r providerId => exact old.traced_assign now providerId hold
  | accepted i r _ held =>
    exact old.traced_append _ _ hold rfl rfl fun _ => old.providerId_of_isAssignedTo _ held
  | rejected i r _ held =>
    exact old.traced_append _ _ hold rfl rfl fun _ => old.providerId_of_isAssignedTo _ held
  | reassigned stale rejectedBy providerId => exact old.traced_assign now providerId hold

theorem stays_traced : Stays DeskEvent.SparesAssignment Order.Traced where
  figures _ _ h := ⟨h.provider, h.answered⟩
  opened := by
    rintro r m o ⟨drawn, pickup, destination, totals, -, -, rfl⟩
    refine Order.traced_append { r.order (m.newId drawn) m.now m.later pickup destination totals with
      history := [] } _ _ ⟨rfl, ?_⟩ rfl rfl ?_
    · intro k e hk
      cases hk
    · rintro (h | h) <;> cases h
  turned := traced_turns
  noted _ _ h := ⟨h.provider, h.answered⟩

/-- After any run in which nobody sets a status of assignment by hand, the history of every stored
order tells its provider, and whoever accepted or rejected it was its provider just then. -/
theorem history_tells_provider (capacity : Nat) (steps : List DeskStep)
    (h : ∀ s ∈ steps, s.event.SparesAssignment) :
    let d := run capacity steps
    ∀ i, d.store.orders.contains i = true →
      (∃ o, d.store.Stored i o) ∧ (∃ o, d.store.get i = .ok (some o)) ∧
      ∀ o, d.store.Stored i o ∨ d.store.get i = .ok (some o) →
        holder? o.history = o.providerId ∧
        ∀ k e, o.history[k]? = some e →
          e.status = .providerAccepted ∨ e.status = .providerRejected →
          holder? (o.history.take k) = some e.actor := by
  intro d i hi
  have hread := readable_run capacity steps
  obtain ⟨o, hstored, -⟩ := hread i hi
  obtain ⟨o', hget, -⟩ := d.store.exists_found hread i hi
  refine ⟨⟨o, hstored⟩, ⟨o', hget⟩, ?_⟩
  have htraced : ∀ p, d.store.Stored i p ∨ d.store.get i = .ok (some p) → p.Traced := by
    rintro p (hp | hp)
    · exact stays_traced.stored_run _ _ capacity steps h i p hp
    · exact stays_traced.get_run _ _ capacity steps h i p hp
  exact fun p hp => ⟨(htraced p hp).provider, (htraced p hp).answered⟩

/-! ## A provider comes and goes -/

/-- An order that is found is assigned to the provider that is named. -/
theorem toBooks_assign (d : Desk) (m : Moment) (i providerId : String) (o : Order)
    (hi : Text.isBlank i = false) (hprovider : Text.isBlank providerId = false)
    (hget : d.store.get i = .ok (some o)) :
    (d.assign m i ⟨some providerId⟩).2.toBooks = {
      store := d.store.replace i o.providerId (o.assign m.now providerId)
      ledger := d.ledger
      queue := d.queue.submit (.ofOrder (o.assign m.now providerId)) } := by
  have hfound : d.get i = .ok o := get_of_store_get d i o hi hget
  have hassign : d.assign m i ⟨some providerId⟩ = d.assignProvider m i providerId := by
    unfold assign checked
    rw [hfound]
    simp only [Option.filter_some, hprovider, Bool.not_false, if_true]
  have hrevised := revise_of_get d i (fun o => .ok (o.assign m.now providerId)) o _ hget rfl
  rw [hassign]
  unfold assignProvider
  rw [hrevised]
  exact submit_toBooks _ _

theorem stored_assign (d : Desk) (m : Moment) (i providerId : String) (o : Order)
    (hi : Text.isBlank i = false) (hprovider : Text.isBlank providerId = false)
    (hget : d.store.get i = .ok (some o)) :
    (d.assign m i ⟨some providerId⟩).2.store.Stored i (o.assign m.now providerId) := by
  rw [toBooks_assign d m i providerId o hi hprovider hget]
  exact (OrderStore.row_write d.store _ i _ rfl).1

/-- With figures that are read back as they are, it is found so. -/
theorem get_assign (d : Desk) (m : Moment) (i providerId : String) (o : Order)
    (hi : Text.isBlank i = false) (hprovider : Text.isBlank providerId = false)
    (hread : Rereads.reread? o = some o) (hget : d.store.get i = .ok (some o)) :
    (d.assign m i ⟨some providerId⟩).2.store.get i = .ok (some (o.assign m.now providerId)) := by
  apply OrderStore.get_of_reread? _ i _ _ (d.stored_assign m i providerId o hi hprovider hget)
  rw [show o.assign m.now providerId = (o.assign m.now providerId).withFigures o from rfl,
    reread?_withFigures, hread]
  rfl

/-- An order that is found assigned to a provider may be rejected by it. -/
theorem reject_of_get (d : Desk) (m : Moment) (i : String) (r : RejectRequest) (o new : Order)
    (hi : Text.isBlank i = false) (hr : Text.isBlank r.providerId = false)
    (hget : d.store.get i = .ok (some o)) (hchange : rejected m.now i r o = .ok new) :
    (d.reject m i r).1 = .ok new ∧ (d.reject m i r).2.store.Stored i new := by
  have hrevised := revise_of_get d i (rejected m.now i r) o new hget hchange
  unfold reject checked requireText
  rw [hi, hr]
  simp only [Bool.false_eq_true, if_false, hrevised, true_and]
  exact stored_submit d i o.providerId new

/-- An order that is found may be cancelled, unless its status is terminal. -/
theorem cancel_of_get (d : Desk) (m : Moment) (i : String) (r : CancelRequest) (o new : Order)
    (hi : Text.isBlank i = false) (hget : d.store.get i = .ok (some o))
    (hchange : cancelled m.now r o = .ok new) :
    (d.cancel m i r).1 = .ok new ∧ (d.cancel m i r).2.store.Stored i new := by
  have hrevised := revise_of_get d i (cancelled m.now r) o new hget hchange
  unfold cancel checked requireText
  rw [hi]
  simp only [Bool.false_eq_true, if_false, hrevised, true_and]
  exact stored_submit d i o.providerId new

def assigning : DeskStep := ⟨quiet, .request (.assign "o-1" ⟨some "p-1"⟩)⟩

def rejecting : DeskStep := ⟨quiet, .request (.reject "o-1" ⟨"p-1", ""⟩)⟩

/-- The order while it is assigned. -/
def assignedOrder : Order := costlyReread.assign quiet.now "p-1"

/-- The order once it is rejected. -/
def rejectedOrder : Order :=
  { assignedOrder.pushStatus quiet.now .providerRejected "p-1" (RejectRequest.note ⟨"p-1", ""⟩) with
    providerId := none }

theorem isBlank_names : Text.isBlank "o-1" = false ∧ Text.isBlank "p-1" = false := by
  decide

theorem toBooks_assigning (capacity : Nat) :
    ∃ store : OrderStore, store.Stored "o-1" assignedOrder ∧
      (run capacity [opening, assigning]).toBooks = ⟨store, .empty,
        ((LedgerQueue.ofCapacity capacity).submit (.ofOrder costlyOrder)).submit
          (.ofOrder assignedOrder)⟩ := by
  obtain ⟨store, -, -, hopened⟩ := toBooks_opening capacity
  have hstep : ∀ d : Desk, d.after assigning = (d.assign quiet "o-1" ⟨some "p-1"⟩).2 := fun _ => rfl
  refine ⟨store.replace "o-1" none assignedOrder, (OrderStore.row_write store _ "o-1" _ rfl).1, ?_⟩
  rw [show [opening, assigning] = [opening] ++ [assigning] from rfl, run_append, hstep,
    toBooks_assign (run capacity [opening]) quiet "o-1" "p-1" costlyReread isBlank_names.1
      isBlank_names.2 (get_opening capacity), hopened]
  rfl

theorem stored_assigning (capacity : Nat) :
    (run capacity [opening, assigning]).store.Stored "o-1" assignedOrder := by
  obtain ⟨store, hstored, hbooks⟩ := toBooks_assigning capacity
  rw [hbooks]
  exact hstored

theorem reread?_assignedOrder : Rereads.reread? assignedOrder = some assignedOrder := by
  decide +kernel

theorem get_assigning (capacity : Nat) :
    (run capacity [opening, assigning]).store.get "o-1" = .ok (some assignedOrder) :=
  OrderStore.get_of_reread? _ _ _ _ (stored_assigning capacity) reread?_assignedOrder

theorem reject_assigned (capacity : Nat) :
    ((run capacity [opening, assigning]).reject quiet "o-1" ⟨"p-1", ""⟩).1 = .ok rejectedOrder ∧
      (run capacity [opening, assigning, rejecting]).store.Stored "o-1" rejectedOrder := by
  have hstep : ∀ d : Desk, d.after rejecting = (d.reject quiet "o-1" ⟨"p-1", ""⟩).2 := fun _ => rfl
  rw [show [opening, assigning, rejecting] = [opening, assigning] ++ [rejecting] from rfl,
    run_append, hstep]
  exact reject_of_get (run capacity [opening, assigning]) quiet "o-1" ⟨"p-1", ""⟩ assignedOrder _
    isBlank_names.1 isBlank_names.2 (get_assigning capacity) rfl

/-- An order is opened, assigned and rejected. Its history tells that nobody has it now, and that it
was p-1 who had it when p-1 rejected it. -/
theorem history_tells_provider_rejecting :
    (∀ s ∈ [opening, assigning, rejecting], s.event.SparesAssignment) ∧
      ∃ o, (run 1 [opening, assigning, rejecting]).store.Stored "o-1" o ∧ o.history.length = 3 ∧
        holder? o.history = none ∧ holder? (o.history.take 2) = some "p-1" := by
  have hspares : ∀ s ∈ [opening, assigning, rejecting], s.event.SparesAssignment := by
    intro s hs
    simp only [List.mem_cons, List.not_mem_nil, or_false] at hs
    rcases hs with rfl | rfl | rfl <;> trivial
  have hstored := (reject_assigned 1).2
  obtain ⟨-, -, htraced⟩ := history_tells_provider 1 _ hspares "o-1"
    (OrderStore.contains_of_stored _ _ _ hstored)
  obtain ⟨hholder, hanswered⟩ := htraced rejectedOrder (.inl hstored)
  exact ⟨hspares, rejectedOrder, hstored, rfl, hholder, hanswered 2 _ rfl (.inr rfl)⟩

end Desk

end OrderDispatch
