import OrderDispatch.Proofs.Desk.Answers
import OrderDispatch.Proofs.Desk.Holding
import OrderDispatch.Proofs.Desk.Rematch
import OrderDispatch.Proofs.Desk.Settled

/-!
# What becomes of an ended order

An order that is completed, cancelled or refunded has ended. Nobody can cancel it any more, and no
rematch reaches it, however late. But only these two look at the status. An assignment does not, and
the provider that an ended order keeps may still accept or reject it:

    s.Reopens i o ↔ the step changes status, provider or history of the ended o     (ended_until_reopened)

So an order stays as it has ended exactly until a step of these kinds, or until somebody sets another
status by hand.
-/

namespace OrderDispatch

/-- Two records of an order with one status, one provider and one history. -/
structure Order.SameCourse (o o' : Order) : Prop where
  status : o'.status = o.status
  provider : o'.providerId = o.providerId
  history : o'.history = o.history

theorem Order.SameCourse.refl (o : Order) : o.SameCourse o := ⟨rfl, rfl, rfl⟩

theorem Order.SameCourse.trans {o p q : Order} (h : o.SameCourse p) (h' : p.SameCourse q) :
    o.SameCourse q :=
  ⟨h'.status.trans h.status, h'.provider.trans h.provider, h'.history.trans h.history⟩

/-- The event, at this moment, takes an ended order up again. -/
inductive DeskEvent.Reopens (m : Moment) (i : String) (o : Order) : DeskEvent → Prop where
  | set (r : StatusRequest) : Reopens m i o (.request (.updateStatus i r))
  | assigned (r : AssignRequest) (finds : r.FindsProvider m o) :
      Reopens m i o (.request (.assign i r))
  | accepted (r : AcceptRequest) (held : o.HeldBy r.providerId) :
      Reopens m i o (.request (.accept i r))
  | rejected (r : RejectRequest) (held : o.HeldBy r.providerId) :
      Reopens m i o (.request (.reject i r))

theorem DeskEvent.Reopens.target {m : Moment} {i : String} {o : Order} {r : DeskRequest}
    (h : Reopens m i o (.request r)) : r.target? = some i := by
  cases h <;> rfl

/-- The step takes an ended order up again. -/
def DeskStep.Reopens (s : DeskStep) (i : String) (o : Order) : Prop :=
  Text.isBlank i = false ∧ s.event.Reopens s.moment i o

/-! ## The course of an order across a step -/

/-- Reading a row gives back the course of the order that was written. -/
theorem OrderStore.sameCourse_of_stored (t : OrderStore) (i : String) (o o' : Order)
    (hstored : t.Stored i o) (hget : t.get i = .ok (some o')) : o.SameCourse o' := by
  rw [reread?_order o o' (reread?_of_get t i o o' hstored hget)]
  exact ⟨rfl, rfl, rfl⟩

namespace Desk

/-- An order that is found is found again after a step, and has kept its course exactly if the step
did not add to its history. -/
theorem sameCourse_rowMoves (m : Moment) (s t : OrderStore) (ht : t.Readable) (i : String)
    (grown : Bool) (h : RowMoves m s t i grown) (o : Order) (hget : s.get i = .ok (some o)) :
    ∃ o', t.get i = .ok (some o') ∧ (o.SameCourse o' ↔ grown = false) := by
  obtain ⟨o', hget', -⟩ := t.exists_found ht i
    (contains_rowMoves m s t i grown h (OrderStore.contains_of_get s i o hget))
  refine ⟨o', hget', ?_⟩
  cases h with
  | same row =>
    rw [OrderStore.get_congr s t i row, hget] at hget'
    cases hget'
    exact iff_of_true (.refl o) rfl
  | opened _ _ _ _ fresh =>
    rw [OrderStore.contains_of_get s i o hget] at fresh
    cases fresh
  | advanced old new found moves stored =>
    rw [hget] at found
    cases found
    have hread := t.sameCourse_of_stored i new o' stored hget'
    obtain ⟨status, actor, note, _, rfl⟩ := moves
    refine iff_of_false (fun hsame => ?_) nofun
    have hgrown : o.history ++ [⟨status, actor, note, m.now⟩] = o.history :=
      hread.history.symm.trans hsame.history
    exact List.cons_ne_nil _ _ (List.append_right_eq_self.1 hgrown)
  | noted old txRef found stored =>
    rw [hget] at found
    cases found
    have hread := t.sameCourse_of_stored i _ o' stored hget'
    exact iff_of_true ⟨hread.status, hread.provider, hread.history⟩ rfl

/-! ## Which requests are carried out -/

theorem exists_answered (answer : Except Failure Order × Desk) :
    (∃ a, (answered answer).1 = .ok a) ↔ ∃ o, answer.1 = .ok o := by
  obtain ⟨_ | o, _⟩ := answer <;> simp [answered, Except.map, Except.mapError]

/-- A request adds to the history of a stored order exactly if it names it and succeeds. -/
theorem grows?_request_iff (d : Desk) (m : Moment) (r : DeskRequest) (hs : d.store.Indexed)
    (i : String) (hi : d.store.orders.contains i = true) :
    d.grows? ⟨m, .request r⟩ = some i ↔
      r.target? = some i ∧ r.advances = true ∧ ∃ a, (d.carryOut m r).1 = .ok a := by
  have h := outcome_carryOut m d r hs
  show (if r.advances then (d.carryOut m r).1.toOption else none) = some i ↔ _
  generalize d.carryOut m r = answer at h
  obtain ⟨answer, d'⟩ := answer
  cases h with
  | refused => simp [Except.toOption]
  | opened r o _ store =>
    have hne : o.id ≠ i := by
      rintro rfl
      rw [(OrderStore.insert_eq_ok _ _ o store).1] at hi
      cases hi
    simp [Except.toOption, DeskRequest.target?, hne]
  | advanced _ j old new target advances => simp [Except.toOption, target, advances]
  | reported => simp [DeskRequest.advances]

/-- A request is carried out exactly if the order is right for it. -/
theorem carried_iff (answer : Except Failure Order × Desk) (i : String) {right reopens : Prop}
    (hanswer : (∃ o, answer.1 = .ok o) ↔ Text.isBlank i = false ∧ right)
    (hreopens : right ↔ reopens) :
    (true = true ∧ ∃ a, (answered answer).1 = .ok a) ↔ Text.isBlank i = false ∧ reopens := by
  rw [and_iff_right rfl, exists_answered, hanswer, hreopens]

/-- What takes an ended order up again. -/
theorem request_reopens_iff (d : Desk) (m : Moment) (r : DeskRequest) (i : String) (o : Order)
    (hget : d.store.get i = .ok (some o)) (hended : o.status.isTerminal = true) :
    (r.target? = some i ∧ r.advances = true ∧ ∃ a, (d.carryOut m r).1 = .ok a) ↔
      (⟨m, .request r⟩ : DeskStep).Reopens i o := by
  by_cases htarget : r.target? = some i
  swap
  · exact iff_of_false (fun h => htarget h.1) fun h => htarget h.2.target
  rw [and_iff_right htarget]
  cases r with
  | create r => cases htarget
  | updateStatus j r =>
    cases htarget
    refine carried_iff (d.updateStatus m i r) i ?_ (iff_of_true trivial (.set r))
    rw [d.updateStatus_succeeds_iff m i o hget, and_true]
  | cancel j r =>
    cases htarget
    refine carried_iff (d.cancel m i r) i (d.cancel_succeeds_iff m i o hget r) (iff_of_false ?_ nofun)
    rw [hended]
    nofun
  | assign j r =>
    cases htarget
    exact carried_iff (d.assign m i r) i (d.assign_succeeds_iff m i o hget r)
      ⟨.assigned r, fun | .assigned _ finds => finds⟩
  | accept j r =>
    cases htarget
    exact carried_iff (d.accept m i r) i (d.accept_succeeds_iff m i o hget r)
      ⟨.accepted r, fun | .accepted _ held => held⟩
  | reject j r =>
    cases htarget
    exact carried_iff (d.reject m i r) i (d.reject_succeeds_iff m i o hget r)
      ⟨.rejected r, fun | .rejected _ held => held⟩
  | updateLocation j r => exact iff_of_false nofun nofun

theorem awaitsRematch_of_lands (d : Desk) (m : Moment) (stale : Order) (rejectedBy : String)
    (h : d.lands m stale rejectedBy = true) : d.awaitsRematch stale.id = true := by
  unfold lands at h
  split at h
  · cases h
  · exact (Bool.and_eq_true _ _ ▸ h).2

/-- A step adds to the history of an ended order exactly if it takes it up again. -/
theorem grows?_iff_reopens (d : Desk) (s : DeskStep) (hs : d.store.Indexed) (i : String) (o : Order)
    (hget : d.store.get i = .ok (some o)) (hended : o.status.isTerminal = true) :
    d.grows? s = some i ↔ s.Reopens i o := by
  obtain ⟨m, event⟩ := s
  cases event with
  | request r =>
    rw [grows?_request_iff d m r hs i (OrderStore.contains_of_get _ i o hget)]
    exact request_reopens_iff d m r i o hget hended
  | rematch stale rejectedBy =>
    -- The order would have to be waiting for a provider, and an ended one does not.
    refine iff_of_false (fun h => ?_) fun h => nomatch h.2
    have hlands : d.lands m stale rejectedBy = true ∧ stale.id = i := by
      simpa [grows?] using h
    obtain ⟨p, hp, hwaits, -⟩ :=
      (d.awaitsRematch_iff stale.id).1 (awaitsRematch_of_lands d m stale rejectedBy hlands.1)
    rw [hlands.2, hget] at hp
    cases hp
    rw [hwaits] at hended
    cases hended
  | post | shut => exact iff_of_false nofun fun h => nomatch h.2

/-! ## Runs -/

/-- A step of a run leaves status, provider and history of an ended order alone, unless it takes the
order up again. -/
theorem ended_after (capacity : Nat) (steps : List DeskStep) (i : String) (o : Order)
    (hget : (run capacity steps).store.get i = .ok (some o)) (hended : o.status.isTerminal = true)
    (s : DeskStep) :
    ∃ o', ((run capacity steps).after s).store.get i = .ok (some o') ∧
      (o.SameCourse o' ↔ ¬ s.Reopens i o) := by
  have hs := indexed_run capacity steps
  have hread := readable_run capacity (steps ++ [s])
  rw [run_append] at hread
  obtain ⟨o', hget', hsame⟩ := sameCourse_rowMoves s.moment _ _ hread i _
    (rowMoves_after _ s hs i) o hget
  refine ⟨o', hget', hsame.trans ?_⟩
  rw [decide_eq_false_iff_not, grows?_iff_reopens _ s hs i o hget hended]

/-- After any run, an order that is completed, cancelled or refunded keeps its status, its provider
and its history with every step but these: an assignment that finds a provider, an acceptance or a
rejection by the provider that the order still has, and a status that is set by hand. Without such
a step it keeps them for good. -/
theorem ended_until_reopened (capacity : Nat) (steps : List DeskStep) (i : String) (o : Order)
    (hget : (run capacity steps).store.get i = .ok (some o))
    (hended : o.status.isTerminal = true) :
    (∀ s, ∃ o', ((run capacity steps).after s).store.get i = .ok (some o') ∧
      (o.SameCourse o' ↔ ¬ s.Reopens i o)) ∧
    ∀ since : List DeskStep,
      (∀ before s after, since = before ++ s :: after →
        ∀ p, (run capacity (steps ++ before)).store.get i = .ok (some p) → ¬ s.Reopens i p) →
      ∃ o', (run capacity (steps ++ since)).store.get i = .ok (some o') ∧ o.SameCourse o' := by
  refine ⟨ended_after capacity steps i o hget hended, fun since hsince => ?_⟩
  induction since using List.reverseRecOn with
  | nil => exact ⟨o, by rwa [List.append_nil], .refl o⟩
  | append_singleton since s ih =>
    obtain ⟨p, hp, hcourse⟩ := ih fun before s' after h =>
      hsince before s' (after ++ [s]) (by rw [h, List.append_assoc, List.cons_append])
    obtain ⟨o', ho', hsame⟩ := ended_after capacity (steps ++ since) i p hp
      (by rw [hcourse.status, hended]) s
    rw [← List.append_assoc, run_append]
    exact ⟨o', ho', hcourse.trans (hsame.2 (hsince since s [] rfl p hp))⟩

/-! ## A cancelled order is accepted -/

def acceptingLate : DeskStep := ⟨quiet, .request (.accept "o-1" ⟨"p-1", none⟩)⟩

theorem get_cancelling :
    (run 1 [opening, assigning, cancelling]).store.get "o-1" = .ok (some abandonedOrder) := by
  apply OrderStore.get_of_reread? _ _ abandonedOrder _ stored_cancelling
  rw [show abandonedOrder = abandonedOrder.withFigures costlyReread from rfl, reread?_withFigures,
    reread?_costlyReread]
  rfl

/-- A second cancellation and a late rematch leave the cancelled order as it is. -/
theorem ended_until_reopened_cancelling :
    (run 1 [opening, assigning, cancelling]).store.get "o-1" = .ok (some abandonedOrder) ∧
      abandonedOrder.status.isTerminal = true ∧
      ∃ o', (run 1 ([opening, assigning, cancelling] ++
          [cancelling, ⟨helpful, .rematch rejectedOrder "p-1"⟩])).store.get "o-1" = .ok (some o') ∧
        abandonedOrder.SameCourse o' := by
  refine ⟨get_cancelling, rfl, ?_⟩
  refine (ended_until_reopened 1 _ "o-1" abandonedOrder get_cancelling rfl).2 _ ?_
  intro before s after hsplit p _ h
  have hs : s ∈ [cancelling, ⟨helpful, .rematch rejectedOrder "p-1"⟩] := by simp [hsplit]
  simp only [List.mem_cons, List.not_mem_nil, or_false] at hs
  rcases hs with rfl | rfl <;> exact nomatch h.2

/-- The provider that the cancelled order has kept accepts it, and it is no longer cancelled. -/
theorem cancelled_then_accepted :
    ∃ o o', (run 1 [opening, assigning, cancelling]).store.get "o-1" = .ok (some o) ∧
      o.status = .cancelled ∧
      ((run 1 [opening, assigning, cancelling]).accept quiet "o-1" ⟨"p-1", none⟩).2.store.get "o-1" =
        .ok (some o') ∧
      o'.status = .providerAccepted := by
  obtain ⟨-, hstored⟩ := accept_of_get _ quiet "o-1" abandonedOrder get_cancelling ⟨"p-1", none⟩
    isBlank_names.1 ⟨isBlank_names.2, rfl⟩
  have hstep : ∀ d : Desk, d.after acceptingLate = (d.accept quiet "o-1" ⟨"p-1", none⟩).2 :=
    fun _ => rfl
  have hread := readable_run 1 ([opening, assigning, cancelling] ++ [acceptingLate])
  rw [run_append, hstep] at hread
  obtain ⟨o', hget', -⟩ := OrderStore.exists_found _ hread "o-1"
    (OrderStore.contains_of_stored _ _ _ hstored)
  exact ⟨abandonedOrder, o', get_cancelling, rfl, hget',
    (OrderStore.sameCourse_of_stored _ _ _ _ hstored hget').status⟩

end Desk

end OrderDispatch
