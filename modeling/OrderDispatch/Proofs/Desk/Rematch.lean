import OrderDispatch.Proofs.Desk.Queue
import OrderDispatch.Proofs.Desk.Replay
import OrderDispatch.Proofs.Matching

/-!
# A rematch lands or yields

After a rejection the desk looks for another provider, with the order as it was then. By the time an
answer is there, anything may have become of the order. What is found counts exactly if the order
still waits for a provider, and then nothing changes but what an assignment changes:

    the row          ← the order as it is now, assigned
    provider index   ← one entry more
    ledger queue     ← one snapshot more, if it has room

In every other case the books stay as they are. The searches and the offers depend on the stale
order alone, so it makes no difference that here they fall on the moment of the assignment.
-/

namespace OrderDispatch

/-- The order waits for a provider after a rejection. -/
def Order.AwaitsProvider (o : Order) : Prop := o.status = .providerRejected ∧ o.providerId = none

namespace OrderStore

/-- Assigning a provider to an order that has none writes its row and one entry of the index. -/
theorem replace_assign (s : OrderStore) (i : String) (o : Order) (now : Timestamp)
    (providerId : String) :
    s.replace i none (o.assign now providerId) = { s with
      orders := s.orders.insert i (Coded.render (o.assign now providerId))
      byProvider := s.byProvider.insert ⟨providerId, i⟩ () } := by
  unfold replace
  rw [if_neg]
  · rfl
  · rintro ⟨⟩

/-- An order without a provider is listed under none. -/
theorem not_listed_of_get (s : OrderStore) (hs : s.Indexed) (i : String) (o : Order)
    (hget : s.get i = .ok (some o)) (hfree : o.providerId = none) (providerId : String) :
    s.byProvider.find? ⟨providerId, i⟩ = none := by
  obtain ⟨p, hp, -⟩ := hs.row i (contains_of_get s i o hget)
  have hread := reread?_order p o (reread?_of_get s i p o hp hget)
  have hnot : ¬ s.byProvider.find? ⟨providerId, i⟩ = some () := by
    rw [hs.provider, (exists_stored_iff s i p hp).2]
    rw [hread] at hfree
    exact fun h => nomatch hfree.symm.trans h
  cases hfind : s.byProvider.find? ⟨providerId, i⟩ with
  | none => rfl
  | some u => exact absurd hfind hnot

end OrderStore

namespace Desk

/-! ## After a rejection -/

theorem reject_eq_ok (d : Desk) (m : Moment) (i : String) (r : RejectRequest) (o : Order)
    (h : (d.reject m i r).1 = .ok o) :
    ∃ old, d.store.get i = .ok (some old) ∧ rejected m.now i r old = .ok o := by
  unfold reject at h
  rcases checked_cases d (requireText "order ID" i) _ with ⟨f, hf⟩ | ⟨_, -, hok⟩
  · rw [hf] at h
    cases h
  rw [hok] at h
  rcases checked_cases d (requireText "provider ID" r.providerId) _ with ⟨f, hf⟩ | ⟨_, -, hok⟩
  · rw [hf] at h
    cases h
  rw [hok] at h
  rcases revise_cases d i (rejected m.now i r) with ⟨f, hf⟩ | ⟨old, new, hget, hchange, hrevised⟩
  · rw [hf] at h
    cases h
  · rw [hrevised] at h
    cases h
    exact ⟨old, hget, hchange⟩

/-- The rejected order is the one that was named. -/
theorem id_of_reject (capacity : Nat) (before : List DeskStep) (m : Moment) (i : String)
    (r : RejectRequest) (o : Order) (ho : ((run capacity before).reject m i r).1 = .ok o) :
    o.id = i := by
  obtain ⟨old, hget, hchange⟩ := reject_eq_ok _ m i r o ho
  exact (movesOn_owner old o m.now (movesOn_rejected m.now i r old o hchange)).1.trans
    (id_of_get _ (indexed_run capacity before) i old hget)

/-- An order that has been rejected is there ever after. -/
theorem exists_found_rejected (capacity : Nat) (before since : List DeskStep) (m : Moment)
    (i : String) (r : RejectRequest) (o : Order)
    (ho : ((run capacity before).reject m i r).1 = .ok o) :
    ∃ current, (run capacity (before ++ since)).store.get o.id = .ok (some current) := by
  obtain ⟨old, hget, -⟩ := reject_eq_ok _ m i r o ho
  rw [id_of_reject capacity before m i r o ho]
  have hstored := contains_run_append capacity before since i
    (OrderStore.contains_of_get _ i old hget)
  obtain ⟨current, hcurrent, -⟩ := OrderStore.exists_found _ (readable_run _ _) i hstored
  exact ⟨current, hcurrent⟩

/-! ## The search and what it comes to -/

/-- A rematch finds nobody and changes no books, or tries to assign the next best provider. -/
theorem rematch_next (d : Desk) (m : Moment) (o : Order) (without : String) :
    ((∀ next, ¬ Matching.NextBest m.directory o offeredProviders without next) ∧
      (d.rematch m o without).toBooks = d.toBooks) ∨
    ∃ next traffic, Matching.NextBest m.directory o offeredProviders without next ∧
      d.rematch m o without =
        ({ d with traffic }.revise o.id (reassigned m.now next)).2 := by
  have hnone := Matching.exists_nextBest_iff m.directory o offeredProviders without
  have hranked := Matching.best_eq_ok_iff m.directory o offeredProviders
  have hnext := Matching.nextBest_of_filter m.directory o offeredProviders without
  unfold rematch
  generalize Matching.best m.directory o offeredProviders = found at hranked hnext
  obtain ⟨searches, result⟩ := found
  simp only at hranked hnext ⊢
  cases result with
  | error e =>
    refine .inl ⟨fun next h => ?_, rfl⟩
    obtain ⟨cs, hcs, -⟩ := hnone.1 ⟨next, h⟩
    cases (hranked _).2 ⟨cs, hcs, rfl⟩
  | ok scored =>
    cases hothers : scored.filter (·.candidate.providerId != without) with
    | nil =>
      refine .inl ⟨fun next h => ?_, by simp only [hothers]; rfl⟩
      obtain ⟨cs, hcs, s, hs, hne⟩ := hnone.1 ⟨next, h⟩
      cases (hranked _).2 ⟨cs, hcs, rfl⟩
      have hgone := List.filter_eq_nil_iff.1 hothers s hs
      simp [hne] at hgone
    | cons best others =>
      simp only [hothers]
      exact .inr ⟨best.candidate.providerId, _, hnext scored best others rfl hothers, rfl⟩

/-- Where the order waits, it is assigned to the provider, and a snapshot submitted. -/
theorem toBooks_reassigned (d : Desk) (i : String) (now : Timestamp) (next : String)
    (current : Order) (hget : d.store.get i = .ok (some current)) (hwaits : current.AwaitsProvider) :
    (d.revise i (reassigned now next)).2.toBooks = {
      store := { d.store with
        orders := d.store.orders.insert i (Coded.render (current.assign now next))
        byProvider := d.store.byProvider.insert ⟨next, i⟩ () }
      ledger := d.ledger
      queue := d.queue.submit (.ofOrder (current.assign now next)) } := by
  have hrevised := revise_of_get d i (reassigned now next) current _ hget
    ((reassigned_eq_ok_iff now next current _).2 ⟨hwaits, rfl⟩)
  rw [hrevised, submit_toBooks, hwaits.2, OrderStore.replace_assign]

/-- Where it does not wait, nothing happens. -/
theorem toBooks_not_reassigned (d : Desk) (i : String) (now : Timestamp) (next : String)
    (current : Order) (hget : d.store.get i = .ok (some current))
    (hwaits : ¬ current.AwaitsProvider) :
    (d.revise i (reassigned now next)).2.toBooks = d.toBooks := by
  rcases revise_cases d i (reassigned now next) with ⟨f, hf⟩ | ⟨old, new, hold, hchange, -⟩
  · rw [hf]
  · rw [hget] at hold
    cases hold
    exact absurd ((reassigned_eq_ok_iff now next current new).1 hchange).1 hwaits

/-- A row that is written with one more entry in the history of its order is another one. -/
theorem row_ne_of_grown (s t : OrderStore) (i : String) (old new : Order)
    (hget : s.get i = .ok (some old)) (hgrown : old.history ≠ new.history)
    (hstored : t.Stored i new) : t.orders.find? i ≠ s.orders.find? i := by
  intro hsame
  cases hrow : s.orders.find? i with
  | none =>
    rw [hrow] at hsame
    cases hsame.symm.trans hstored
  | some row =>
    have hnew : s.Stored i new := hsame.symm.trans hstored
    have hread := reread?_order new old (OrderStore.reread?_of_get s i new old hnew hget)
    apply hgrown
    rw [hread]
    rfl

/-- Whenever a rematch runs, for an order as it was when a provider rejected it and whatever has
happened since: the row of the order changes exactly if the searches are answered, somebody else
than that provider is among the best three, and the order waits for a provider at that moment. Then
the first such candidate is assigned, with one entry in the history, one in the provider index and
one snapshot submitted. Else the books stay as they are. -/
theorem rematch_lands_or_yields (capacity : Nat) (before since : List DeskStep) (earlier m : Moment)
    (i : String) (r : RejectRequest) (o : Order)
    (ho : ((run capacity before).reject earlier i r).1 = .ok o) :
    let d := run capacity (before ++ ⟨earlier, .request (.reject i r)⟩ :: since)
    let d' := d.rematch m o r.providerId
    ∃ current, d.store.get o.id = .ok (some current) ∧
      (d'.store.orders.find? o.id ≠ d.store.orders.find? o.id ↔
        (∃ cs, m.directory.Answers o 3 cs ∧
          ∃ c ∈ Matching.rank cs 3, c.candidate.providerId ≠ r.providerId) ∧
        current.status = .providerRejected ∧ current.providerId = none) ∧
      (d'.store.orders.find? o.id ≠ d.store.orders.find? o.id →
        ∃ next, Matching.NextBest m.directory o 3 r.providerId next ∧
          (∀ p, d.store.byProvider.find? ⟨p, o.id⟩ = none) ∧
          let assigned : Order := { current with
            providerId := some next
            status := .providerAssigned
            history := current.history ++
              [⟨.providerAssigned, "system", "Provider " ++ next ++ " assigned", m.now⟩]
            updatedAt := m.now }
          d'.toBooks = {
            store := { d.store with
              orders := d.store.orders.insert o.id (Coded.render assigned)
              byProvider := d.store.byProvider.insert ⟨next, o.id⟩ () }
            ledger := d.ledger
            queue := d.queue.submit (.ofOrder assigned) }) ∧
      (d'.store.orders.find? o.id = d.store.orders.find? o.id → d'.toBooks = d.toBooks) := by
  intro d d'
  have hindexed : d.store.Indexed := indexed_run capacity _
  obtain ⟨current, hget⟩ : ∃ current, d.store.get o.id = .ok (some current) :=
    exists_found_rejected capacity before _ earlier i r o ho
  refine ⟨current, hget, ?_⟩
  rw [← Matching.exists_nextBest_iff]
  rcases rematch_next d m o r.providerId with ⟨hnone, hbooks⟩ | ⟨next, traffic, hnext, hrevised⟩
  · have hsame : d'.store = d.store := congrArg Books.store hbooks
    refine ⟨⟨fun h => ?_, ?_⟩, fun h => ?_, fun _ => hbooks⟩
    · exact absurd (by rw [hsame]) h
    · rintro ⟨⟨next, h⟩, -⟩
      exact absurd h (hnone next)
    · exact absurd (by rw [hsame]) h
  by_cases hwaits : current.AwaitsProvider
  · have hbooks := toBooks_reassigned { d with traffic } o.id m.now next current hget hwaits
    rw [← hrevised] at hbooks
    have hchanged : d'.store.orders.find? o.id ≠ d.store.orders.find? o.id := by
      refine row_ne_of_grown d.store d'.store o.id current _ hget ?_
        (OrderStore.row_write d.store d'.store o.id (current.assign m.now next) ?_).1
      · exact fun h => List.cons_ne_nil _ _ (List.self_eq_append_right.1 h)
      · exact congrArg (·.store.orders) hbooks
    refine ⟨⟨fun _ => ⟨⟨next, hnext⟩, hwaits⟩, fun _ => hchanged⟩, fun _ => ?_,
      fun h => absurd h hchanged⟩
    exact ⟨next, hnext, OrderStore.not_listed_of_get d.store hindexed o.id current hget hwaits.2,
      hbooks⟩
  · have hbooks := toBooks_not_reassigned { d with traffic } o.id m.now next current hget hwaits
    rw [← hrevised] at hbooks
    have hsame : d'.store = d.store := congrArg Books.store hbooks
    refine ⟨⟨fun h => ?_, fun h => absurd h.2 hwaits⟩, fun h => ?_, fun _ => hbooks⟩
    · exact absurd (by rw [hsame]) h
    · exact absurd (by rw [hsame]) h

/-! ## A rematch that lands -/

/-- A moment with a directory that always finds one provider. -/
def helpful : Moment :=
  { quiet with directory := ⟨fun _ => .ok [⟨"p-2", "", 5, 1⟩], fun _ => .ok ()⟩ }

theorem answers_helpful (o : Order) (cs : List Candidate) :
    helpful.directory.Answers o offeredProviders cs ↔ cs = [⟨"p-2", "", 5, 1⟩] := by
  constructor
  · intro h
    cases h with
    | close _ answer => exact (Except.ok.inj answer).symm
    | wide _ _ _ _ widened => exact (Except.ok.inj widened).symm
  · rintro rfl
    exact .wide [⟨"p-2", "", 5, 1⟩] _ rfl (by decide) rfl

theorem nextBest_helpful_iff (o : Order) (next : String) :
    Matching.NextBest helpful.directory o offeredProviders "p-1" next ↔ next = "p-2" := by
  have hranked : Matching.rank [⟨"p-2", "", 5, 1⟩] offeredProviders =
      [Matching.scored ⟨"p-2", "", 5, 1⟩] := by rw [offeredProviders, Matching.rank_singleton]
  have honly : ∀ next, Matching.NextBest helpful.directory o offeredProviders "p-1" next →
      next = "p-2" := by
    rintro next ⟨cs, ahead, behind, best, hcs, hrank, -, rfl, -⟩
    rw [(answers_helpful o cs).1 hcs, hranked] at hrank
    have hbest : best ∈ [Matching.scored ⟨"p-2", "", 5, 1⟩] := by simp [hrank]
    rw [List.mem_singleton.1 hbest]
    rfl
  refine ⟨honly next, ?_⟩
  rintro rfl
  have hother : "p-2" ≠ "p-1" := by decide
  obtain ⟨next, hnext⟩ :=
    (Matching.exists_nextBest_iff helpful.directory o offeredProviders "p-1").2
      ⟨_, (answers_helpful o _).2 rfl, _, by rw [hranked]; exact List.mem_singleton_self _, hother⟩
  rwa [honly next hnext] at hnext

def rematching : DeskStep := ⟨helpful, .rematch rejectedOrder "p-1"⟩

/-- The order once the other provider has been found. -/
def rematchedOrder : Order := rejectedOrder.assign quiet.now "p-2"

theorem reread?_rejectedOrder : Rereads.reread? rejectedOrder = some rejectedOrder := by
  decide +kernel

theorem get_rejecting (capacity : Nat) :
    (run capacity [opening, assigning, rejecting]).store.get "o-1" = .ok (some rejectedOrder) :=
  OrderStore.get_of_reread? _ _ _ _ (reject_assigned capacity).2 reread?_rejectedOrder

theorem stored_rematching (capacity : Nat) :
    (run capacity [opening, assigning, rejecting, rematching]).store.Stored "o-1"
      rematchedOrder := by
  have hget := get_rejecting capacity
  rw [show [opening, assigning, rejecting, rematching] =
    [opening, assigning, rejecting] ++ [rematching] from rfl, run_append]
  generalize run capacity [opening, assigning, rejecting] = d at hget
  show (d.rematch helpful rejectedOrder "p-1").store.Stored "o-1" rematchedOrder
  rcases rematch_next d helpful rejectedOrder "p-1" with
    ⟨hnone, -⟩ | ⟨next, traffic, hnext, hrevised⟩
  · exact absurd ((nextBest_helpful_iff rejectedOrder "p-2").2 rfl) (hnone "p-2")
  · rw [(nextBest_helpful_iff rejectedOrder next).1 hnext] at hrevised
    have hbooks := toBooks_reassigned { d with traffic } "o-1" helpful.now "p-2" rejectedOrder hget
      ⟨rfl, rfl⟩
    rw [show ("o-1" : String) = rejectedOrder.id from rfl, ← hrevised] at hbooks
    exact (OrderStore.row_write d.store _ "o-1" rematchedOrder (congrArg (·.store.orders) hbooks)).1

/-- Another provider is found for the order, and its snapshot waits behind those of before. -/
theorem rematch_lands_or_yields_helpful :
    ((run 4 [opening, assigning]).reject quiet "o-1" ⟨"p-1", ""⟩).1 = .ok rejectedOrder ∧
      let d := run 4 [opening, assigning, rejecting]
      let d' := d.rematch helpful rejectedOrder "p-1"
      d'.store.Stored "o-1" rematchedOrder ∧
        d'.store.byProvider.find? ⟨"p-2", "o-1"⟩ = some () ∧
        d'.queue.waiting = d.queue.waiting ++ [.ofOrder rematchedOrder] := by
  refine ⟨(reject_assigned 4).1, ?_⟩
  have hlands := rematch_lands_or_yields 4 [opening, assigning] [] quiet helpful "o-1" ⟨"p-1", ""⟩
    rejectedOrder (reject_assigned 4).1
  dsimp only at hlands ⊢
  rw [show [opening, assigning] ++ [(⟨quiet, .request (.reject "o-1" ⟨"p-1", ""⟩)⟩ : DeskStep)] =
    [opening, assigning, rejecting] from rfl, show rejectedOrder.id = "o-1" from rfl] at hlands
  obtain ⟨current, hget, hchanged, hlanded, -⟩ := hlands
  rw [get_rejecting 4] at hget
  cases hget
  obtain ⟨cs, hcs, best, hbest, hne⟩ :=
    (Matching.exists_nextBest_iff helpful.directory rejectedOrder offeredProviders "p-1").1
      ⟨"p-2", (nextBest_helpful_iff rejectedOrder "p-2").2 rfl⟩
  obtain ⟨next, hnext, -, hbooks⟩ := hlanded (hchanged.2 ⟨⟨cs, hcs, best, hbest, hne⟩, rfl, rfl⟩)
  rw [(nextBest_helpful_iff rejectedOrder next).1 hnext] at hbooks
  have haccepted : (run 4 [opening, assigning, rejecting]).queue.fate = .accepted :=
    accepted_of_room 4 _ (by simp [opening, assigning, rejecting]) (by decide)
  generalize run 4 [opening, assigning, rejecting] = d at hbooks haccepted ⊢
  refine ⟨(OrderStore.row_write d.store _ "o-1" rematchedOrder
    (congrArg (·.store.orders) hbooks)).1, ?_, ?_⟩
  · rw [hbooks]
    simp only [Table.find?_insert, if_true]
  · have hqueue : (d.rematch helpful rejectedOrder "p-1").queue =
        d.queue.submit (.ofOrder rematchedOrder) := congrArg (·.queue) hbooks
    rw [hqueue, LedgerQueue.submit_waiting _ _ haccepted]

end Desk

end OrderDispatch
