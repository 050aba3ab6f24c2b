import OrderDispatch.Proofs.Desk.Replay

/-!
# Who has an order

An order has a provider exactly while it is assigned to one or accepted by one, as long as nobody
sets a status by hand. Only a cancellation does not see to that: it leaves the provider as it was,
so that a cancelled order has one exactly if it was assigned or accepted just before.

    o.status ≠ cancelled → (o.providerId.isSome ↔ o.status.IsEngaged)     (Order.Stands)
-/

namespace OrderDispatch

/-- A provider is engaged for the order. -/
def OrderStatus.IsEngaged (s : OrderStatus) : Prop := s = .providerAssigned ∨ s = .providerAccepted

/-- The event sets no status by hand. -/
def DeskEvent.SparesStatus : DeskEvent → Prop
  | .request (.updateStatus ..) => False
  | _ => True

/-- The order has a provider as its status says, or the status that it was cancelled from. -/
structure Order.Stands (o : Order) : Prop where
  last : ∃ earlier e, o.history = earlier ++ [e] ∧ e.status = o.status
  going : o.status ≠ .cancelled → (o.providerId.isSome = true ↔ o.status.IsEngaged)
  cancelled : o.status = .cancelled → ∃ earlier e cancellation,
    o.history = earlier ++ [e, cancellation] ∧ (o.providerId.isSome = true ↔ e.status.IsEngaged)

/-- An order that moves on to another status than that of a cancelled one stands as that says. -/
theorem Order.stands_of_going (old new : Order) (e : HistoryEntry)
    (hhistory : new.history = old.history ++ [e]) (hstatus : e.status = new.status)
    (hgoing : new.status ≠ .cancelled)
    (hprovider : new.providerId.isSome = true ↔ new.status.IsEngaged) : new.Stands :=
  ⟨⟨_, e, hhistory, hstatus⟩, fun _ => hprovider, fun h => absurd h hgoing⟩

theorem Order.stands_assign (o : Order) (now : Timestamp) (providerId : String) :
    (o.assign now providerId).Stands :=
  o.stands_of_going _ _ rfl rfl nofun (iff_of_true rfl (.inl rfl))

theorem Order.stands_cancelled (o : Order) (now : Timestamp) (actor note : String)
    (hgoing : o.status ≠ .cancelled) (h : o.Stands) :
    (o.pushStatus now .cancelled actor note).Stands := by
  obtain ⟨earlier, e, hhistory, hstatus⟩ := h.last
  refine ⟨⟨o.history, ⟨.cancelled, actor, note, now⟩, rfl, rfl⟩, fun h => absurd rfl h, fun _ => ?_⟩
  refine ⟨earlier, e, ⟨.cancelled, actor, note, now⟩, ?_, ?_⟩
  · show o.history ++ [_] = _
    rw [hhistory, List.append_assoc]
    rfl
  · rw [hstatus]
    exact h.going hgoing

namespace Desk

theorem stands_turns (now : Timestamp) (e : DeskEvent) (i : String) (old new : Order)
    (he : e.SparesStatus) (h : e.Turns now i old new) (hold : old.Stands) : new.Stands := by
  cases h with
  | set => exact he.elim
  | cancelled i r _ going =>
    refine old.stands_cancelled now _ _ (fun h => ?_) hold
    rw [h] at going
    cases going
  | assigned | reassigned => exact old.stands_assign now _
  | accepted i r _ held =>
    refine old.stands_of_going _ ⟨_, _, _, now⟩ rfl rfl nofun (iff_of_true ?_ (.inr rfl))
    show old.providerId.isSome = true
    rw [old.providerId_of_isAssignedTo _ held]
    rfl
  | rejected i r =>
    exact old.stands_of_going _ ⟨_, _, _, now⟩ rfl rfl nofun (iff_of_false nofun nofun)

theorem stays_stands : Stays DeskEvent.SparesStatus Order.Stands where
  figures _ _ h := ⟨h.last, h.going, h.cancelled⟩
  opened := by
    rintro r m o ⟨_, _, _, _, -, -, rfl⟩
    exact ⟨⟨[], _, rfl, rfl⟩, fun _ => iff_of_false nofun nofun, nofun⟩
  turned := stands_turns
  noted _ _ h := ⟨h.last, h.going, h.cancelled⟩

/-- After any run in which nobody sets a status by hand, an order that is not cancelled has a
provider exactly if it is assigned or accepted, and a cancelled one exactly if it was either when it
was cancelled. -/
theorem provider_follows_status (capacity : Nat) (steps : List DeskStep)
    (h : ∀ s ∈ steps, s.event.SparesStatus) :
    let d := run capacity steps
    ∀ i, d.store.orders.contains i = true →
      (∃ o, d.store.Stored i o) ∧ (∃ o, d.store.get i = .ok (some o)) ∧
      ∀ o, d.store.Stored i o ∨ d.store.get i = .ok (some o) →
        (o.status ≠ .cancelled → (o.providerId.isSome = true ↔
          o.status = .providerAssigned ∨ o.status = .providerAccepted)) ∧
        (o.status = .cancelled → ∃ earlier e cancellation,
          o.history = earlier ++ [e, cancellation] ∧ (o.providerId.isSome = true ↔
            e.status = .providerAssigned ∨ e.status = .providerAccepted)) := by
  intro d i hi
  have hread := readable_run capacity steps
  obtain ⟨o, hstored, -⟩ := hread i hi
  obtain ⟨o', hget, -⟩ := d.store.exists_found hread i hi
  refine ⟨⟨o, hstored⟩, ⟨o', hget⟩, ?_⟩
  rintro p (hp | hp)
  · have hstands := stays_stands.stored_run _ _ capacity steps h i p hp
    exact ⟨hstands.going, hstands.cancelled⟩
  · have hstands := stays_stands.get_run _ _ capacity steps h i p hp
    exact ⟨hstands.going, hstands.cancelled⟩

/-! ## A cancellation -/

def cancelling : DeskStep := ⟨quiet, .request (.cancel "o-1" ⟨"u-1", "late"⟩)⟩

/-- The order if it is cancelled while it is assigned. -/
def abandonedOrder : Order :=
  assignedOrder.pushStatus quiet.now .cancelled (actorOrSystem "u-1") "late"

theorem sparesStatus_cancelling :
    ∀ s ∈ [opening, assigning, cancelling], s.event.SparesStatus := by
  intro s hs
  simp only [List.mem_cons, List.not_mem_nil, or_false] at hs
  rcases hs with rfl | rfl | rfl <;> trivial

theorem stored_cancelling :
    (run 1 [opening, assigning, cancelling]).store.Stored "o-1" abandonedOrder := by
  have hstep : ∀ d : Desk, d.after cancelling = (d.cancel quiet "o-1" ⟨"u-1", "late"⟩).2 :=
    fun _ => rfl
  rw [show [opening, assigning, cancelling] = [opening, assigning] ++ [cancelling] from rfl,
    run_append, hstep]
  exact (cancel_of_get _ quiet "o-1" ⟨"u-1", "late"⟩ assignedOrder abandonedOrder isBlank_names.1
    (get_assigning 1) rfl).2

/-- An order is cancelled while it is assigned, and its history tells so. -/
theorem provider_follows_status_cancelling :
    (∀ s ∈ [opening, assigning, cancelling], s.event.SparesStatus) ∧
      ∃ o earlier e cancellation,
        (run 1 [opening, assigning, cancelling]).store.Stored "o-1" o ∧
        o.history = earlier ++ [e, cancellation] ∧ e.status.IsEngaged := by
  obtain ⟨-, -, hfollows⟩ := provider_follows_status 1 _ sparesStatus_cancelling "o-1"
    (OrderStore.contains_of_stored _ _ _ stored_cancelling)
  obtain ⟨-, hcancelled⟩ := hfollows abandonedOrder (.inl stored_cancelling)
  obtain ⟨earlier, e, cancellation, hhistory, hiff⟩ := hcancelled rfl
  exact ⟨sparesStatus_cancelling, _, earlier, e, cancellation, stored_cancelling, hhistory,
    hiff.1 rfl⟩

/-- The cancelled order still has its provider. -/
theorem cancelled_keeps_provider :
    (∀ s ∈ [opening, assigning, cancelling], s.event.SparesStatus) ∧
      ∃ o, (run 1 [opening, assigning, cancelling]).store.Stored "o-1" o ∧
        o.providerId = some "p-1" ∧
        ¬ (o.status = .providerAssigned ∨ o.status = .providerAccepted) :=
  ⟨sparesStatus_cancelling, abandonedOrder, stored_cancelling, rfl, nofun⟩

end Desk

end OrderDispatch
