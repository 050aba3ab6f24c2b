import OrderDispatch.Proofs.Desk.Positions

/-!
# When a request is carried out

Whether a request on a stored order succeeds can be told from the order as it is found and, for an
assignment that names nobody, from the directory. Besides an identifier that is not blank, it takes

    updateStatus              nothing
    cancel                    a status that is not terminal
    assign                    a provider that is named, or one that is found
    accept, reject            a provider that is not blank, and that the order has
    updateLocation            the same, and a valid location

and of these alone `cancel` looks at the status.
-/

namespace OrderDispatch

/-! ## Checks -/

theorem requireText_eq_ok_iff (field value : String) :
    requireText field value = .ok () ↔ Text.isBlank value = false := by
  unfold requireText
  split
  · next h => simp [h]
  · next h => simp [h]

theorem requireLocation_eq_ok_iff (field : String) (location : Option Location) (l : Location) :
    requireLocation field location = .ok l ↔ location = some l ∧ l.coordinates.isValid = true := by
  unfold requireLocation
  cases location with
  | none => simp
  | some l' =>
    simp only [Option.some.injEq]
    constructor
    · intro h
      split at h
      · next hvalid =>
        cases h
        exact ⟨rfl, hvalid⟩
      · cases h
    · rintro ⟨rfl, hvalid⟩
      rw [if_pos hvalid]

/-- For a provider that is not blank, to be the provider of the order is all there is to it. -/
theorem Order.isAssignedTo_iff (o : Order) (p : String) (hp : Text.isBlank p = false) :
    o.isAssignedTo p = true ↔ o.providerId = some p := by
  have hne : p ≠ "" := by
    rintro rfl
    revert hp
    decide
  simp [isAssignedTo, hne]

theorem Order.requireAssigned_eq_ok_iff (o : Order) (i p : String) :
    o.requireAssigned i p = .ok () ↔ o.isAssignedTo p = true := by
  unfold requireAssigned
  split
  · next h => simp [h]
  · next h => simp [h]

/-- The provider may act on the order. -/
def Order.HeldBy (o : Order) (p : String) : Prop := Text.isBlank p = false ∧ o.providerId = some p

theorem Order.answers_provider_iff {β : Type} (o : Order) (i p : String) (b : β) :
    (∃ new, Text.isBlank i = false ∧ Text.isBlank p = false ∧
      (do o.requireAssigned i p; return b : Except Failure β) = .ok new) ↔
      Text.isBlank i = false ∧ o.HeldBy p := by
  unfold HeldBy
  constructor
  · rintro ⟨new, hi, hp, h⟩
    obtain ⟨_, hassigned, -⟩ := bind_eq_ok h
    exact ⟨hi, hp, (o.isAssignedTo_iff p hp).1 ((o.requireAssigned_eq_ok_iff i p).1 hassigned)⟩
  · rintro ⟨hi, hp, hprovider⟩
    refine ⟨b, hi, hp, ?_⟩
    rw [(o.requireAssigned_eq_ok_iff i p).2 ((o.isAssignedTo_iff p hp).2 hprovider)]
    rfl

theorem LocationRequest.check_eq_ok_iff (r : LocationRequest) (i : String) (l : Location) :
    r.check i = .ok l ↔ Text.isBlank i = false ∧ Text.isBlank r.providerId = false ∧
      r.location = some l ∧ l.coordinates.isValid = true := by
  rw [← requireText_eq_ok_iff "order ID" i, ← requireText_eq_ok_iff "provider ID" r.providerId,
    ← requireLocation_eq_ok_iff "location"]
  unfold check
  constructor
  · intro h
    obtain ⟨_, hi, h⟩ := bind_eq_ok h
    obtain ⟨_, hp, h⟩ := bind_eq_ok h
    exact ⟨hi, hp, h⟩
  · rintro ⟨hi, hp, hl⟩
    rw [hi, hp]
    exact hl

/-- What an assignment needs: a provider that is named, or else one that is found. -/
def AssignRequest.FindsProvider (r : AssignRequest) (m : Moment) (o : Order) : Prop :=
  (∃ p, r.providerId = some p ∧ Text.isBlank p = false) ∨
    ∃ best others, (Matching.best m.directory o Desk.offeredProviders).2 = .ok (best :: others)

namespace Desk

theorem checked_eq_ok_iff {α β : Type} (d : Desk) (check : Except Failure α)
    (next : α → Except Failure β × Desk) (b : β) :
    (d.checked check next).1 = .ok b ↔ ∃ a, check = .ok a ∧ (next a).1 = .ok b := by
  cases check with
  | error f => simp [checked]
  | ok a => simp [checked]

/-- Behind the check of a text. -/
theorem requiring_eq_ok_iff {β : Type} (d : Desk) (field value : String)
    (next : Unit → Except Failure β × Desk) (b : β) :
    (d.checked (requireText field value) next).1 = .ok b ↔
      Text.isBlank value = false ∧ (next ()).1 = .ok b := by
  rw [checked_eq_ok_iff, ← requireText_eq_ok_iff field value]
  exact ⟨fun ⟨_, hcheck, hnext⟩ => ⟨hcheck, hnext⟩, fun ⟨hcheck, hnext⟩ => ⟨(), hcheck, hnext⟩⟩

/-- A revision of an order that is found answers what the change does. -/
theorem revise_answer (d : Desk) (i : String) (change : Order → Except Failure Order) (o : Order)
    (hget : d.store.get i = .ok (some o)) : (d.revise i change).1 = change o := by
  cases hchange : change o with
  | ok new => rw [revise_of_get d i change o new hget hchange]
  | error f =>
    unfold revise
    rw [OrderStore.update_of_get _ _ _ _ _ hget, hchange]
    rfl

theorem get_eq_ok_iff (d : Desk) (i : String) (o : Order) (hget : d.store.get i = .ok (some o))
    (o' : Order) : d.get i = .ok o' ↔ Text.isBlank i = false ∧ o' = o := by
  unfold get
  rw [hget, ← requireText_eq_ok_iff "order ID" i]
  cases requireText "order ID" i with
  | error f => simp only [reduceCtorEq, false_and, iff_false]; nofun
  | ok u => exact ⟨fun h => ⟨rfl, (Except.ok.inj h).symm⟩, fun h => congrArg Except.ok h.2.symm⟩

/-- Behind the reading of an order that is found. -/
theorem getting_succeeds_iff {β : Type} (d : Desk) (i : String) (o : Order)
    (hget : d.store.get i = .ok (some o)) (next : Order → Except Failure β × Desk) :
    (∃ b, (d.checked (d.get i) next).1 = .ok b) ↔
      Text.isBlank i = false ∧ ∃ b, (next o).1 = .ok b := by
  simp only [checked_eq_ok_iff, get_eq_ok_iff d i o hget]
  constructor
  · rintro ⟨b, _, ⟨hi, rfl⟩, h⟩
    exact ⟨hi, b, h⟩
  · rintro ⟨hi, b, h⟩
    exact ⟨b, o, ⟨hi, rfl⟩, h⟩

/-! ## Requests on an order that is found -/

section Found

variable (d : Desk) (m : Moment) (i : String) (o : Order) (hget : d.store.get i = .ok (some o))

include hget

theorem updateStatus_succeeds_iff (r : StatusRequest) :
    (∃ new, (d.updateStatus m i r).1 = .ok new) ↔ Text.isBlank i = false := by
  unfold updateStatus
  simp only [requiring_eq_ok_iff, revise_answer d i _ o hget]
  simp

theorem cancel_succeeds_iff (r : CancelRequest) :
    (∃ new, (d.cancel m i r).1 = .ok new) ↔
      Text.isBlank i = false ∧ o.status.isTerminal = false := by
  unfold cancel
  simp only [requiring_eq_ok_iff, revise_answer d i _ o hget, exists_and_left]
  cases hterminal : o.status.isTerminal <;> simp [cancelled, hterminal]

theorem accept_succeeds_iff (r : AcceptRequest) :
    (∃ new, (d.accept m i r).1 = .ok new) ↔
      Text.isBlank i = false ∧ o.HeldBy r.providerId := by
  have hrevised := revise_answer d i (fun o => do
    o.requireAssigned i r.providerId
    return o.pushStatus m.now .providerAccepted r.providerId "Provider accepted the order") o hget
  unfold accept
  simp only [requiring_eq_ok_iff]
  rw [← o.answers_provider_iff i r.providerId, ← hrevised]
  -- A position that is noted behind it does not show in the answer.
  generalize d.revise i _ = answer
  obtain ⟨_ | _, _⟩ := answer <;> exact Iff.rfl

theorem reject_succeeds_iff (r : RejectRequest) :
    (∃ new, (d.reject m i r).1 = .ok new) ↔
      Text.isBlank i = false ∧ o.HeldBy r.providerId := by
  have hrevised := revise_answer d i (rejected m.now i r) o hget
  unfold reject
  simp only [requiring_eq_ok_iff]
  rw [← o.answers_provider_iff i r.providerId]
  unfold rejected at hrevised ⊢
  rw [← hrevised]
  generalize d.revise i _ = answer
  obtain ⟨_ | _, _⟩ := answer <;> exact Iff.rfl

theorem updateLocation_succeeds_iff (r : LocationRequest) :
    (∃ receipt, (d.updateLocation m i r).1 = .ok receipt) ↔
      Text.isBlank i = false ∧ o.HeldBy r.providerId ∧
        ∃ l, r.location = some l ∧ l.coordinates.isValid = true := by
  constructor
  · rintro ⟨receipt, h⟩
    unfold updateLocation at h
    simp only [checked_eq_ok_iff, get_eq_ok_iff d i o hget, r.check_eq_ok_iff] at h
    obtain ⟨l, ⟨hi, hp, hl⟩, o', ⟨-, rfl⟩, hanswer⟩ := h
    split at hanswer
    · next hassigned => exact ⟨hi, ⟨hp, (o'.isAssignedTo_iff _ hp).1 hassigned⟩, l, hl⟩
    · cases hanswer
  · rintro ⟨hi, ⟨hp, hprovider⟩, l, hl⟩
    have hcheck := (r.check_eq_ok_iff i l).2 ⟨hi, hp, hl⟩
    have hassigned := (o.isAssignedTo_iff _ hp).2 hprovider
    rw [updateLocation_of_get d m i r l o hcheck (get_of_store_get d i o hi hget) hassigned]
    exact ⟨_, rfl⟩

/-- An order that is found may be accepted by its provider. -/
theorem accept_of_get (r : AcceptRequest) (hi : Text.isBlank i = false)
    (hheld : o.HeldBy r.providerId) :
    let accepted := o.pushStatus m.now .providerAccepted r.providerId "Provider accepted the order"
    (d.accept m i r).1 = .ok accepted ∧ (d.accept m i r).2.store.Stored i accepted := by
  intro accepted
  have hassigned := (o.isAssignedTo_iff _ hheld.1).2 hheld.2
  have hrevised := revise_of_get d i (fun o => do
    o.requireAssigned i r.providerId
    return o.pushStatus m.now .providerAccepted r.providerId "Provider accepted the order") o
    accepted hget (by rw [(o.requireAssigned_eq_ok_iff i _).2 hassigned]; rfl)
  unfold accept checked requireText
  rw [hi, hheld.1]
  simp only [Bool.false_eq_true, if_false, hrevised, true_and]
  have hstored := stored_submit d i o.providerId accepted
  rcases (noteLocation_cases _ m accepted r.providerId r.currentLocation).1 with h | ⟨_, -, h⟩
  · rwa [h]
  · rw [h]
    exact hstored

/-- A provider that is named is assigned, and one that is found. -/
theorem assignProvider_succeeds (d' : Desk) (p : String) (hd' : d'.store = d.store) :
    ∃ new, (d'.assignProvider m i p).1 = .ok new :=
  ⟨_, revise_answer d' i _ o (by rw [hd', hget])⟩

theorem assignBest_succeeds_iff :
    (∃ new, (d.assignBest m i o).1 = .ok new) ↔
      ∃ best others, (Matching.best m.directory o offeredProviders).2 = .ok (best :: others) := by
  unfold assignBest
  generalize Matching.best m.directory o offeredProviders = found
  obtain ⟨searches, result⟩ := found
  match result with
  | .error _ | .ok [] => simp
  | .ok (best :: others) =>
    have hassigned := assignProvider_succeeds d m i o hget
      ((d.noteSearches searches).sendOffers m o (best :: others)) best.candidate.providerId rfl
    exact iff_of_true hassigned ⟨best, others, rfl⟩

theorem assign_succeeds_iff (r : AssignRequest) :
    (∃ new, (d.assign m i r).1 = .ok new) ↔ Text.isBlank i = false ∧ r.FindsProvider m o := by
  unfold assign
  rw [getting_succeeds_iff d i o hget]
  refine and_congr_right fun _ => ?_
  unfold AssignRequest.FindsProvider
  cases hnamed : r.providerId.filter (!Text.isBlank ·) with
  | some p =>
    obtain ⟨hp, hblank⟩ := Option.filter_eq_some_iff.1 hnamed
    exact iff_of_true (assignProvider_succeeds d m i o hget d p rfl)
      (.inl ⟨p, hp, by simpa using hblank⟩)
  | none =>
    refine (assignBest_succeeds_iff d m i o hget).trans (or_iff_right ?_).symm
    rintro ⟨p, hp, hblank⟩
    simp [hp, hblank] at hnamed

end Found

end Desk

end OrderDispatch
