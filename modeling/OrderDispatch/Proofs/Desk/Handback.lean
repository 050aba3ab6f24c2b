import OrderDispatch.Proofs.Desk.Rematch

/-!
# Handed back

A rematch leaves out the provider whose rejection it follows, and nobody else. That provider never
gets the order back by it. A provider who has rejected the order since then does, if it is the next
best in the search and the order waits for a provider once more when the rematch lands.

    Hands d (rematch) i p ↔ the order waits, and p is the next best     (hands_rematch_iff)
    the history tells who rejected an order last                        (recalls_run)

Who rejected last is told by the run, since the status of a rejected order may be set by hand.
-/

namespace OrderDispatch

/-! ## Who rejected last -/

/-- Who rejected the order last, by its history. -/
def Order.lastRejecter? (o : Order) : Option String :=
  (o.history.filter (·.status == .providerRejected)).getLast?.map (·.actor)

theorem Order.lastRejecter?_append (old new : Order) (e : HistoryEntry)
    (h : new.history = old.history ++ [e]) :
    new.lastRejecter? =
      if e.status = .providerRejected then some e.actor else old.lastRejecter? := by
  unfold lastRejecter?
  rw [h, List.filter_append]
  split
  · next hstatus =>
    rw [List.filter_cons_of_pos (by simpa using hstatus), List.filter_nil,
      List.getLast?_append_of_ne_nil _ (List.cons_ne_nil _ _)]
    rfl
  · next hstatus =>
    rw [List.filter_cons_of_neg (by simpa using hstatus), List.filter_nil, List.append_nil]

/-- The event does not set the status of a rejected order by hand. -/
def DeskEvent.SparesRejection : DeskEvent → Prop
  | .request (.updateStatus _ r) => r.status ≠ .providerRejected
  | _ => True

namespace Desk

/-- The provider who rejects an order with a step. -/
def rejecter? (d : Desk) (s : DeskStep) (i : String) : Option String :=
  match s.event with
  | .request (.reject j r) =>
    if j = i then (d.reject s.moment j r).1.toOption.map fun _ => r.providerId else none
  | _ => none

/-- The provider who rejects an order last in a run from a desk. -/
def lastRejecter? (d : Desk) (i : String) : List DeskStep → Option String
  | [] => none
  | s :: steps => (lastRejecter? (d.after s) i steps).or (d.rejecter? s i)

theorem lastRejecter?_append (d : Desk) (i : String) (steps more : List DeskStep) :
    d.lastRejecter? i (steps ++ more) =
      ((steps.foldl after d).lastRejecter? i more).or (d.lastRejecter? i steps) := by
  induction steps generalizing d with
  | nil => simp [lastRejecter?]
  | cons s steps ih =>
    rw [List.cons_append, lastRejecter?, lastRejecter?, ih, List.foldl_cons, Option.or_assoc]

/-- Who rejects an order after a step goes before who does by it, and before who did earlier. -/
theorem lastRejecter?_behind (capacity : Nat) (before since : List DeskStep) (s : DeskStep)
    (i : String) :
    (ofCapacity capacity).lastRejecter? i (before ++ s :: since) =
      (((run capacity before).after s).lastRejecter? i since).or
        (((run capacity before).rejecter? s i).or
          ((ofCapacity capacity).lastRejecter? i before)) := by
  rw [lastRejecter?_append, lastRejecter?, Option.or_assoc]
  rfl

theorem rejecter?_eq_some_iff (d : Desk) (s : DeskStep) (i p : String) :
    d.rejecter? s i = some p ↔
      ∃ r o, s.event = .request (.reject i r) ∧ (d.reject s.moment i r).1 = .ok o ∧
        r.providerId = p := by
  obtain ⟨m, event⟩ := s
  unfold rejecter?
  constructor
  · intro h
    split at h
    · next j r hevent =>
      split at h
      · next hj =>
        subst hj
        cases hanswer : (d.reject m j r).1 with
        | error f => simp [hanswer, Except.toOption] at h
        | ok o => exact ⟨r, o, hevent, hanswer, by simpa [hanswer, Except.toOption] using h⟩
      · cases h
    · cases h
  · rintro ⟨r, o, rfl, hanswer, rfl⟩
    simp [hanswer, Except.toOption]

/-- A rejection fails and changes nothing, or it is written with its provider. -/
theorem reject_cases (d : Desk) (m : Moment) (i : String) (r : RejectRequest) :
    (∃ f, d.reject m i r = (.error f, d)) ∨
      ∃ o, (d.reject m i r).1 = .ok o ∧ (d.reject m i r).2.store.Stored i o ∧
        o.lastRejecter? = some r.providerId := by
  unfold reject
  rcases checked_cases d (requireText "order ID" i) _ with ⟨f, hf⟩ | ⟨_, -, hok⟩
  · exact .inl ⟨f, hf⟩
  rw [hok]
  rcases checked_cases d (requireText "provider ID" r.providerId) _ with ⟨f, hf⟩ | ⟨_, -, hok⟩
  · exact .inl ⟨f, hf⟩
  rw [hok]
  rcases revise_cases d i (rejected m.now i r) with ⟨f, hf⟩ | ⟨old, new, -, hchange, hrevised⟩
  · rw [hf]
    exact .inl ⟨f, rfl⟩
  rw [hrevised]
  refine .inr ⟨new, rfl, stored_submit d i old.providerId new, ?_⟩
  obtain ⟨_, -, hnew⟩ := bind_eq_ok hchange
  cases hnew
  exact (old.lastRejecter?_append _ ⟨.providerRejected, r.providerId, r.note, m.now⟩ rfl).trans
    (if_pos rfl)

/-- Whatever else becomes of an order, its history tells the same provider. -/
theorem lastRejecter?_turns (now : Timestamp) (e : DeskEvent) (i : String) (old new : Order)
    (he : e.SparesRejection) (h : e.Turns now i old new) :
    (∃ r, e = .request (.reject i r)) ∨ new.lastRejecter? = old.lastRejecter? := by
  cases h with
  | set i r => exact .inr ((old.lastRejecter?_append _ _ rfl).trans (if_neg he))
  | cancelled | assigned | accepted | reassigned =>
    exact .inr ((old.lastRejecter?_append _ _ rfl).trans (if_neg nofun))
  | rejected i r => exact .inl ⟨r, rfl⟩

/-- The history of a stored order tells who rejected it last. -/
structure Recalls (d : Desk) (i : String) (last : Option String) : Prop where
  fresh : d.store.orders.contains i = false → last = none
  told : ∀ o, d.store.Stored i o → o.lastRejecter? = last

theorem recalls_after (d : Desk) (s : DeskStep) (i : String) (last : Option String)
    (hread : d.store.Readable) (hread' : (d.after s).store.Readable)
    (hs : s.event.SparesRejection) (h : d.Recalls i last) :
    (d.after s).Recalls i ((d.rejecter? s i).or last) := by
  have hfigures : ∀ l (o p : Order), o.lastRejecter? = l → (o.withFigures p).lastRejecter? = l :=
    fun _ _ _ h => h
  -- What holds of one order with the text of the row holds of all of them.
  have hwritten : ∀ l o, (d.after s).store.Stored i o → o.lastRejecter? = l →
      (d.after s).Recalls i l := by
    intro l o hstored hlast
    refine ⟨fun hfresh => ?_, fun o' ho' => ?_⟩
    · rw [OrderStore.contains_of_stored _ _ _ hstored] at hfresh
      cases hfresh
    · exact OrderStore.of_stored (·.lastRejecter? = l) (hfigures l) _ hread' i o o' hstored hlast
        ho'
  cases hrejecter : d.rejecter? s i with
  | some p =>
    obtain ⟨r, o, hevent, hanswer, rfl⟩ := (rejecter?_eq_some_iff d s i p).1 hrejecter
    rcases reject_cases d s.moment i r with ⟨f, hf⟩ | ⟨o, -, hstored, hlast⟩
    · rw [hf] at hanswer
      cases hanswer
    · refine hwritten _ o ?_ hlast
      unfold after
      rw [hevent]
      exact hstored
  | none =>
    rw [Option.none_or]
    cases rowTurns_after d s i with
    | same row =>
      refine ⟨fun hfresh => h.fresh ?_, fun o ho => h.told o (row.symm.trans ho)⟩
      rwa [OrderStore.contains_eq_of_find? _ _ i row] at hfresh
    | opened r o _ opens _ fresh stored =>
      refine hwritten _ o stored ?_
      obtain ⟨_, _, _, _, -, -, rfl⟩ := opens
      rw [h.fresh fresh]
      rfl
    | turned old new found turns stored =>
      have hold := OrderStore.of_get (·.lastRejecter? = last) (hfigures last) _ hread i old h.told
        found
      rcases lastRejecter?_turns _ _ i old new hs turns with ⟨r, hevent⟩ | hsame
      · -- A rejection that fails; one that succeeds has a provider.
        rcases reject_cases d s.moment i r with ⟨f, hf⟩ | ⟨o, hanswer, -⟩
        · have hidle : d.after s = d := by
            unfold after
            rw [hevent]
            show (d.reject s.moment i r).2 = d
            rw [hf]
          rw [hidle]
          exact h
        · rw [(rejecter?_eq_some_iff d s i _).2 ⟨r, o, hevent, hanswer, rfl⟩] at hrejecter
          cases hrejecter
      · exact hwritten _ new stored (hsame.trans hold)
    | noted _ old txRef found stored =>
      have hold := OrderStore.of_get (·.lastRejecter? = last) (hfigures last) _ hread i old h.told
        found
      exact hwritten _ _ stored hold

/-- As long as nobody sets the status of a rejected order by hand, the history of every order tells
who rejected it last. -/
theorem recalls_run (capacity : Nat) (steps : List DeskStep) (i : String)
    (h : ∀ s ∈ steps, s.event.SparesRejection) :
    (run capacity steps).Recalls i ((ofCapacity capacity).lastRejecter? i steps) := by
  induction steps using List.reverseRecOn with
  | nil => exact ⟨fun _ => rfl, fun o ho => nomatch ho⟩
  | append_singleton steps s ih =>
    have hread := readable_run capacity (steps ++ [s])
    rw [run_append] at hread ⊢
    rw [lastRejecter?_behind]
    exact recalls_after _ s i _ (readable_run capacity steps) hread (h s (by simp))
      (ih fun s' hs' => h s' (List.mem_append_left _ hs'))

/-! ## Whom a rematch hands an order to -/

/-- The row of an order is written, and the order has this provider now. -/
structure Hands (d d' : Desk) (i p : String) : Prop where
  written : d'.store.orders.find? i ≠ d.store.orders.find? i
  provider : ∃ o, d'.store.get i = .ok (some o) ∧ o.providerId = some p

theorem hands_rematch_iff (capacity : Nat) (steps : List DeskStep) (m : Moment)
    (o current : Order) (without : String)
    (hget : (run capacity steps).store.get o.id = .ok (some current)) (i p : String) :
    Hands (run capacity steps) ((run capacity steps).rematch m o without) i p ↔
      i = o.id ∧ current.AwaitsProvider ∧
        Matching.NextBest m.directory o offeredProviders without p := by
  have hread : ((run capacity steps).rematch m o without).store.Readable := by
    have hread := readable_run capacity (steps ++ [⟨m, .rematch o without⟩])
    rwa [run_append] at hread
  generalize run capacity steps = d at *
  have hsame : (d.rematch m o without).store = d.store →
      ¬ Hands d (d.rematch m o without) i p := by
    intro hstore h
    exact h.written (by rw [hstore])
  rcases rematch_next d m o without with ⟨hnone, hbooks⟩ | ⟨next, traffic, hnext, hrevised⟩
  · exact iff_of_false (hsame (congrArg Books.store hbooks)) fun h => hnone p h.2.2
  by_cases hwaits : current.AwaitsProvider
  · have hbooks := toBooks_reassigned { d with traffic } o.id m.now next current hget hwaits
    rw [← hrevised] at hbooks
    obtain ⟨hstored, hothers⟩ := OrderStore.row_write d.store (d.rematch m o without).store o.id
      (current.assign m.now next) (congrArg (·.store.orders) hbooks)
    have hprovider : ∀ new, (d.rematch m o without).store.get o.id = .ok (some new) →
        new.providerId = some next := by
      intro new hnew
      rw [reread?_order _ new (OrderStore.reread?_of_get _ o.id _ new hstored hnew)]
      rfl
    constructor
    · rintro ⟨hwritten, new, hnew, hp⟩
      obtain rfl : i = o.id := by
        by_contra hi
        exact hwritten (hothers i hi)
      rw [hprovider new hnew] at hp
      cases hp
      exact ⟨rfl, hwaits, hnext⟩
    · rintro ⟨rfl, -, hp⟩
      obtain rfl := Matching.nextBest_unique _ _ _ _ _ _ hp hnext
      obtain ⟨new, hnew, -⟩ := OrderStore.exists_found _ hread o.id
        (OrderStore.contains_of_stored _ _ _ hstored)
      refine ⟨row_ne_of_grown _ _ _ _ _ hget ?_ hstored, new, hnew, hprovider new hnew⟩
      exact fun h => List.cons_ne_nil _ _ (List.self_eq_append_right.1 h)
  · have hbooks := toBooks_not_reassigned { d with traffic } o.id m.now next current hget hwaits
    rw [← hrevised] at hbooks
    exact iff_of_false (hsame (congrArg Books.store hbooks)) fun h => hwaits h.2.1

/-- Whenever the rematch of a rejection runs, it hands the rejected order to the next best provider,
exactly if the order waits for one at that moment, and no other order to anybody. That is never the
provider whose rejection it was, and it is the one who rejected the order last only if that one has
rejected it since. Who that is can be told from the history if nobody sets the status by hand. -/
theorem rematch_hands (capacity : Nat) (before since : List DeskStep) (earlier m : Moment)
    (i : String) (r : RejectRequest) (o : Order)
    (ho : ((run capacity before).reject earlier i r).1 = .ok o) :
    let rejection : DeskStep := ⟨earlier, .request (.reject i r)⟩
    let steps := before ++ rejection :: since
    let d := run capacity steps
    let d' := d.rematch m o r.providerId
    ∃ current, d.store.get i = .ok (some current) ∧
      (∀ j p, Hands d d' j p ↔ j = i ∧ current.AwaitsProvider ∧
        Matching.NextBest m.directory o offeredProviders r.providerId p) ∧
      (∀ p, (ofCapacity capacity).lastRejecter? i steps = some p → Hands d d' i p →
        p ≠ r.providerId ∧ ((run capacity before).after rejection).lastRejecter? i since = some p) ∧
      ((∀ s ∈ steps, s.event.SparesRejection) →
        current.lastRejecter? = (ofCapacity capacity).lastRejecter? i steps) := by
  intro rejection steps d d'
  obtain ⟨current, hget⟩ : ∃ current, d.store.get o.id = .ok (some current) :=
    exists_found_rejected capacity before _ earlier i r o ho
  have hhands := hands_rematch_iff capacity steps m o current r.providerId hget
  rw [id_of_reject capacity before earlier i r o ho] at hget hhands
  refine ⟨current, hget, hhands, ?_, ?_⟩
  · intro p hlast hp
    have hne : p ≠ r.providerId := ((hhands i p).1 hp).2.2.ne
    refine ⟨hne, ?_⟩
    have hrejecter := (rejecter?_eq_some_iff (run capacity before) rejection i _).2
      ⟨r, o, rfl, ho, rfl⟩
    rw [lastRejecter?_behind, hrejecter, Option.some_or, Option.or_eq_some_iff] at hlast
    rcases hlast with hsince | ⟨-, hself⟩
    · exact hsince
    · cases hself
      exact absurd rfl hne
  · intro hspares
    have hrecalls := recalls_run capacity steps i hspares
    exact OrderStore.of_get (·.lastRejecter? = _) (fun _ _ h => h) _ (readable_run capacity steps) i
      current hrecalls.told hget

/-! ## A rejection behind another -/

/-- The order is handed to the one provider that is found. -/
theorem rematch_hands_helpful :
    ((run 1 [opening, assigning]).reject quiet "o-1" ⟨"p-1", ""⟩).1 = .ok rejectedOrder ∧
      ∀ p, Hands (run 1 [opening, assigning, rejecting])
        ((run 1 [opening, assigning, rejecting]).rematch helpful rejectedOrder "p-1") "o-1" p ↔
          p = "p-2" := by
  refine ⟨(reject_assigned 1).1, fun p => ?_⟩
  have hrematch := rematch_hands 1 [opening, assigning] [] quiet helpful "o-1" ⟨"p-1", ""⟩
    rejectedOrder (reject_assigned 1).1
  dsimp only at hrematch
  rw [show [opening, assigning] ++ [(⟨quiet, .request (.reject "o-1" ⟨"p-1", ""⟩)⟩ : DeskStep)] =
    [opening, assigning, rejecting] from rfl] at hrematch
  obtain ⟨current, hget, hhands, -⟩ := hrematch
  have hwaits : current.AwaitsProvider := by
    rw [reread?_order _ current (OrderStore.reread?_of_get _ _ _ _ (reject_assigned 1).2 hget)]
    exact ⟨rfl, rfl⟩
  refine (hhands "o-1" p).trans ?_
  rw [nextBest_helpful_iff]
  exact ⟨fun h => h.2.2, fun h => ⟨rfl, hwaits, h⟩⟩

def assigningNext : DeskStep := ⟨quiet, .request (.assign "o-1" ⟨some "p-2"⟩)⟩

def rejectingNext : DeskStep := ⟨quiet, .request (.reject "o-1" ⟨"p-2", ""⟩)⟩

/-- The order goes to p-2 once p-1 has rejected it. -/
def assignedTwice : List DeskStep := [opening, assigning, rejecting] ++ [assigningNext]

/-- Then p-2 rejects it, too. -/
def rejectedTwice : List DeskStep := assignedTwice ++ [rejectingNext]

/-- The order after both rejections. -/
def twiceRejectedOrder : Order :=
  { (rejectedOrder.assign quiet.now "p-2").pushStatus quiet.now .providerRejected "p-2"
      (RejectRequest.note ⟨"p-2", ""⟩) with providerId := none }

theorem reject_assignedTwice :
    ((run 1 assignedTwice).reject quiet "o-1" ⟨"p-2", ""⟩).1 = .ok twiceRejectedOrder ∧
      (run 1 rejectedTwice).store.Stored "o-1" twiceRejectedOrder := by
  have hblank : Text.isBlank "p-2" = false := by decide
  have hassign : ∀ d : Desk, d.after assigningNext = (d.assign quiet "o-1" ⟨some "p-2"⟩).2 :=
    fun _ => rfl
  have hreject : ∀ d : Desk, d.after rejectingNext = (d.reject quiet "o-1" ⟨"p-2", ""⟩).2 :=
    fun _ => rfl
  have hget : (run 1 assignedTwice).store.get "o-1" =
      .ok (some (rejectedOrder.assign quiet.now "p-2")) := by
    rw [assignedTwice, run_append, hassign]
    exact get_assign _ quiet "o-1" "p-2" rejectedOrder isBlank_names.1 hblank reread?_rejectedOrder
      (get_rejecting 1)
  rw [rejectedTwice, run_append, hreject]
  exact reject_of_get _ quiet "o-1" ⟨"p-2", ""⟩ _ _ isBlank_names.1 hblank hget rfl

/-- The rematch for the rejection of p-1 comes late, and hands the order back to p-2, who has just
rejected it. -/
theorem handed_back :
    ((run 1 [opening, assigning]).reject quiet "o-1" ⟨"p-1", ""⟩).1 = .ok rejectedOrder ∧
      (∃ current, (run 1 rejectedTwice).store.get "o-1" = .ok (some current) ∧
        current.lastRejecter? = some "p-2") ∧
      (ofCapacity 1).lastRejecter? "o-1" rejectedTwice = some "p-2" ∧
      Hands (run 1 rejectedTwice) ((run 1 rejectedTwice).rematch helpful rejectedOrder "p-1") "o-1"
        "p-2" := by
  have hstored := reject_assignedTwice.2
  obtain ⟨current, hget, -⟩ := OrderStore.exists_found _ (readable_run 1 rejectedTwice) "o-1"
    (OrderStore.contains_of_stored _ _ _ hstored)
  have hcurrent := reread?_order _ current (OrderStore.reread?_of_get _ _ _ _ hstored hget)
  refine ⟨(reject_assigned 1).1, ⟨current, hget, ?_⟩, ?_, ?_⟩
  · rw [hcurrent]
    rfl
  · have hrejecter := (rejecter?_eq_some_iff (run 1 assignedTwice) rejectingNext "o-1" _).2
      ⟨⟨"p-2", ""⟩, _, rfl, reject_assignedTwice.1, rfl⟩
    rw [rejectedTwice, lastRejecter?_behind, hrejecter]
    rfl
  · refine (hands_rematch_iff 1 rejectedTwice helpful rejectedOrder current "p-1" hget "o-1"
      "p-2").2 ⟨rfl, ?_, (nextBest_helpful_iff _ _).2 rfl⟩
    rw [hcurrent]
    exact ⟨rfl, rfl⟩

end Desk

end OrderDispatch
