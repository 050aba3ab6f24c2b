import OrderDispatch.Proofs.Desk.BestMatch
import OrderDispatch.Proofs.Desk.WriteBehind
import OrderDispatch.Proofs.Directory.Search
import OrderDispatch.Proofs.Order.Payloads

/-!
# Who is sent an offer

An assignment that names no provider, and a rematch, send an offer of the order to each of the best
providers before the order is written. With the registry as the directory every offer arrives:

    d'.inbox p = d.inbox p ++ [the offer of o to p]    if p is among them
    d'.inbox p = d.inbox p                             else                    (Offers)

A rematch leaves out who has rejected the order, and an assignment that names a provider sends
nothing. What comes of a notification shows in the traffic alone, so that a directory which notifies
nobody leaves the same answers, books and errands.

An offer tells nothing that changes while an order is on its way, so it makes no difference that a
rematch offers the order as it was when it was rejected. But what is opened is what reading makes of
the offer, and there an amount may be another one: `offer_drifts`.
-/

namespace OrderDispatch

/-- The moment with other outcomes of notifications; the searches find the same. -/
def Moment.notifying (m : Moment) (notify : Notification → Except DirectoryError Unit) : Moment :=
  { m with directory := ⟨m.directory.find, notify⟩ }

/-- Nothing that becomes of an order changes its offer. -/
theorem Offer.ofOrder_turns (now : Timestamp) (e : DeskEvent) (i : String) (old new : Order)
    (h : e.Turns now i old new) : ofOrder new = ofOrder old := by
  cases h <;> rfl

namespace Desk

/-! ## Traffic -/

theorem wake_withTraffic (d : Desk) (traffic : List DirectoryCall) :
    { d with traffic }.wake = { d.wake with traffic } := by
  unfold wake
  by_cases h : Errand.catchUp ∈ d.backlog
  · rw [if_pos h, if_pos h]
  · rw [if_neg h, if_neg h]

theorem submit_withTraffic (d : Desk) (o : Order) (traffic : List DirectoryCall) :
    { d with traffic }.submit o = { d.submit o with traffic } := by
  unfold submit
  cases d.queue.fate with
  | accepted => exact wake_withTraffic { d with queue := d.queue.submit (.ofOrder o) } traffic
  | full => rfl
  | closed => rfl

/-- A revision does not look at the traffic, and leaves it as it is. -/
theorem revise_withTraffic (d : Desk) (i : String) (change : Order → Except Failure Order)
    (traffic : List DirectoryCall) :
    { d with traffic }.revise i change =
      ((d.revise i change).1, { (d.revise i change).2 with traffic }) := by
  unfold revise
  cases d.store.update .storage i change with
  | error f => rfl
  | ok written =>
    obtain ⟨o, store⟩ := written
    exact congrArg (Except.ok o, ·) (submit_withTraffic { d with store } o traffic)

theorem traffic_revise (d : Desk) (i : String) (change : Order → Except Failure Order) :
    (d.revise i change).2.traffic = d.traffic :=
  congrArg (·.2.traffic) (revise_withTraffic d i change d.traffic)

/-- The calls of a round: the searches, and then the offers. -/
def roundCalls (m : Moment) (o : Order) (providers : List Scored) : List DirectoryCall :=
  (Matching.best m.directory o offeredProviders).1.map .find ++
    providers.map fun s => notifyCall m (offerTo o s)

section Round

variable (d : Desk) (m : Moment) (o : Order) (ranked : List Scored)
  (hranked : (Matching.best m.directory o offeredProviders).2 = .ok ranked)

include hranked

theorem traffic_assignBest (i : String) :
    (d.assignBest m i o).2.traffic = d.traffic ++ roundCalls m o ranked := by
  unfold assignBest roundCalls
  generalize Matching.best m.directory o offeredProviders = found at hranked
  obtain ⟨searches, result⟩ := found
  cases hranked
  cases ranked with
  | nil => simp [noteSearches]
  | cons best others =>
    simp only [assignProvider]
    rw [traffic_revise, ← List.append_assoc]
    rfl

theorem traffic_rematch (without : String) :
    (d.rematch m o without).traffic =
      d.traffic ++ roundCalls m o (ranked.filter (·.candidate.providerId != without)) := by
  unfold rematch roundCalls
  generalize Matching.best m.directory o offeredProviders = found at hranked
  obtain ⟨searches, result⟩ := found
  cases hranked
  simp only
  cases ranked.filter (·.candidate.providerId != without) with
  | nil => simp [noteSearches]
  | cons best others =>
    simp only
    rw [traffic_revise, ← List.append_assoc]
    rfl

end Round

/-! ## Inboxes -/

/-- What has been delivered to a provider, the oldest notification first. -/
def inbox (d : Desk) (providerId : String) : List Notification :=
  (d.traffic.filterMap DirectoryCall.delivered?).filter (·.providerId == providerId)

/-- Each of these providers has got an offer of the order behind all that it had, and nobody else
has got anything. -/
def Offers (d d' : Desk) (o : Order) (providers : List String) : Prop :=
  ∀ p, d'.inbox p = d.inbox p ++
    if p ∈ providers then [⟨p, o.id, Payload.pack (Offer.ofOrder o)⟩] else []

theorem filter_offers (o : Order) (ids : List String) (hids : ids.Nodup) (p : String) :
    (ids.map fun q => (⟨q, o.id, Payload.pack (Offer.ofOrder o)⟩ : Notification)).filter
        (·.providerId == p) =
      if p ∈ ids then [⟨p, o.id, Payload.pack (Offer.ofOrder o)⟩] else [] := by
  rw [List.filter_map]
  show (ids.filter (· == p)).map _ = _
  rw [List.filter_beq, hids.count, List.map_replicate]
  split <;> rfl

/-- A round in which every offer arrives. -/
theorem offers_of_traffic (d d' : Desk) (m : Moment) (o : Order) (providers : List Scored)
    (htraffic : d'.traffic = d.traffic ++ roundCalls m o providers)
    (hids : (providers.map (·.candidate.providerId)).Nodup)
    (harrive : ∀ s ∈ providers, (m.directory.notify (offerTo o s)).isOk = true) :
    d.Offers d' o (providers.map (·.candidate.providerId)) := by
  have hdelivered : (roundCalls m o providers).filterMap DirectoryCall.delivered? =
      (providers.map (·.candidate.providerId)).map
        fun q => (⟨q, o.id, Payload.pack (Offer.ofOrder o)⟩ : Notification) := by
    have hsearches : ((Matching.best m.directory o offeredProviders).1.map
        DirectoryCall.find).filterMap DirectoryCall.delivered? = [] := by
      rw [List.filterMap_map]
      exact List.filterMap_eq_nil_iff.2 fun _ _ => rfl
    unfold roundCalls
    rw [List.filterMap_append, hsearches, List.nil_append, List.filterMap_map, List.map_map,
      ← List.filterMap_eq_map']
    apply List.filterMap_congr
    intro s hs
    simp only [Function.comp, notifyCall, harrive s hs]
    rfl
  intro p
  unfold inbox
  rw [htraffic, List.filterMap_append, List.filter_append, hdelivered, filter_offers o _ hids]

/-! ## Operations -/

/-- An assignment that names a provider calls nobody. -/
theorem traffic_assign_named (d : Desk) (m : Moment) (i : String) (r : AssignRequest) (p : String)
    (hr : r.providerId = some p) (hp : Text.isBlank p = false) :
    (d.assign m i r).2.traffic = d.traffic := by
  unfold assign
  rcases checked_cases d (d.get i) _ with ⟨f, hf⟩ | ⟨o, -, hok⟩
  · rw [hf]
  · rw [hok]
    have hnamed : r.providerId.filter (!Text.isBlank ·) = some p := by
      rw [hr, Option.filter_some, hp]
      rfl
    simp only [hnamed]
    exact traffic_revise d i _

/-- An automatic assignment is a round. -/
theorem offers_assign (d : Desk) (m : Moment) (i : String) (r : AssignRequest) (o : Order)
    (ranked : List Scored) (hget : d.get i = .ok o)
    (hr : ∀ p, r.providerId = some p → Text.isBlank p = true)
    (hranked : (Matching.best m.directory o offeredProviders).2 = .ok ranked)
    (hids : (ranked.map (·.candidate.providerId)).Nodup)
    (harrive : ∀ s ∈ ranked, (m.directory.notify (offerTo o s)).isOk = true) :
    d.Offers (d.assign m i r).2 o (ranked.map (·.candidate.providerId)) := by
  rw [d.assign_eq_assignBest m i r o hget hr]
  exact offers_of_traffic d _ m o ranked (traffic_assignBest d m o ranked hranked i) hids harrive

/-- A rematch is a round without whoever has rejected the order. -/
theorem offers_rematch (d : Desk) (m : Moment) (o : Order) (ranked : List Scored)
    (hranked : (Matching.best m.directory o offeredProviders).2 = .ok ranked) (without : String)
    (hids : (ranked.map (·.candidate.providerId)).Nodup)
    (harrive : ∀ s ∈ ranked, (m.directory.notify (offerTo o s)).isOk = true) :
    d.Offers (d.rematch m o without) o
      ((ranked.filter (·.candidate.providerId != without)).map (·.candidate.providerId)) := by
  refine offers_of_traffic d _ m o _ (traffic_rematch d m o ranked hranked without)
    (hids.sublist (List.filter_sublist.map _)) fun s hs => ?_
  exact harrive s (List.mem_of_mem_filter hs)

/-! ## Notifications that fail -/

section Notifying

variable (d : Desk) (m : Moment) (notify : Notification → Except DirectoryError Unit)

theorem assignBest_notifying (i : String) (o : Order) :
    ∃ traffic, d.assignBest (m.notifying notify) i o =
      ((d.assignBest m i o).1, { (d.assignBest m i o).2 with traffic }) := by
  have hbest : Matching.best (m.notifying notify).directory o offeredProviders =
      Matching.best m.directory o offeredProviders := rfl
  unfold assignBest
  rw [hbest]
  obtain ⟨searches, result⟩ := Matching.best m.directory o offeredProviders
  match result with
  | .error _ | .ok [] => exact ⟨_, rfl⟩
  | .ok (best :: others) =>
    exact ⟨_, revise_withTraffic ((d.noteSearches searches).sendOffers m o (best :: others)) i _ _⟩

/-- Whatever comes of the notifications, an assignment is the same but for the traffic. -/
theorem assign_notifying (i : String) (r : AssignRequest) :
    ∃ traffic, d.assign (m.notifying notify) i r =
      ((d.assign m i r).1, { (d.assign m i r).2 with traffic }) := by
  unfold assign checked
  cases d.get i with
  | error f => exact ⟨d.traffic, rfl⟩
  | ok o =>
    simp only
    cases r.providerId.filter (!Text.isBlank ·) with
    | some p => exact ⟨_, rfl⟩
    | none => exact assignBest_notifying d m notify i o

theorem rematch_notifying (o : Order) (without : String) :
    ∃ traffic, d.rematch (m.notifying notify) o without =
      { d.rematch m o without with traffic } := by
  have hbest : Matching.best (m.notifying notify).directory o offeredProviders =
      Matching.best m.directory o offeredProviders := rfl
  unfold rematch
  rw [hbest]
  obtain ⟨searches, result⟩ := Matching.best m.directory o offeredProviders
  cases result with
  | error e => exact ⟨_, rfl⟩
  | ok ranked =>
    simp only
    cases ranked.filter (·.candidate.providerId != without) with
    | nil => exact ⟨_, rfl⟩
    | cons best others =>
      exact ⟨_, congrArg (·.2) (revise_withTraffic
        ((d.noteSearches searches).sendOffers m o (best :: others)) o.id _ _)⟩

end Notifying

/-! ## The offer of an order -/

/-- As long as figures settle, an order that is found keeps its offer. -/
theorem offer_run (capacity : Nat) (before since : List DeskStep)
    (hsettling : ∀ s ∈ before ++ since, s.OpensOnly Order.Settles) (i : String)
    (old current : Order) (hold : (run capacity before).store.get i = .ok (some old))
    (hcurrent : (run capacity (before ++ since)).store.get i = .ok (some current)) :
    Offer.ofOrder current = Offer.ofOrder old := by
  induction since using List.reverseRecOn generalizing current with
  | nil =>
    rw [List.append_nil, hold] at hcurrent
    cases hcurrent
    rfl
  | append_singleton since s ih =>
    rw [← List.append_assoc] at hsettling hcurrent
    have hbefore : ∀ s' ∈ before ++ since, s'.OpensOnly Order.Settles :=
      fun s' hs' => hsettling s' (List.mem_append_left _ hs')
    rw [run_append] at hcurrent
    -- What is found is steady, so that what is written next is found as it is.
    have hsteady := findsSteady_run False capacity (before ++ since) hbefore False.elim
    have hwritten : ∀ p new : Order, (run capacity (before ++ since)).store.get i = .ok (some p) →
        new = new.withFigures p → Offer.ofOrder new = Offer.ofOrder p →
        ((run capacity (before ++ since)).after s).store.Stored i new →
        Offer.ofOrder current = Offer.ofOrder old := by
      intro p new hp hfigures hoffer hstored
      have hnew := (hsteady i p hp).1.withFigures new p hfigures
      rw [OrderStore.get_of_isSteady _ i new hstored hnew] at hcurrent
      cases hcurrent
      exact hoffer.trans (ih hbefore p hp)
    cases rowTurns_after (run capacity (before ++ since)) s i with
    | same row => exact ih hbefore current ((OrderStore.get_congr _ _ i row).symm.trans hcurrent)
    | opened r p event opens id fresh =>
      rw [contains_run_append capacity before since i
        (OrderStore.contains_of_get _ i old hold)] at fresh
      cases fresh
    | turned p new found turns stored =>
      exact hwritten p new found (turns.figures _ _ i p new) (Offer.ofOrder_turns _ _ i p new turns)
        stored
    | noted _ p txRef found stored =>
      exact hwritten p { p with ledgerRef := some txRef } found rfl rfl stored

/-- An offer of finite figures is opened, and what is found is what reading makes of it. -/
theorem exists_unpacked (o : Order) (h : o.IsFinite) :
    ∃ seen, (Payload.pack (Offer.ofOrder o)).unpack Offer = .ok seen ∧
      Rereads.reread? (Offer.ofOrder o) = some seen := by
  obtain ⟨o', hread, -⟩ := o.reread?_isFinite h
  have hoffer := Offer.reread?_ofOrder o o' hread
  exact ⟨_, (Payload.unpack_pack_eq_ok_iff _ _).2 hoffer, hoffer⟩

/-- What is opened of the offer of an order that is found. -/
theorem exists_unpacked_found (capacity : Nat) (steps : List DeskStep) (i : String) (o : Order)
    (hfound : (run capacity steps).store.get i = .ok (some o)) :
    ∃ seen, (Payload.pack (Offer.ofOrder o)).unpack Offer = .ok seen ∧
      Rereads.reread? (Offer.ofOrder o) = some seen ∧
      ((∀ s ∈ steps, s.OpensOnly Order.Settles) → seen = Offer.ofOrder o) := by
  obtain ⟨seen, hopened, hread⟩ := exists_unpacked o
    (OrderStore.isFinite_of_get _ (readable_run capacity steps) i o hfound)
  refine ⟨seen, hopened, hread, fun hsettling => ?_⟩
  have hsteady := (findsSteady_run False capacity steps hsettling False.elim i o hfound).1
  rw [Offer.reread?_ofOrder o o hsteady] at hread
  exact (Option.some.inj hread).symm

/-- What is opened of the offer of an order as it was when it was rejected, however long ago. -/
theorem exists_unpacked_rejected (capacity : Nat) (before since : List DeskStep) (earlier : Moment)
    (i : String) (r : RejectRequest) (o : Order)
    (ho : ((run capacity before).reject earlier i r).1 = .ok o) :
    let steps := before ++ ⟨earlier, .request (.reject i r)⟩ :: since
    ∃ current seen, (run capacity steps).store.get i = .ok (some current) ∧
      (Payload.pack (Offer.ofOrder o)).unpack Offer = .ok seen ∧
      Rereads.reread? (Offer.ofOrder o) = some seen ∧
      ((∀ s ∈ steps, s.OpensOnly Order.Settles) → seen = Offer.ofOrder current) := by
  intro steps
  obtain ⟨old, hold, hrejected⟩ := reject_eq_ok _ earlier i r o ho
  obtain ⟨current, hcurrent⟩ := exists_found_rejected capacity before
    (⟨earlier, .request (.reject i r)⟩ :: since) earlier i r o ho
  rw [id_of_reject capacity before earlier i r o ho] at hcurrent
  obtain ⟨seen, hopened, hread⟩ := exists_unpacked o (Order.isFinite_movesOn old o _
    (OrderStore.isFinite_of_get _ (readable_run capacity before) i old hold)
    (movesOn_rejected earlier.now i r old o hrejected))
  refine ⟨current, seen, hcurrent, hopened, hread, fun hsettling => ?_⟩
  have hsteady := (findsSteady_run False capacity steps hsettling False.elim i current hcurrent).1
  have hoffer : Offer.ofOrder current = Offer.ofOrder o := by
    rw [Offer.ofOrder_turns _ _ i old o (turns_rejected earlier.now i r old o hrejected)]
    exact offer_run capacity before _ hsettling i old current hold hcurrent
  rw [← hoffer, Offer.reread?_ofOrder current current hsteady] at hread
  exact (Option.some.inj hread).symm

/-! ## Rounds with the registry -/

section Registered

variable (ps : List Provider) (m : Moment) (hm : m.directory = (Registry.ofList ps).directory)

include hm

/-- The best providers are different ones, and all of them take notifications. -/
theorem exists_ranked (o : Order) :
    ∃ ranked, (Matching.best m.directory o 3).2 = .ok ranked ∧
      (ranked.map (·.candidate.providerId)).Nodup ∧
      ∀ s ∈ ranked, (m.directory.notify (offerTo o s)).isOk = true := by
  have hanswers := (Registry.answers_directory ps o 3 _).2 rfl
  rw [← hm] at hanswers
  refine ⟨_, (Matching.best_eq_ok_iff m.directory o 3 _).2 ⟨_, hanswers, rfl⟩, ?_,
    fun s hs => ?_⟩
  · have hfound := Registry.nodup_foundAmong _ (Registry.pairwise_values ps)
      (Matching.searchFor o (usedRadiusKm ps o 3))
    exact (Matching.nodup_ranking _ hfound).sublist ((List.take_sublist _ _).map _)
  · obtain ⟨c, hc, rfl⟩ := (Matching.mem_ranking _ s).1 (List.mem_of_mem_take hs)
    rw [hm]
    exact Registry.isOk_notify_of_mem_find ps _ c hc _ rfl

end Registered

/-- With the registry as the directory, an automatic assignment, and a rematch, send each of the
best three providers one offer of the order behind all that it had, and nothing to anybody else; a
rematch leaves out who has rejected the order. An assignment that names a provider sends nothing.
What is opened is what reading makes of the offer; as long as figures settle, that is the offer of
the order as it is found before it is assigned. Whatever comes of the notifications, the answers,
the books and the errands are the same. -/
theorem offers_sent (capacity : Nat) (steps : List DeskStep) (ps : List Provider) (m : Moment)
    (hm : m.directory = (Registry.ofList ps).directory) :
    let d := run capacity steps
    (∀ i r o, d.get i = .ok o → (∀ p, r.providerId = some p → Text.isBlank p = true) →
      ∃ ranked seen, (Matching.best m.directory o 3).2 = .ok ranked ∧ o.id = i ∧
        d.Offers (d.assign m i r).2 o (ranked.map (·.candidate.providerId)) ∧
        (Payload.pack (Offer.ofOrder o)).unpack Offer = .ok seen ∧
        Rereads.reread? (Offer.ofOrder o) = some seen ∧
        ((∀ s ∈ steps, s.OpensOnly Order.Settles) → seen = Offer.ofOrder o)) ∧
    (∀ before since earlier i r o,
      steps = before ++ ⟨earlier, .request (.reject i r)⟩ :: since →
      ((run capacity before).reject earlier i r).1 = .ok o →
      ∃ ranked current seen, (Matching.best m.directory o 3).2 = .ok ranked ∧
        o.id = i ∧ d.store.get i = .ok (some current) ∧
        d.Offers (d.rematch m o r.providerId) o
          ((ranked.filter (·.candidate.providerId != r.providerId)).map
            (·.candidate.providerId)) ∧
        (Payload.pack (Offer.ofOrder o)).unpack Offer = .ok seen ∧
        Rereads.reread? (Offer.ofOrder o) = some seen ∧
        ((∀ s ∈ steps, s.OpensOnly Order.Settles) → seen = Offer.ofOrder current)) ∧
    (∀ i r p, r.providerId = some p → Text.isBlank p = false →
      (d.assign m i r).2.traffic = d.traffic) ∧
    ∀ notify,
      (∀ i r, ∃ traffic, d.assign (m.notifying notify) i r =
        ((d.assign m i r).1, { (d.assign m i r).2 with traffic })) ∧
      ∀ o without, ∃ traffic, d.rematch (m.notifying notify) o without =
        { d.rematch m o without with traffic } := by
  intro d
  refine ⟨fun i r o hget hr => ?_, fun before since earlier i r o hsteps ho => ?_,
    fun i r p hr hp => d.traffic_assign_named m i r p hr hp,
    fun notify => ⟨assign_notifying d m notify, rematch_notifying d m notify⟩⟩
  · have hfound := store_get_of_get d i o hget
    obtain ⟨ranked, hranked, hids, harrive⟩ := exists_ranked ps m hm o
    obtain ⟨seen, hopened⟩ := exists_unpacked_found capacity steps i o hfound
    exact ⟨ranked, seen, hranked, id_of_get _ (indexed_run capacity steps) i o hfound,
      d.offers_assign m i r o ranked hget hr hranked hids harrive, hopened⟩
  · subst hsteps
    obtain ⟨ranked, hranked, hids, harrive⟩ := exists_ranked ps m hm o
    obtain ⟨current, seen, hcurrent, hopened⟩ :=
      exists_unpacked_rejected capacity before since earlier i r o ho
    exact ⟨ranked, current, seen, hranked, id_of_reject capacity before earlier i r o ho, hcurrent,
      d.offers_rematch m o ranked hranked r.providerId hids harrive, hopened⟩

/-! ## One provider on duty -/

/-- The one provider on duty is asked about rides from where it is, if that is near to itself. -/
theorem ids_onDuty (o : Order) (hkind : o.kind = .ride) (hpickup : o.pickup.coordinates = ⟨1, 2⟩)
    (ranked : List Scored)
    (hranked : (Matching.best onDuty.directory o offeredProviders).2 = .ok ranked)
    (hids : (ranked.map (·.candidate.providerId)).Nodup) :
    ranked.map (·.candidate.providerId) =
      if Travel.greatCircleKm ⟨1, 2⟩ ⟨1, 2⟩ ≤ 10 then ["p-1"] else [] := by
  obtain ⟨cs, hcs, rfl⟩ := (Matching.best_eq_ok_iff onDuty.directory o offeredProviders _).1 hranked
  rw [show onDuty.directory = (Registry.ofList [walker]).directory from rfl,
    Registry.answers_directory] at hcs
  subst hcs
  have hsomebody := Registry.exists_kept_iff [walker] o offeredProviders (fun _ => False)
    (by decide) fun _ _ h => h.elim
  have hserves : walker.Serves o 10 ↔
      Travel.greatCircleKm ⟨1, 2⟩ ⟨1, 2⟩ ≤ 10 := by
    unfold Provider.Serves
    rw [hpickup, hkind]
    exact ⟨fun h => h.2.2, fun h => ⟨rfl, by decide, h⟩⟩
  have hmatch : (∃ p ∈ Matches [walker] o 10, ¬ False) ↔
      walker.Serves o 10 := by
    constructor
    · rintro ⟨p, hp, -⟩
      exact (matches_walker o _ p hp).2
    · exact fun h => ⟨walker, ⟨(registered_append [] walker walker).2 (.inl rfl), h⟩, id⟩
  rw [hmatch, hserves] at hsomebody
  generalize hrank : Matching.rank _ offeredProviders = ranked at hids hsomebody
  have hall : ∀ i ∈ ranked.map (·.candidate.providerId), i = "p-1" := by
    intro i hi
    obtain ⟨s, hs, rfl⟩ := List.mem_map.1 hi
    rw [← hrank] at hs
    obtain ⟨c, hc, rfl⟩ := (Matching.mem_ranking _ s).1 (List.mem_of_mem_take hs)
    obtain ⟨p, hp, rfl⟩ := (Registry.mem_find [walker] o _ c).1 hc
    exact congrArg Provider.providerId (matches_walker o _ p hp).1
  have hone := List.eq_replicate_of_mem hall
  rw [hone, List.nodup_replicate, List.length_map] at hids
  split
  · next hnear =>
    obtain ⟨s, hs, -⟩ := hsomebody.2 hnear
    have hlength := List.length_pos_of_mem hs
    rw [hone, List.length_map, show ranked.length = 1 by omega]
    rfl
  · next hfar =>
    rw [List.map_eq_nil_iff, List.eq_nil_iff_forall_not_mem]
    exact fun s hs => hfar (hsomebody.1 ⟨s, hs, id⟩)

/-- The provider is offered the order, if it is near enough, and reads it as it is found. -/
theorem offers_sent_walker :
    onDuty.directory = (Registry.ofList [walker]).directory ∧
      (run 1 [opening]).Offers ((run 1 [opening]).assign onDuty "o-1" ⟨none⟩).2 costlyReread
        (if Travel.greatCircleKm ⟨1, 2⟩ ⟨1, 2⟩ ≤ 10 then ["p-1"] else []) ∧
      (Payload.pack (Offer.ofOrder costlyReread)).unpack Offer =
        .ok (Offer.ofOrder costlyReread) := by
  have hget := get_of_store_get (run 1 [opening]) "o-1" costlyReread isBlank_names.1 (get_opening 1)
  obtain ⟨hassign, -⟩ := offers_sent 1 [opening] [walker] onDuty rfl
  obtain ⟨ranked, seen, hranked, -, hoffers, hopened, hread, -⟩ :=
    hassign "o-1" ⟨none⟩ costlyReread hget (by simp)
  obtain ⟨_, hbest, hids, -⟩ := exists_ranked [walker] onDuty rfl costlyReread
  rw [hranked] at hbest
  cases hbest
  rw [ids_onDuty costlyReread rfl rfl ranked hranked hids] at hoffers
  rw [Offer.reread?_ofOrder costlyReread costlyReread reread?_costlyReread] at hread
  cases hread
  exact ⟨rfl, hoffers, hopened⟩

/-! ## An offer that drifts -/

/-- What is found of the order whose total does not settle. -/
def smallReread : Order := { smallOrder with totalPrice := 8.503589165215667e-08 }

theorem get_smallOpening : (run 1 [smallOpening]).store.get "o-1" = .ok (some smallReread) := by
  have htotals : Totals.ofItems small.items = .ok smallTotals := by decide +kernel
  have hread : Rereads.reread? smallOrder = some smallReread := by decide +kernel
  obtain ⟨store, -, hstored, hbooks⟩ :=
    toBooks_first 1 quiet small _ _ smallTotals smallOrder rfl htotals rfl
  rw [smallOpening, hbooks]
  exact OrderStore.get_of_reread? store "o-1" smallOrder smallReread hstored hread

/-- Whoever is offered the order opens an offer with another total than the order is found with,
whether it is the provider on duty, if that is near enough, or one that any search finds. -/
theorem offer_drifts :
    ∃ o seen, (run 1 [smallOpening]).get "o-1" = .ok o ∧
      (Payload.pack (Offer.ofOrder o)).unpack Offer = .ok seen ∧
      o.totalPrice = 8.503589165215667e-08 ∧ seen.totalPrice = 8.503589165215668e-08 ∧
      seen ≠ Offer.ofOrder o ∧
      (Travel.greatCircleKm ⟨1, 2⟩ ⟨1, 2⟩ ≤ 10 →
        (run 1 [smallOpening]).Offers ((run 1 [smallOpening]).assign onDuty "o-1" ⟨none⟩).2 o
          ["p-1"]) ∧
      (run 1 [smallOpening]).Offers ((run 1 [smallOpening]).assign helpful "o-1" ⟨none⟩).2 o
        ["p-2"] := by
  have hget := get_of_store_get (run 1 [smallOpening]) "o-1" smallReread isBlank_names.1
    get_smallOpening
  have hread : Rereads.reread? (Offer.ofOrder smallReread) =
      some { Offer.ofOrder smallReread with totalPrice := 8.503589165215668e-08 } := by
    decide +kernel
  have hdrift : (8.503589165215668e-08 : Float) ≠ 8.503589165215667e-08 := by decide
  refine ⟨smallReread, _, hget, (Payload.unpack_pack_eq_ok_iff _ _).2 hread, rfl, rfl,
    fun h => hdrift (congrArg Offer.totalPrice h), fun hnear => ?_, ?_⟩
  · obtain ⟨ranked, hranked, hids, harrive⟩ := exists_ranked [walker] onDuty rfl smallReread
    have hoffers := offers_assign (run 1 [smallOpening]) onDuty "o-1" ⟨none⟩ smallReread ranked hget
      (by simp) hranked hids harrive
    rwa [ids_onDuty smallReread rfl rfl ranked hranked hids, if_pos hnear] at hoffers
  · have hanswers := (answers_helpful smallReread _).2 rfl
    have hranked := (Matching.best_eq_ok_iff helpful.directory smallReread offeredProviders _).2
      ⟨_, hanswers, rfl⟩
    rw [offeredProviders, Matching.rank_singleton] at hranked
    exact offers_assign (run 1 [smallOpening]) helpful "o-1" ⟨none⟩ smallReread _ hget (by simp)
      hranked (List.nodup_singleton _) fun _ _ => rfl

end Desk

end OrderDispatch
