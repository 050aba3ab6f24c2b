import OrderDispatch.Proofs.Desk.Answers
import OrderDispatch.Proofs.Desk.BestMatch
import OrderDispatch.Proofs.Desk.Settled

/-!
# Acting for an order

The provider of an order may accept it, reject it, and tell where it is. Each of these requires an
identifier that is not blank, so an order whose provider has a blank one waits for an answer that
nobody can give:

    accept, reject and updateLocation by o.providerId succeed ↔ it is not blank

Who assigns by name cannot get there, since a blank name counts for none. The directory is not
asked for anything of the kind: what it finds is assigned as it stands, and the registry takes
providers under any identifier. There is no other way for a blank identifier to get into an order.
-/

namespace OrderDispatch

/-- A search of the directory answers with this identifier. -/
def Directory.Finds (d : Directory) (p : String) : Prop :=
  ∃ search cs, d.find search = .ok cs ∧ ∃ c ∈ cs, c.providerId = p

/-- The event looks for a provider of an order in the directory. -/
def DeskEvent.Seeks (i : String) : DeskEvent → Prop
  | .request (.assign j r) => j = i ∧ ∀ p, r.providerId = some p → Text.isBlank p = true
  | .rematch stale _ => stale.id = i
  | _ => False

/-- A registry finds none but the providers that are registered. -/
theorem Registry.finds_directory (ps : List Provider) (p : String)
    (h : (Registry.ofList ps).directory.Finds p) : ∃ q, Registered ps q ∧ q.providerId = p := by
  obtain ⟨search, cs, hfind, c, hc, rfl⟩ := h
  cases hfind
  rw [find_eq, foundAmong, List.mem_mergeSort, List.mem_filterMap] at hc
  obtain ⟨q, hq, hcandidate⟩ := hc
  exact ⟨q, (mem_values ps q).1 hq, (providerId_candidate? search q c hcandidate).symm⟩

/-- The best are among those that a search has found. -/
theorem Directory.finds_of_rank (d : Directory) (o : Order) (count : Nat) (cs : List Candidate)
    (h : d.Answers o count cs) (s : Scored) (hs : s ∈ Matching.rank cs count) :
    d.Finds s.candidate.providerId := by
  rw [Matching.rank_eq_take] at hs
  obtain ⟨c, hc, rfl⟩ := (Matching.mem_ranking cs s).1 (List.mem_of_mem_take hs)
  cases h with
  | close _ answer => exact ⟨_, cs, answer, c, hc, rfl⟩
  | wide _ _ _ _ widened => exact ⟨_, cs, widened, c, hc, rfl⟩

namespace Desk

/-! ## Where a provider comes from -/

/-- The provider of an order that is found is the one that was written. -/
theorem provider_of_stored (t : OrderStore) (i : String) (o o' : Order) (hstored : t.Stored i o)
    (hget : t.get i = .ok (some o')) : o'.providerId = o.providerId := by
  rw [reread?_order o o' (OrderStore.reread?_of_get t i o o' hstored hget)]
  rfl

theorem stored_assignProvider (d d' : Desk) (m : Moment) (i p : String) (o : Order)
    (hd' : d'.store = d.store) (hget : d.store.get i = .ok (some o)) :
    (d'.assignProvider m i p).2.store.Stored i (o.assign m.now p) := by
  rw [← hd'] at hget
  unfold assignProvider
  rw [revise_of_get d' i (fun o => .ok (o.assign m.now p)) o _ hget rfl]
  exact stored_submit d' i o.providerId _

/-- An assignment changes no row, or it writes the provider that is named, if that is not blank, or
else one that the directory finds. -/
theorem assign_source (d : Desk) (m : Moment) (i : String) (r : AssignRequest) :
    (d.assign m i r).2.store = d.store ∨
      ∃ (o : Order) (p : String), (d.assign m i r).2.store.Stored i (o.assign m.now p) ∧
        (Text.isBlank p = false ∨
          DeskEvent.Seeks i (.request (.assign i r)) ∧ m.directory.Finds p) := by
  unfold assign
  rcases checked_cases d (d.get i) _ with ⟨f, hf⟩ | ⟨o, hget, hok⟩
  · rw [hf]
    exact .inl rfl
  rw [hok]
  have hfound := store_get_of_get d i o hget
  cases hnamed : r.providerId.filter (!Text.isBlank ·) with
  | some p =>
    have hblank := (Option.filter_eq_some_iff.1 hnamed).2
    exact .inr ⟨o, p, stored_assignProvider d d m i p o rfl hfound, .inl (by simpa using hblank)⟩
  | none =>
    have hseeks : DeskEvent.Seeks i (.request (.assign i r)) :=
      ⟨rfl, fun p hp => by simpa [hp] using hnamed⟩
    have hranked := Matching.best_eq_ok_iff m.directory o offeredProviders
    simp only
    unfold assignBest
    generalize Matching.best m.directory o offeredProviders = found at hranked
    obtain ⟨searches, result⟩ := found
    match result with
    | .error _ | .ok [] => exact .inl rfl
    | .ok (best :: others) =>
      obtain ⟨cs, hcs, hrank⟩ := (hranked _).1 rfl
      exact .inr ⟨o, best.candidate.providerId, stored_assignProvider d _ m i _ o rfl hfound,
        .inr ⟨hseeks, m.directory.finds_of_rank o _ cs hcs best (by simp [← hrank])⟩⟩

/-- A rematch changes no row, or it writes a provider that the directory finds. -/
theorem rematch_source (d : Desk) (m : Moment) (stale : Order) (rejectedBy : String) :
    (d.rematch m stale rejectedBy).store = d.store ∨
      ∃ (o : Order) (p : String),
        (d.rematch m stale rejectedBy).store.Stored stale.id (o.assign m.now p) ∧
        m.directory.Finds p := by
  rcases rematch_next d m stale rejectedBy with ⟨-, hbooks⟩ | ⟨next, traffic, hnext, hrevised⟩
  · exact .inl (congrArg Books.store hbooks)
  rw [hrevised]
  rcases revise_cases { d with traffic } stale.id (reassigned m.now next) with
    ⟨f, hf⟩ | ⟨old, new, -, hchange, hok⟩
  · rw [hf]
    exact .inl rfl
  · obtain ⟨-, rfl⟩ := (reassigned_eq_ok_iff m.now next old new).1 hchange
    obtain ⟨cs, ahead, behind, best, hcs, hrank, -, rfl, -⟩ := hnext
    rw [hok]
    exact .inr ⟨old, best.candidate.providerId, stored_submit { d with traffic } _ _ _,
      m.directory.finds_of_rank stale _ cs hcs best (by simp [hrank])⟩

/-- The provider of an order after a step is the one before it, or has an identifier that is not
blank, or was looked for with this step, and found. -/
theorem provider_source (d : Desk) (s : DeskStep) (i : String) (o : Order)
    (hget : (d.after s).store.get i = .ok (some o)) (p : String) (hp : o.providerId = some p) :
    (∃ old, d.store.get i = .ok (some old) ∧ old.providerId = some p) ∨
      Text.isBlank p = false ∨ s.event.Seeks i ∧ s.moment.directory.Finds p := by
  have hwritten : ∀ new, (d.after s).store.Stored i new → new.providerId = some p := by
    intro new hstored
    rw [← provider_of_stored _ i new o hstored hget, hp]
  have hkept : (d.after s).store = d.store →
      ∃ old, d.store.get i = .ok (some old) ∧ old.providerId = some p :=
    fun hstore => ⟨o, hstore ▸ hget, hp⟩
  cases rowTurns_after d s i with
  | same row => exact .inl ⟨o, (OrderStore.get_congr _ _ i row).symm.trans hget, hp⟩
  | opened r new event opens _ _ stored =>
    obtain ⟨_, _, _, _, -, -, rfl⟩ := opens
    cases hwritten _ stored
  | noted event old txRef found stored =>
    have hprovider := hwritten _ stored
    exact .inl ⟨old, found, hprovider⟩
  | turned old new found turns stored =>
    obtain ⟨m, event⟩ := s
    cases turns with
    | set | cancelled | accepted =>
      have hprovider := hwritten _ stored
      exact .inl ⟨old, found, hprovider⟩
    | rejected => cases hwritten _ stored
    | assigned i r =>
      rcases assign_source d m i r with hsame | ⟨o', q, hstored, hq⟩
      · exact .inl (hkept hsame)
      · cases hwritten _ hstored
        exact .inr hq
    | reassigned stale rejectedBy =>
      rcases rematch_source d m stale rejectedBy with hsame | ⟨o', q, hstored, hq⟩
      · exact .inl (hkept hsame)
      · cases hwritten _ hstored
        exact .inr (.inr ⟨rfl, hq⟩)

/-- A provider with a blank identifier has come out of the directory. -/
theorem blank_provider_source (capacity : Nat) (steps : List DeskStep) (i : String) (o : Order)
    (hget : (run capacity steps).store.get i = .ok (some o)) (p : String)
    (hp : o.providerId = some p) (hblank : Text.isBlank p = true) :
    ∃ before s since, steps = before ++ s :: since ∧ s.event.Seeks i ∧
      s.moment.directory.Finds p := by
  induction steps using List.reverseRecOn generalizing o with
  | nil => cases hget
  | append_singleton steps s ih =>
    rw [run_append] at hget
    rcases provider_source _ s i o hget p hp with ⟨old, hold, hprovider⟩ | hnot | hfound
    · obtain ⟨before, s', since, rfl, hs'⟩ := ih old hold hprovider
      exact ⟨before, s', since ++ [s], by simp, hs'⟩
    · rw [hblank] at hnot
      cases hnot
    · exact ⟨steps, s, [], rfl, hfound⟩

/-! ## Who can act -/

/-- After any run, the provider of an order may accept it, reject it, and tell a valid location,
exactly if its identifier is not blank. One with a blank identifier was looked for in the directory
and found there: in a registry, it was registered under that identifier. -/
theorem provider_can_act_iff (capacity : Nat) (steps : List DeskStep) (i : String) (o : Order)
    (p : String) (hi : Text.isBlank i = false)
    (hget : (run capacity steps).store.get i = .ok (some o)) (hp : o.providerId = some p) :
    let d := run capacity steps
    (∀ m location, (∃ new, (d.accept m i ⟨p, location⟩).1 = .ok new) ↔ Text.isBlank p = false) ∧
    (∀ m reason, (∃ new, (d.reject m i ⟨p, reason⟩).1 = .ok new) ↔ Text.isBlank p = false) ∧
    (∀ m location, location.coordinates.isValid = true →
      ((∃ receipt, (d.updateLocation m i ⟨p, some location⟩).1 = .ok receipt) ↔
        Text.isBlank p = false)) ∧
    (Text.isBlank p = true → ∃ before s since, steps = before ++ s :: since ∧ s.event.Seeks i ∧
      s.moment.directory.Finds p ∧
      ∀ ps, s.moment.directory = (Registry.ofList ps).directory →
        ∃ q, Registered ps q ∧ q.providerId = p) := by
  intro d
  have hheld : Text.isBlank i = false ∧ o.HeldBy p ↔ Text.isBlank p = false :=
    ⟨fun h => h.2.1, fun h => ⟨hi, h, hp⟩⟩
  refine ⟨fun m location => ?_, fun m reason => ?_, fun m location hvalid => ?_, fun hblank => ?_⟩
  · exact (d.accept_succeeds_iff m i o hget ⟨p, location⟩).trans hheld
  · exact (d.reject_succeeds_iff m i o hget ⟨p, reason⟩).trans hheld
  · rw [d.updateLocation_succeeds_iff m i o hget ⟨p, some location⟩, ← and_assoc]
    exact (and_iff_left ⟨location, rfl, hvalid⟩).trans hheld
  · obtain ⟨before, s, since, hsteps, hseeks, hfinds⟩ :=
      blank_provider_source capacity steps i o hget p hp hblank
    refine ⟨before, s, since, hsteps, hseeks, hfinds, fun ps hps => ?_⟩
    rw [hps] at hfinds
    exact Registry.finds_directory ps p hfinds

/-- The provider p-1 of an order may accept it. -/
theorem provider_can_act_iff_assigned :
    Text.isBlank "o-1" = false ∧
      (run 1 [opening, assigning]).store.get "o-1" = .ok (some assignedOrder) ∧
      assignedOrder.providerId = some "p-1" ∧
      ∃ new, ((run 1 [opening, assigning]).accept quiet "o-1" ⟨"p-1", none⟩).1 = .ok new := by
  obtain ⟨haccept, -⟩ := provider_can_act_iff 1 [opening, assigning] "o-1" assignedOrder "p-1"
    isBlank_names.1 (get_assigning 1) rfl
  exact ⟨isBlank_names.1, (get_assigning 1), rfl, (haccept quiet none).2 isBlank_names.2⟩

/-! ## A provider without a name -/

/-- Nobody can act for an order under this identifier. -/
structure Helpless (d : Desk) (i p : String) : Prop where
  accept : ∀ m location, ¬ ∃ new, (d.accept m i ⟨p, location⟩).1 = .ok new
  reject : ∀ m reason, ¬ ∃ new, (d.reject m i ⟨p, reason⟩).1 = .ok new
  updateLocation : ∀ m location,
    ¬ ∃ receipt, (d.updateLocation m i ⟨p, location⟩).1 = .ok receipt

theorem helpless_of_isBlank (d : Desk) (i p : String) (o : Order)
    (hget : d.store.get i = .ok (some o)) (hblank : Text.isBlank p = true) : d.Helpless i p := by
  have hnot : ¬ Text.isBlank p = false := by simp [hblank]
  refine ⟨fun m location h => ?_, fun m reason h => ?_, fun m location h => ?_⟩
  · exact hnot ((d.accept_succeeds_iff m i o hget _).1 h).2.1
  · exact hnot ((d.reject_succeeds_iff m i o hget _).1 h).2.1
  · exact hnot ((d.updateLocation_succeeds_iff m i o hget _).1 h).2.1.1

/-- An order is opened, and then assigned to whoever matches best. -/
def openedThenMatched (m : Moment) : List DeskStep :=
  [opening, ⟨m, .request (.assign "o-1" ⟨none⟩)⟩]

/-- The order is stuck with the provider that was found. -/
theorem stuck_of_assigned (m : Moment) (new : Order) (p : String)
    (hstored : ((run 1 [opening]).assign m "o-1" ⟨none⟩).2.store.Stored "o-1" new)
    (hp : new.providerId = some p) (hblank : Text.isBlank p = true) :
    ∃ o, (run 1 (openedThenMatched m)).store.get "o-1" = .ok (some o) ∧
      o.providerId = some p ∧ (run 1 (openedThenMatched m)).Helpless "o-1" p := by
  have hstep : ∀ d : Desk, d.after ⟨m, .request (.assign "o-1" ⟨none⟩)⟩ =
    (d.assign m "o-1" ⟨none⟩).2 := fun _ => rfl
  have hread := readable_run 1 ([opening] ++ [⟨m, .request (.assign "o-1" ⟨none⟩)⟩])
  rw [openedThenMatched, show ∀ s : DeskStep, [opening, s] = [opening] ++ [s] from fun _ => rfl]
  rw [run_append, hstep] at hread ⊢
  obtain ⟨o, hget, -⟩ := OrderStore.exists_found _ hread "o-1"
    (OrderStore.contains_of_stored _ _ _ hstored)
  exact ⟨o, hget, (provider_of_stored _ _ _ _ hstored hget).trans hp,
    helpless_of_isBlank _ _ p o hget hblank⟩

/-- A provider whose identifier is a blank. -/
def ghost : Provider := ⟨" ", "", 5, ["ride"], ⟨1, 2⟩, true⟩

/-- A moment at which every search finds it. -/
def haunted : Moment :=
  { quiet with directory := ⟨fun _ => .ok [⟨" ", "", 5, 1⟩], fun _ => .ok ()⟩ }

/-- A moment at which it is the only one that is registered. -/
def hauntedRegistry : Moment := { quiet with directory := (Registry.ofList [ghost]).directory }

/-- The order is assigned to the provider with the blank identifier, for whom nobody can act. It is
the same with a registry that takes its distance from itself for small. -/
theorem stuck_with_ghost :
    (∃ o, (run 1 (openedThenMatched haunted)).store.get "o-1" = .ok (some o) ∧
      o.providerId = some " " ∧ (run 1 (openedThenMatched haunted)).Helpless "o-1" " ") ∧
    (Travel.greatCircleKm ⟨1, 2⟩ ⟨1, 2⟩ ≤ 10 →
      ∃ o, (run 1 (openedThenMatched hauntedRegistry)).store.get "o-1" = .ok (some o) ∧
        o.providerId = some " " ∧
        (run 1 (openedThenMatched hauntedRegistry)).Helpless "o-1" " ") := by
  have hblank : Text.isBlank " " = true := by decide
  constructor
  · have hanswers : haunted.directory.Answers costlyReread offeredProviders [⟨" ", "", 5, 1⟩] :=
      .wide [⟨" ", "", 5, 1⟩] _ rfl (by decide) rfl
    have hranked := (Matching.best_eq_ok_iff haunted.directory costlyReread offeredProviders _).2
      ⟨_, hanswers, rfl⟩
    rw [offeredProviders, Matching.rank_singleton] at hranked
    rcases assign_unnamed _ haunted "o-1" ⟨none⟩ costlyReread _ isBlank_names.1 (get_opening 1)
      (by simp) hranked with ⟨hnil, -⟩ | ⟨best, others, hcons, -, hstored⟩
    · cases hnil
    · cases hcons
      exact stuck_of_assigned haunted _ " " hstored rfl hblank
  · intro hnear
    obtain ⟨hiff, hassigned⟩ := assign_bestMatch [ghost] hauntedRegistry rfl (run 1 [opening]) "o-1"
      ⟨none⟩ costlyReread isBlank_names.1 (get_opening 1) (by simp)
    have hmatches : ghost ∈ Matches [ghost] costlyReread 10 :=
      ⟨(registered_append [] ghost ghost).2 (.inl rfl), rfl, by decide, hnear⟩
    obtain ⟨new, hnew⟩ := hiff.2 ⟨ghost, hmatches⟩
    obtain ⟨hstored, p, hp, hprovider⟩ := hassigned new hnew
    rcases (registered_append [] ghost p).1 hp.matching.1 with rfl | ⟨⟨earlier, later, hnil, -⟩, -⟩
    · exact stuck_of_assigned hauntedRegistry new " " hstored hprovider hblank
    · cases earlier <;> cases hnil

end Desk

end OrderDispatch
