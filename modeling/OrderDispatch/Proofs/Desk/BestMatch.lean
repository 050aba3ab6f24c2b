import OrderDispatch.Proofs.Desk.Rematch
import OrderDispatch.Proofs.Directory.Registry

/-!
# The best match is found

With the registry as the directory, an order that is to be assigned automatically gets a provider
exactly if one serves it within ten kilometres, and then the best match, whatever the order of
registrations. The same holds of a rematch, with one provider left out: only the best three are
asked for before it is, but no two registered providers have one identifier.
-/

namespace OrderDispatch.Desk

/-- An assignment that names no provider looks for the best one. -/
theorem assign_eq_assignBest (d : Desk) (m : Moment) (i : String) (r : AssignRequest) (o : Order)
    (hget : d.get i = .ok o) (hr : ∀ p, r.providerId = some p → Text.isBlank p = true) :
    d.assign m i r = d.assignBest m i o := by
  have hnobody : r.providerId.filter (!Text.isBlank ·) = none := by
    rw [Option.filter_eq_none_iff]
    intro p hp
    simp [hr p hp]
  unfold assign checked
  rw [hget]
  simp only [hnobody]

/-- What an assignment comes to that names no provider. -/
theorem assign_unnamed (d : Desk) (m : Moment) (i : String) (r : AssignRequest) (o : Order)
    (ranked : List Scored) (hi : Text.isBlank i = false) (hget : d.store.get i = .ok (some o))
    (hr : ∀ p, r.providerId = some p → Text.isBlank p = true)
    (hranked : (Matching.best m.directory o offeredProviders).2 = .ok ranked) :
    (ranked = [] ∧ (d.assign m i r).1 = .error (.noProvidersAvailable i)) ∨
      ∃ best others, ranked = best :: others ∧
        (d.assign m i r).1 = .ok (o.assign m.now best.candidate.providerId) ∧
        (d.assign m i r).2.store.Stored i (o.assign m.now best.candidate.providerId) := by
  have hfound : d.get i = .ok o := get_of_store_get d i o hi hget
  rw [d.assign_eq_assignBest m i r o hfound hr]
  unfold assignBest
  generalize Matching.best m.directory o offeredProviders = found at hranked
  obtain ⟨searches, result⟩ := found
  cases hranked
  cases ranked with
  | nil => exact .inl ⟨rfl, rfl⟩
  | cons best others =>
    have hrevised := revise_of_get ((d.noteSearches searches).sendOffers m o (best :: others)) i
      (fun o => .ok (o.assign m.now best.candidate.providerId)) o _ hget rfl
    refine .inr ⟨best, others, rfl, ?_⟩
    simp only [assignProvider]
    rw [hrevised]
    exact ⟨rfl, stored_submit _ i o.providerId _⟩

section Registered

variable (ps : List Provider) (m : Moment) (hm : m.directory = (Registry.ofList ps).directory)

include hm

/-- An assignment succeeds exactly if there is a match, and assigns the best one. -/
theorem assign_bestMatch (d : Desk) (i : String) (r : AssignRequest) (o : Order)
    (hi : Text.isBlank i = false) (hget : d.store.get i = .ok (some o))
    (hr : ∀ p, r.providerId = some p → Text.isBlank p = true) :
    ((∃ new, (d.assign m i r).1 = .ok new) ↔ (Matches ps o 10).Nonempty) ∧
      ∀ new, (d.assign m i r).1 = .ok new →
        (d.assign m i r).2.store.Stored i new ∧
        ∃ p, IsBestMatch ps o offeredProviders (fun _ => False) p ∧
          new.providerId = some p.providerId := by
  have hanswers := (Registry.answers_directory ps o offeredProviders _).2 rfl
  rw [← hm] at hanswers
  have hranked := (Matching.best_eq_ok_iff m.directory o offeredProviders _).2 ⟨_, hanswers, rfl⟩
  have hkept := Registry.exists_kept_iff ps o offeredProviders (fun _ => False) (by decide)
    fun _ _ h => h.elim
  rcases d.assign_unnamed m i r o _ hi hget hr hranked with
    ⟨hnil, herror⟩ | ⟨best, others, hcons, hok, hstored⟩
  · rw [herror]
    refine ⟨⟨?_, fun ⟨p, hp⟩ => ?_⟩, ?_⟩
    · rintro ⟨new, ⟨⟩⟩
    · obtain ⟨s, hs, -⟩ := hkept.2 ⟨p, hp, id⟩
      rw [hnil] at hs
      cases hs
    · rintro new ⟨⟩
  · refine ⟨⟨fun _ => ?_, fun _ => ⟨_, hok⟩⟩, fun new hnew => ?_⟩
    · obtain ⟨p, hp, -⟩ := hkept.1 ⟨best, by simp [hcons], id⟩
      exact ⟨p, hp⟩
    · rw [hok] at hnew
      cases hnew
      obtain ⟨p, hp, hid⟩ := Registry.isBestMatch_of_rank ps o offeredProviders (fun _ => False) []
        others best hcons (by simp) id
      exact ⟨hstored, p, hp, congrArg some hid⟩

/-- A rematch of an order that waits assigns somebody exactly if there is another match, and then
the best other one. -/
theorem rematch_bestMatch (d : Desk) (o current : Order) (without : String)
    (hget : d.store.get o.id = .ok (some current)) (hwaits : current.AwaitsProvider) :
    ((d.rematch m o without).toBooks = d.toBooks ∧
        ¬ ∃ p ∈ Matches ps o 10, p.providerId ≠ without) ∨
      ∃ p, IsBestMatch ps o offeredProviders (· = without) p ∧
        (∃ q ∈ Matches ps o 10, q.providerId ≠ without) ∧
        (d.rematch m o without).store.Stored o.id (current.assign m.now p.providerId) := by
  have hkept := Registry.exists_kept_iff ps o offeredProviders (· = without) (by decide)
    fun _ _ hi hj => hi.trans hj.symm
  have hnext : (∃ next, Matching.NextBest m.directory o offeredProviders without next) ↔
      ∃ p ∈ Matches ps o 10, p.providerId ≠ without := by
    rw [Matching.exists_nextBest_iff, hm]
    simp only [Registry.answers_directory, exists_eq_left]
    exact hkept
  rw [← hnext]
  rcases rematch_next d m o without with ⟨hnone, hbooks⟩ | ⟨next, traffic, hbest, hrevised⟩
  · exact .inl ⟨hbooks, fun ⟨next, h⟩ => hnone next h⟩
  · obtain ⟨cs, front, behind, best, hcs, hrank, hfront, rfl, hne⟩ := id hbest
    rw [hm, Registry.answers_directory] at hcs
    subst hcs
    obtain ⟨p, hp, hid⟩ := Registry.isBestMatch_of_rank ps o offeredProviders (· = without) front
      behind best hrank hfront hne
    rw [hid] at hrevised
    refine .inr ⟨p, hp, ⟨_, hbest⟩, ?_⟩
    have hbooks := toBooks_reassigned { d with traffic } o.id m.now p.providerId current hget hwaits
    rw [← hrevised] at hbooks
    exact (OrderStore.row_write d.store _ o.id _ (congrArg (·.store.orders) hbooks)).1

end Registered

/-- With the registry as the directory, an automatic assignment succeeds exactly if a registered
provider serves the order within ten kilometres, and a rematch of an order that waits assigns
somebody exactly if one but the provider that rejected it does. Either picks the best match, which
depends on neither the order of the registrations nor that in which the registry is gone through,
within five kilometres if three serve the order there, and else within ten. -/
theorem automatic_matching (capacity : Nat) (steps : List DeskStep) (ps : List Provider)
    (m : Moment) (hm : m.directory = (Registry.ofList ps).directory) :
    let d := run capacity steps
    (∀ i r, Text.isBlank i = false → d.store.orders.contains i = true →
      (∀ p, r.providerId = some p → Text.isBlank p = true) →
      ∃ o, d.store.get i = .ok (some o) ∧
        ((∃ new, (d.assign m i r).1 = .ok new) ↔ (Matches ps o 10).Nonempty) ∧
        ∀ new, (d.assign m i r).1 = .ok new →
          (d.assign m i r).2.store.Stored i new ∧
          ∃ p, IsBestMatch ps o 3 (fun _ => False) p ∧
            new.providerId = some p.providerId) ∧
    (∀ o current without, d.store.get o.id = .ok (some current) →
      current.status = .providerRejected → current.providerId = none →
      ∃ new, (d.rematch m o without).store.get o.id = .ok (some new) ∧
        ((∃ next, new.providerId = some next) ↔
          ∃ p ∈ Matches ps o 10, p.providerId ≠ without) ∧
        ∀ next, new.providerId = some next →
          ∃ p, IsBestMatch ps o 3 (· = without) p ∧ next = p.providerId) ∧
    (∀ qs, (∀ p, Registered qs p ↔ Registered ps p) →
      (Registry.ofList qs).directory = m.directory) ∧
    ∀ es search, es.Perm (Registry.ofList ps).providers.values →
      m.directory.find search = .ok (Registry.foundAmong es search) := by
  intro d
  refine ⟨fun i r hi hstored hr => ?_, fun o current without hget hstatus hfree => ?_,
    fun qs hqs => ?_, fun es search hes => ?_⟩
  · obtain ⟨o, hget, -⟩ := d.store.exists_found (readable_run capacity steps) i hstored
    exact ⟨o, hget, assign_bestMatch ps m hm d i r o hi hget hr⟩
  · rcases rematch_bestMatch ps m hm d o current without hget ⟨hstatus, hfree⟩ with
      ⟨hbooks, hnobody⟩ | ⟨p, hp, hsomebody, hstored⟩
    · have hsame : (d.rematch m o without).store = d.store := congrArg Books.store hbooks
      rw [hsame]
      refine ⟨current, hget, ⟨?_, fun h => absurd h hnobody⟩, ?_⟩
      · rintro ⟨next, hnext⟩
        rw [hfree] at hnext
        cases hnext
      · intro next hnext
        rw [hfree] at hnext
        cases hnext
    · have hread := readable_run capacity (steps ++ [⟨m, .rematch o without⟩])
      rw [run_append] at hread
      obtain ⟨new, hnew, -⟩ := OrderStore.exists_found _ hread o.id
        (OrderStore.contains_of_stored _ _ _ hstored)
      have hprovider : new.providerId = some p.providerId := by
        rw [reread?_order _ new (OrderStore.reread?_of_get _ o.id _ new hstored hnew)]
        rfl
      refine ⟨new, hnew, ⟨fun _ => hsomebody, fun _ => ⟨_, hprovider⟩⟩, fun next hnext => ?_⟩
      exact ⟨p, hp, Option.some.inj (hnext.symm.trans hprovider)⟩
  · rw [hm, Registry.ofList_congr qs ps hqs]
  · rw [hm, Registry.foundAmong_perm _ (Registry.pairwise_values ps) search es hes]
    rfl

/-! ## One provider on duty -/

/-- A provider of rides at the pick-up. -/
def walker : Provider := ⟨"p-1", "", 5, ["ride"], ⟨1, 2⟩, true⟩

/-- A moment with this provider in the registry, and nobody else. -/
def onDuty : Moment := { quiet with directory := (Registry.ofList [walker]).directory }

theorem matches_walker (o : Order) (radiusKm : Float) (p : Provider)
    (h : p ∈ Matches [walker] o radiusKm) : p = walker ∧ walker.Serves o radiusKm := by
  obtain ⟨hp, hserves⟩ := h
  rcases (registered_append [] walker p).1 hp with rfl | ⟨⟨earlier, later, hnil, -⟩, -⟩
  · exact ⟨rfl, hserves⟩
  · cases earlier <;> cases hnil

/-- A new order is assigned to the provider if it is near enough. Once it has rejected the order,
a rematch finds nobody. -/
theorem automatic_matching_walker :
    ((∃ new, ((run 1 [opening]).assign onDuty "o-1" ⟨none⟩).1 = .ok new) ↔
        Travel.greatCircleKm ⟨1, 2⟩ ⟨1, 2⟩ ≤ 10) ∧
      ∃ new, ((run 1 [opening, assigning, rejecting]).rematch onDuty rejectedOrder "p-1").store.get
        rejectedOrder.id = .ok (some new) ∧ new.providerId = none := by
  constructor
  · obtain ⟨hassign, -⟩ := automatic_matching 1 [opening] [walker] onDuty rfl
    obtain ⟨o, hget, hiff, -⟩ := hassign "o-1" ⟨none⟩ isBlank_names.1
      (OrderStore.contains_of_stored _ _ _ (stored_opening 1)) (by simp)
    rw [get_opening 1] at hget
    cases hget
    rw [hiff]
    constructor
    · rintro ⟨p, hp⟩
      exact (matches_walker _ _ p hp).2.2.2
    · intro hnear
      exact ⟨walker, (registered_append [] walker walker).2 (.inl rfl), rfl, by decide, hnear⟩
  · obtain ⟨-, hrematch, -⟩ :=
      automatic_matching 1 [opening, assigning, rejecting] [walker] onDuty rfl
    obtain ⟨new, hnew, hiff, -⟩ :=
      hrematch rejectedOrder rejectedOrder "p-1" (get_rejecting 1) rfl rfl
    refine ⟨new, hnew, ?_⟩
    cases hprovider : new.providerId with
    | none => rfl
    | some next =>
      obtain ⟨p, hp, hne⟩ := hiff.1 ⟨next, hprovider⟩
      exact absurd (congrArg Provider.providerId (matches_walker _ _ p hp).1) hne

end OrderDispatch.Desk
