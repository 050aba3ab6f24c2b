import OrderDispatch.Proofs.Directory.Registry

/-!
# What a search answers

The answer of the registry depends on the last registration of each provider and on nothing else:

    c ∈ found ↔ c is the candidate of a registered provider that meets the search
    found stands in strict order: by distance, then by identifier

Both together leave one possible list. So sequences of registrations that end in the same providers
have one answer, and so has every order in which those providers may be gone through.
-/

namespace OrderDispatch

/-! ## Registrations under different identifiers -/

/-- Under different identifiers, nobody replaces anybody. -/
theorem registered_iff_mem (ps : List Provider)
    (hps : ps.Pairwise fun p q => p.providerId ≠ q.providerId) (p : Provider) :
    Registered ps p ↔ p ∈ ps := by
  constructor
  · rintro ⟨earlier, later, rfl, -⟩
    exact List.mem_append_right _ List.mem_cons_self
  · intro hp
    obtain ⟨earlier, later, rfl⟩ := List.append_of_mem hp
    refine ⟨earlier, later, rfl, fun q hq => ?_⟩
    exact ((List.pairwise_cons.1 (List.pairwise_append.1 hps).2.1).1 q hq).symm

theorem registered_perm (ps qs : List Provider)
    (hps : ps.Pairwise fun p q => p.providerId ≠ q.providerId) (hperm : qs.Perm ps)
    (p : Provider) : Registered qs p ↔ Registered ps p := by
  have hqs : qs.Pairwise fun p q => p.providerId ≠ q.providerId :=
    (hperm.pairwise_iff fun hne => Ne.symm hne).2 hps
  rw [registered_iff_mem ps hps, registered_iff_mem qs hqs, hperm.mem_iff]

namespace Registry

theorem nearer_eq_lt_iff (a b : Candidate) :
    nearer a b = .lt ↔ Binary64.orderKey a.distance < Binary64.orderKey b.distance ∨
      (Binary64.orderKey a.distance = Binary64.orderKey b.distance ∧
        a.providerId < b.providerId) := by
  have hid : compare a.providerId b.providerId = .lt ↔ a.providerId < b.providerId :=
    compareOfLessAndEq_eq_lt
  unfold nearer
  rw [Ordering.then_eq_lt, Int.compare_eq_lt, Int.compare_eq_eq, hid]

/-- The values of the table are the registered providers in one of their orders. -/
theorem perm_values (ps es : List Provider) (hes : es.Nodup)
    (hmem : ∀ p, p ∈ es ↔ Registered ps p) : es.Perm (ofList ps).providers.values := by
  have hvalues : (ofList ps).providers.values.Nodup := by
    refine (pairwise_values ps).imp ?_
    rintro p q hne rfl
    exact hne rfl
  exact (List.perm_ext_iff_of_nodup hes hvalues).2 fun p => (hmem p).trans (mem_values ps p).symm

/-- Whoever is found takes notifications. -/
theorem isOk_notify_of_mem_find (ps : List Provider) (search : Search) (c : Candidate)
    (hc : c ∈ (ofList ps).find search) (n : Notification) (hn : n.providerId = c.providerId) :
    ((ofList ps).notify n).isOk = true := by
  rw [find_eq, mem_foundAmong] at hc
  obtain ⟨p, hp, -, rfl⟩ := hc
  have hfound := (find?_ofList ps p.providerId p).2 ⟨(mem_values ps p).1 hp, rfl⟩
  have hknown : (ofList ps).providers.contains n.providerId = true := by
    unfold Table.contains
    rw [hn]
    show ((ofList ps).providers.find? p.providerId).isSome = true
    rw [hfound]
    rfl
  unfold notify
  rw [if_pos hknown]
  rfl

/-- Every search is answered with the candidates of the registered providers that meet it, each
once, the nearer one first. Whatever else the registrations were, and in whichever order the
registered providers are gone through, the answer is the same. -/
theorem find_determined (ps : List Provider) (search : Search) :
    ∃ found, (ofList ps).directory.find search = .ok found ∧
      (∀ c, c ∈ found ↔
        ∃ p, Registered ps p ∧ p.Meets search ∧ c = p.candidateAt search.center) ∧
      (found.map (·.providerId)).Nodup ∧
      (found.Pairwise fun a b =>
        Binary64.orderKey a.distance < Binary64.orderKey b.distance ∨
          (Binary64.orderKey a.distance = Binary64.orderKey b.distance ∧
            a.providerId < b.providerId)) ∧
      (∀ es : List Provider, es.Nodup → (∀ p, p ∈ es ↔ Registered ps p) →
        foundAmong es search = found) ∧
      (∀ qs, (∀ p, Registered qs p ↔ Registered ps p) →
        (ofList qs).directory.find search = .ok found) ∧
      (∀ qs : List Provider, (ps.Pairwise fun p q => p.providerId ≠ q.providerId) →
        qs.Perm ps → (ofList qs).directory.find search = .ok found) := by
  have hdistinct := pairwise_values ps
  have hsame : ∀ qs, (∀ p, Registered qs p ↔ Registered ps p) →
      (ofList qs).directory.find search = .ok ((ofList ps).find search) := by
    intro qs hqs
    rw [ofList_congr qs ps hqs]
    rfl
  refine ⟨(ofList ps).find search, rfl, fun c => ?_, nodup_foundAmong _ hdistinct search, ?_,
    fun es hes hmem => ?_, hsame, fun qs hps hperm => hsame qs (registered_perm ps qs hps hperm)⟩
  · rw [find_eq, mem_foundAmong]
    simp only [mem_values]
  · exact (pairwise_foundAmong _ hdistinct search).imp fun h => (nearer_eq_lt_iff _ _).1 h
  · exact foundAmong_perm _ hdistinct search es (perm_values ps es hes hmem)

end Registry

end OrderDispatch
