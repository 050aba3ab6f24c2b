import Mathlib.Data.Set.Card
import OrderDispatch.Directory.Registry
import OrderDispatch.Proofs.Matching
import OrderDispatch.Proofs.Table

/-!
# What the registry finds

The registry holds the last registration under each identifier, and a search finds exactly the
providers among them that serve it, each once and in one possible order: the nearer one first, then
the smaller identifier. Neither the order of the registrations nor that of the table shows in it.

    Registered ps p      p is the last of ps under its identifier
    p.Meets search       p is available, offers the service, and lies within the circle
    p.Serves o radius    the same of the search for an order
    Matches ps o radius  those of ps that are registered and serve

-/

namespace OrderDispatch

/-! ## Registrations -/

/-- The provider is the last one registered under its identifier. -/
def Registered (ps : List Provider) (p : Provider) : Prop :=
  ∃ earlier later, ps = earlier ++ p :: later ∧ ∀ q ∈ later, q.providerId ≠ p.providerId

theorem registered_append (ps : List Provider) (q p : Provider) :
    Registered (ps ++ [q]) p ↔ p = q ∨ (Registered ps p ∧ q.providerId ≠ p.providerId) := by
  constructor
  · rintro ⟨earlier, later, h, hlater⟩
    rcases List.eq_nil_or_concat later with rfl | ⟨later, x, rfl⟩
    · exact .inl (List.cons.inj (List.append_inj' h rfl).2).1.symm
    · have h' : ps ++ [q] = (earlier ++ p :: later) ++ [x] := by simpa using h
      obtain ⟨rfl, hx⟩ := List.append_inj' h' rfl
      cases hx
      exact .inr ⟨⟨earlier, later, rfl, fun q' hq' => hlater q' (by simp [hq'])⟩,
        hlater q (by simp)⟩
  · rintro (rfl | ⟨⟨earlier, later, rfl, hlater⟩, hne⟩)
    · exact ⟨ps, [], rfl, by simp⟩
    · refine ⟨earlier, later ++ [q], by simp, fun q' hq' => ?_⟩
      rcases List.mem_append.1 hq' with hq' | hq'
      · exact hlater q' hq'
      · rwa [List.mem_singleton.1 hq']

namespace Registry

/-- The registry after these registrations. -/
def ofList (ps : List Provider) : Registry := ps.foldl register empty

theorem ofList_append (ps : List Provider) (q : Provider) :
    ofList (ps ++ [q]) = (ofList ps).register q := by
  unfold ofList
  rw [List.foldl_append]
  rfl

theorem find?_ofList (ps : List Provider) (i : String) (p : Provider) :
    (ofList ps).providers.find? i = some p ↔ Registered ps p ∧ p.providerId = i := by
  induction ps using List.reverseRecOn with
  | nil =>
    constructor
    · intro h
      cases h
    · rintro ⟨⟨earlier, later, h, -⟩, -⟩
      cases earlier <;> cases h
  | append_singleton ps q ih =>
    rw [ofList_append, registered_append]
    show ((ofList ps).providers.insert q.providerId q).find? i = some p ↔ _
    rw [Table.find?_insert]
    split
    · next hi =>
      subst hi
      constructor
      · rintro ⟨⟩
        exact ⟨.inl rfl, rfl⟩
      · rintro ⟨rfl | ⟨-, hne⟩, hp⟩
        · rfl
        · exact absurd hp.symm hne
    · next hi =>
      rw [ih]
      constructor
      · rintro ⟨hp, rfl⟩
        exact ⟨.inr ⟨hp, Ne.symm hi⟩, rfl⟩
      · rintro ⟨rfl | ⟨hp, -⟩, rfl⟩
        · exact absurd rfl hi
        · exact ⟨hp, rfl⟩

theorem mem_values (ps : List Provider) (p : Provider) :
    p ∈ (ofList ps).providers.values ↔ Registered ps p := by
  unfold Table.values
  rw [List.mem_map]
  constructor
  · rintro ⟨⟨i, p⟩, hmem, rfl⟩
    exact ((find?_ofList ps i p).1 (Table.find?_of_mem _ i p hmem)).1
  · intro hp
    exact ⟨(p.providerId, p), Table.mem_of_find? _ _ _ ((find?_ofList ps _ p).2 ⟨hp, rfl⟩), rfl⟩

/-- No identifier is registered twice. -/
theorem pairwise_values (ps : List Provider) :
    (ofList ps).providers.values.Pairwise fun p q => p.providerId ≠ q.providerId := by
  have hkey : ∀ e ∈ (ofList ps).providers.entries, e.2.providerId = e.1 := fun e he =>
    ((find?_ofList ps e.1 e.2).1 (Table.find?_of_mem _ e.1 e.2 he)).2
  refine List.pairwise_map.2 ((ofList ps).providers.ascending.imp_of_mem ?_)
  intro a b ha hb hlt heq
  have hself : compare b.1 b.1 = .eq := Std.ReflCmp.compare_self
  rw [hkey a ha, hkey b hb] at heq
  rw [heq, hself] at hlt
  cases hlt

/-- Registrations that leave the same providers make the same registry. -/
theorem ofList_congr (ps qs : List Provider) (h : ∀ p, Registered ps p ↔ Registered qs p) :
    ofList ps = ofList qs := by
  have htables : (ofList ps).providers = (ofList qs).providers := by
    refine Table.eq_of_find? _ _ fun i => Option.ext fun p => ?_
    rw [find?_ofList, find?_ofList, h]
  calc ofList ps = ⟨(ofList ps).providers⟩ := rfl
    _ = ⟨(ofList qs).providers⟩ := by rw [htables]
    _ = ofList qs := rfl

end Registry

/-! ## Searches -/

namespace Provider

/-- The provider is available, offers the service, and lies within the radius. -/
def Meets (p : Provider) (search : Search) : Prop :=
  p.available = true ∧ search.serviceType ∈ p.serviceTypes ∧
    Travel.greatCircleKm search.center p.position ≤ search.radiusKm

/-- The candidate that the provider is as seen from a point. -/
def candidateAt (p : Provider) (center : Coordinates) : Candidate :=
  ⟨p.providerId, p.name, p.rating, Travel.greatCircleKm center p.position⟩

theorem candidate?_eq_some (p : Provider) (search : Search) (c : Candidate) :
    Registry.candidate? search p = some c ↔ p.Meets search ∧ c = p.candidateAt search.center := by
  unfold Registry.candidate? Meets candidateAt
  simp only [Bool.and_eq_true, List.contains_iff_mem]
  split
  · next h =>
    split
    · next hwithin => simp [h, hwithin, eq_comm]
    · next hbeyond => simp [hbeyond]
  · next h =>
    constructor
    · intro hc
      cases hc
    · rintro ⟨⟨havailable, hservice, -⟩, -⟩
      exact absurd ⟨havailable, hservice⟩ h

end Provider

namespace Registry

/-! ## The order of candidates -/

instance : Std.TransCmp nearer :=
  inferInstanceAs (Std.TransCmp (compareLex (compareOn fun c : Candidate =>
    Binary64.orderKey c.distance) (compareOn Candidate.providerId)))

/-- What is found among some providers, in the order of answers. -/
def foundAmong (es : List Provider) (search : Search) : List Candidate :=
  (es.filterMap (candidate? search)).mergeSort fun a b => (nearer a b).isLE

theorem find_eq (r : Registry) (search : Search) :
    r.find search = foundAmong r.providers.values search := rfl

theorem mem_foundAmong (es : List Provider) (search : Search) (c : Candidate) :
    c ∈ foundAmong es search ↔
      ∃ p ∈ es, p.Meets search ∧ c = p.candidateAt search.center := by
  unfold foundAmong
  simp only [List.mem_mergeSort, List.mem_filterMap, Provider.candidate?_eq_some]

theorem providerId_candidate? (search : Search) (p : Provider) (c : Candidate)
    (h : candidate? search p = some c) : c.providerId = p.providerId := by
  rw [((p.candidate?_eq_some search c).1 h).2]
  rfl

section Found

variable (es : List Provider) (hes : es.Pairwise fun p q => p.providerId ≠ q.providerId)
  (search : Search)

include hes

theorem nodup_foundAmong : ((foundAmong es search).map (·.providerId)).Nodup := by
  have hfound : (es.filterMap (candidate? search)).Pairwise
      fun a b => a.providerId ≠ b.providerId := by
    refine List.Pairwise.filterMap _ ?_ hes
    intro p q hne a ha b hb
    rw [providerId_candidate? search p a ha, providerId_candidate? search q b hb]
    exact hne
  have hperm := (List.mergeSort_perm (es.filterMap (candidate? search))
    fun a b => (nearer a b).isLE).map (·.providerId)
  exact hperm.nodup_iff.2 (List.pairwise_map.2 hfound)

/-- Candidates stand in strict order. -/
theorem pairwise_foundAmong : (foundAmong es search).Pairwise fun a b => nearer a b = .lt := by
  have hsorted : (foundAmong es search).Pairwise fun a b => (nearer a b).isLE = true := by
    apply List.pairwise_mergeSort
    · exact fun a b c hab hbc => Std.TransCmp.isLE_trans hab hbc
    · intro a b
      have hswap : nearer b a = (nearer a b).swap := Std.OrientedCmp.eq_swap
      rw [hswap]
      cases nearer a b <;> rfl
  have hids := List.pairwise_map.1 (nodup_foundAmong es hes search)
  refine (hsorted.and hids).imp ?_
  rintro a b ⟨hle, hne⟩
  cases hcompare : nearer a b with
  | lt => rfl
  | eq =>
    have hid := (Ordering.then_eq_eq.1 hcompare).2
    exact absurd (Std.LawfulEqOrd.eq_of_compare hid) hne
  | gt =>
    rw [hcompare] at hle
    cases hle

/-- It makes no difference in which order the providers are gone through. -/
theorem foundAmong_perm (es' : List Provider) (h : es'.Perm es) :
    foundAmong es' search = foundAmong es search := by
  have hes' : es'.Pairwise fun p q => p.providerId ≠ q.providerId :=
    (h.pairwise_iff fun hne => Ne.symm hne).2 hes
  have hperm : (foundAmong es' search).Perm (foundAmong es search) :=
    (List.mergeSort_perm _ _).trans ((h.filterMap _).trans (List.mergeSort_perm _ _).symm)
  refine hperm.eq_of_pairwise ?_ (pairwise_foundAmong es' hes' search)
    (pairwise_foundAmong es hes search)
  intro a b _ _ hab hba
  rw [Std.OrientedCmp.gt_iff_lt.2 hab] at hba
  cases hba

end Found

end Registry

/-! ## Searches for an order -/

namespace Provider

/-- The provider is available, offers the service for an order, and lies within so many kilometres
of its pick-up. -/
def Serves (p : Provider) (o : Order) (radiusKm : Float) : Prop :=
  p.available = true ∧ o.kind.serviceType ∈ p.serviceTypes ∧
    Travel.greatCircleKm o.pickup.coordinates p.position ≤ radiusKm

/-- The candidate that the provider is for an order. -/
def candidateFor (p : Provider) (o : Order) : Candidate :=
  ⟨p.providerId, p.name, p.rating, Travel.greatCircleKm o.pickup.coordinates p.position⟩

theorem candidate?_eq_some_iff (p : Provider) (o : Order) (radiusKm : Float) (c : Candidate) :
    Registry.candidate? (Matching.searchFor o radiusKm) p = some c ↔
      p.Serves o radiusKm ∧ c = p.candidateFor o :=
  p.candidate?_eq_some (Matching.searchFor o radiusKm) c

theorem serves_widened (p : Provider) (o : Order) (h : p.Serves o 5) : p.Serves o 10 :=
  ⟨h.1, h.2.1, Matching.le_ten _ h.2.2⟩

end Provider

/-- The registered providers that serve an order within so many kilometres. -/
def Matches (ps : List Provider) (o : Order) (radiusKm : Float) : Set Provider :=
  {p | Registered ps p ∧ p.Serves o radiusKm}

namespace Registry

theorem mem_find (ps : List Provider) (o : Order) (radiusKm : Float) (c : Candidate) :
    c ∈ (ofList ps).find (Matching.searchFor o radiusKm) ↔
      ∃ p ∈ Matches ps o radiusKm, c = p.candidateFor o := by
  rw [find_eq, mem_foundAmong]
  constructor
  · rintro ⟨p, hp, hserves, rfl⟩
    exact ⟨p, ⟨(mem_values ps p).1 hp, hserves⟩, rfl⟩
  · rintro ⟨p, ⟨hp, hserves⟩, rfl⟩
    exact ⟨p, (mem_values ps p).2 hp, hserves, rfl⟩

/-- A search finds as many candidates as there are matches. -/
theorem length_find (ps : List Provider) (o : Order) (radiusKm : Float) :
    ((ofList ps).find (Matching.searchFor o radiusKm)).length =
      (Matches ps o radiusKm).ncard := by
  classical
  let found := (ofList ps).providers.values.filter
    fun p => (candidate? (Matching.searchFor o radiusKm) p).isSome
  have hset : Matches ps o radiusKm = ↑found.toFinset := by
    ext p
    rw [List.coe_toFinset]
    show Registered ps p ∧ p.Serves o radiusKm ↔ p ∈ found
    rw [List.mem_filter, mem_values, Option.isSome_iff_exists]
    simp only [Provider.candidate?_eq_some_iff, exists_and_left, exists_eq, and_true]
  have hnodup : found.Nodup := by
    refine List.Pairwise.filter _ ((pairwise_values ps).imp ?_)
    rintro p q hne rfl
    exact hne rfl
  have hlength : ((ofList ps).find (Matching.searchFor o radiusKm)).length = found.length := by
    rw [find_eq, foundAmong, List.length_mergeSort, List.length_filterMap_eq_countP,
      List.countP_eq_length_filter]
  rw [hset, Set.ncard_coe_finset, List.toFinset_card_of_nodup hnodup, hlength]

end Registry

/-! ## The best match -/

theorem Registered.unique (ps : List Provider) (p q : Provider) (hp : Registered ps p)
    (hq : Registered ps q) (h : p.providerId = q.providerId) : p = q := by
  have hfind := (Registry.find?_ofList ps q.providerId p).2 ⟨hp, h⟩
  rw [(Registry.find?_ofList ps q.providerId q).2 ⟨hq, rfl⟩] at hfind
  exact (Option.some.inj hfind).symm

/-- The radius of the circle that the best are taken from: five kilometres, if that circle holds
enough, and else ten. -/
noncomputable def usedRadiusKm (ps : List Provider) (o : Order) (count : Nat) : Float :=
  if count ≤ (Matches ps o 5).ncard then 5 else 10

/-- One provider comes before another for an order: the one with the higher score, of two equal
scores the nearer one, of two as near the one with the smaller identifier. -/
def Provider.Precedes (o : Order) (p q : Provider) : Prop :=
  ((compare (Binary64.orderKey (q.candidateFor o).score)
      (Binary64.orderKey (p.candidateFor o).score)).then
    (compare (Binary64.orderKey (p.candidateFor o).distance)
      (Binary64.orderKey (q.candidateFor o).distance))).then
    (compare p.providerId q.providerId) = .lt

/-- The provider comes first among all matches in the circle used that are not left out. -/
structure IsBestMatch (ps : List Provider) (o : Order) (count : Nat) (leftOut : String → Prop)
    (p : Provider) : Prop where
  matching : p ∈ Matches ps o (usedRadiusKm ps o count)
  kept : ¬ leftOut p.providerId
  first : ∀ q ∈ Matches ps o (usedRadiusKm ps o count), ¬ leftOut q.providerId → q ≠ p →
    p.Precedes o q

namespace Registry

/-- The search ends with what lies in the circle used. -/
theorem answers_directory (ps : List Provider) (o : Order) (count : Nat) (cs : List Candidate) :
    (ofList ps).directory.Answers o count cs ↔
      cs = (ofList ps).find (Matching.searchFor o (usedRadiusKm ps o count)) := by
  unfold usedRadiusKm
  rw [← length_find]
  constructor
  · intro h
    cases h with
    | close _ answer enough =>
      cases answer
      rw [if_pos enough]
    | wide few _ answer scarce widened =>
      cases answer
      cases widened
      rw [if_neg (Nat.not_le.2 scarce)]
  · rintro rfl
    split
    · next enough => exact .close _ rfl enough
    · next scarce => exact .wide _ _ rfl (Nat.not_le.1 scarce) rfl

variable (ps : List Provider) (o : Order) (count : Nat) (leftOut : String → Prop)

/-- What stands first among the best that are not left out is the best match. -/
theorem isBestMatch_of_rank (front behind : List Scored) (best : Scored)
    (hrank : Matching.rank ((ofList ps).find (Matching.searchFor o (usedRadiusKm ps o count)))
      count = front ++ best :: behind)
    (hfront : ∀ s ∈ front, leftOut s.candidate.providerId)
    (hbest : ¬ leftOut best.candidate.providerId) :
    ∃ p, IsBestMatch ps o count leftOut p ∧ best.candidate.providerId = p.providerId := by
  have hranked : best ∈ Matching.rank
      ((ofList ps).find (Matching.searchFor o (usedRadiusKm ps o count))) count := by simp [hrank]
  obtain ⟨c, hc, rfl⟩ := (Matching.mem_ranking _ best).1 (List.mem_of_mem_take hranked)
  obtain ⟨p, hp, rfl⟩ := (mem_find ps o _ c).1 hc
  refine ⟨p, ⟨hp, hbest, fun q hq hkept hne => ?_⟩, rfl⟩
  have hfound := (mem_find ps o _ (q.candidateFor o)).2 ⟨q, hq, rfl⟩
  have hpairs := pairwise_foundAmong _ (pairwise_values ps)
    (Matching.searchFor o (usedRadiusKm ps o count))
  rcases Matching.ahead_of_rank _ _ count hpairs leftOut front behind _ hrank hfront _ hfound hkept
    with heq | hscore | ⟨hscore, hnear⟩
  · exact absurd (Registered.unique ps q p hq.1 hp.1 (congrArg (·.candidate.providerId) heq)) hne
  · have hlt : compare (Binary64.orderKey (q.candidateFor o).score)
        (Binary64.orderKey (p.candidateFor o).score) = .lt := Int.compare_eq_lt.2 hscore
    unfold Provider.Precedes
    rw [hlt]
    rfl
  · have heq : compare (Binary64.orderKey (q.candidateFor o).score)
        (Binary64.orderKey (p.candidateFor o).score) = .eq := Int.compare_eq_eq.2 hscore.symm
    unfold Provider.Precedes
    rw [heq]
    exact hnear

/-- The best hold somebody who is not left out exactly if there is such a match in the wider circle,
as long as no two providers are left out. -/
theorem exists_kept_iff (hcount : 2 ≤ count) (hone : ∀ i j, leftOut i → leftOut j → i = j) :
    (∃ s ∈ Matching.rank ((ofList ps).find (Matching.searchFor o (usedRadiusKm ps o count))) count,
      ¬ leftOut s.candidate.providerId) ↔
    ∃ p ∈ Matches ps o 10, ¬ leftOut p.providerId := by
  constructor
  · rintro ⟨s, hs, hkept⟩
    obtain ⟨c, hc, rfl⟩ := (Matching.mem_ranking _ s).1 (List.mem_of_mem_take hs)
    obtain ⟨p, ⟨hp, hserves⟩, rfl⟩ := (mem_find ps o _ c).1 hc
    refine ⟨p, ⟨hp, ?_⟩, hkept⟩
    unfold usedRadiusKm at hserves
    split at hserves
    · exact p.serves_widened o hserves
    · exact hserves
  · rintro ⟨p, hp, hkept⟩
    obtain ⟨q, hq, hqkept⟩ : ∃ q ∈ Matches ps o (usedRadiusKm ps o count),
        ¬ leftOut q.providerId := by
      unfold usedRadiusKm
      split
      · next enough =>
        obtain ⟨a, ha⟩ := Set.nonempty_of_ncard_ne_zero
          (s := Matches ps o 5) (by omega)
        by_cases hleft : leftOut a.providerId
        · obtain ⟨b, hb, hne⟩ := Set.exists_ne_of_one_lt_ncard
            (s := Matches ps o 5) (by omega) a
          exact ⟨b, hb, fun h => hne (Registered.unique ps b a hb.1 ha.1 (hone _ _ h hleft))⟩
        · exact ⟨a, ha, hleft⟩
      · exact ⟨p, hp, hkept⟩
    exact Matching.exists_kept_rank _ count hcount
      (nodup_foundAmong _ (pairwise_values ps) _) leftOut hone _
      ((mem_find ps o _ _).2 ⟨q, hq, rfl⟩) hqkept

end Registry

end OrderDispatch
