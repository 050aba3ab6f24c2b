import OrderDispatch.Proofs.Matching

/-!
# The best of any answer

Whatever a directory answers, the search for the best providers asks it for those within five
kilometres of the pick-up, and again for those within ten if these are too few. It fails as soon as
an answer is a failure. Otherwise it ends with the best of the last answer, which may be shorter
than the first, and may name a provider twice. They are told by their places in that answer:

    rank cs count = ((bestPlaces cs).take count).map fun i => scored cs[i]       (rank_eq_map)

Every place is there once, and one place leads another for its higher score or, if both scores are
equal, for being the first of the two. So the places that are taken lead all the others.
-/

namespace OrderDispatch.Matching

/-! ## Places -/

/-- How high the score of the candidate at a place is. -/
def keyAt (cs : List Candidate) (i : Fin cs.length) : Int := Binary64.orderKey cs[i].score

/-- The score at one place is no lower than that at another, and if they are equal it is the first
place of the two. -/
def Leads (cs : List Candidate) (i j : Fin cs.length) : Prop :=
  keyAt cs j ≤ keyAt cs i ∧ (keyAt cs i = keyAt cs j → i < j)

/-- All places, those of the best first. -/
def bestPlaces (cs : List Candidate) : List (Fin cs.length) :=
  (List.finRange cs.length).mergeSort fun i j => keyAt cs j ≤ keyAt cs i

theorem perm_bestPlaces (cs : List Candidate) : (bestPlaces cs).Perm (List.finRange cs.length) :=
  List.mergeSort_perm _ _

theorem pairwise_bestPlaces (cs : List Candidate) : (bestPlaces cs).Pairwise (Leads cs) := by
  have horder : (List.finRange cs.length).Pairwise (· < ·) := List.pairwise_lt_finRange _
  refine (pairwise_mergeSort_key (keyAt cs) _ _ horder).imp ?_
  intro i j h
  rcases h with hlt | ⟨heq, hij⟩
  · exact ⟨hlt.le, fun heq => absurd heq (by omega)⟩
  · exact ⟨heq.ge, fun _ => hij⟩

/-- The ranking of the candidates is that of their places. -/
theorem ranking_eq_map (cs : List Candidate) :
    ranking cs = (bestPlaces cs).map fun i => scored cs[i] := by
  have hmap : cs.map scored = (List.finRange cs.length).map fun i => scored cs[i] := by
    conv_lhs => rw [← List.map_get_finRange cs, List.map_map]
    rfl
  unfold ranking bestPlaces
  rw [hmap, List.map_mergeSort]
  intro i _ j _
  rfl

theorem rank_eq_map (cs : List Candidate) (count : Nat) :
    rank cs count = ((bestPlaces cs).take count).map fun i => scored cs[i] := by
  rw [rank_eq_take, ranking_eq_map, List.map_take]

/-- The places that are taken lead those that are not. -/
theorem leads_of_not_mem_take (cs : List Candidate) (count : Nat) (i j : Fin cs.length)
    (hi : i ∈ (bestPlaces cs).take count) (hj : j ∉ (bestPlaces cs).take count) :
    Leads cs i j := by
  have hall : j ∈ bestPlaces cs := (perm_bestPlaces cs).mem_iff.2 (List.mem_finRange j)
  have hpairs := pairwise_bestPlaces cs
  rw [← List.take_append_drop count (bestPlaces cs)] at hall hpairs
  have hdrop := (List.mem_append.1 hall).resolve_left hj
  exact (List.pairwise_append.1 hpairs).2.2 i hi j hdrop

/-- The places of the best `count` of an answer. -/
structure AreBest (cs : List Candidate) (count : Nat) (places : List (Fin cs.length)) : Prop where
  /-- No place is taken twice. -/
  nodup : places.Nodup
  length : places.length = min count cs.length
  /-- They come in the order of falling scores, and in that of the answer among equal ones. -/
  ordered : places.Pairwise (Leads cs)
  /-- None that is left out has a higher score. -/
  ahead : ∀ i ∈ places, ∀ j ∉ places, Leads cs i j

theorem areBest_take (cs : List Candidate) (count : Nat) :
    AreBest cs count ((bestPlaces cs).take count) := by
  have hsub : ((bestPlaces cs).take count).Sublist (bestPlaces cs) := List.take_sublist _ _
  have hperm := perm_bestPlaces cs
  constructor
  · exact (hperm.nodup_iff.2 (List.nodup_finRange _)).sublist hsub
  · rw [List.length_take, hperm.length_eq, List.length_finRange]
  · exact (pairwise_bestPlaces cs).sublist hsub
  · exact fun i hi j hj => leads_of_not_mem_take cs count i j hi hj

theorem exists_best_rank (cs : List Candidate) (count : Nat) :
    ∃ places, AreBest cs count places ∧ rank cs count = places.map fun i => scored cs[i] :=
  ⟨_, areBest_take cs count, rank_eq_map cs count⟩

/-! ## The search -/

section Answers

variable (d : Directory) (o : Order) (count : Nat)

theorem best_of_failure (e : DirectoryError)
    (h : d.find (searchFor o initialRadiusKm) = .error e) :
    best d o count = ([searchFor o initialRadiusKm], .error e) := by
  unfold best
  simp only [h]

theorem best_of_enough (few : List Candidate)
    (h : d.find (searchFor o initialRadiusKm) = .ok few) (henough : count ≤ few.length) :
    best d o count = ([searchFor o initialRadiusKm], .ok (rank few count)) := by
  unfold best
  simp only [h, if_neg (Nat.not_lt.2 henough)]

/-- With too few close to the pick-up, all depends on the wider circle. -/
theorem best_of_few (few : List Candidate)
    (h : d.find (searchFor o initialRadiusKm) = .ok few) (hscarce : few.length < count) :
    best d o count = ([searchFor o initialRadiusKm, searchFor o widenedRadiusKm],
      (d.find (searchFor o widenedRadiusKm)).map (rank · count)) := by
  unfold best
  simp only [h, if_pos hscarce]
  cases d.find (searchFor o widenedRadiusKm) <;> rfl

end Answers

/-- Whatever the directory answers: the search asks for providers of the service within five
kilometres of the pick-up, and for those within ten exactly if the first answer holds fewer than
`count`. A failure is the last answer, and is returned. Otherwise the outcome are the best `count`
of the last answer. -/
theorem best_of_any_answer (d : Directory) (o : Order) (count : Nat) :
    let close : Search := ⟨o.pickup.coordinates, 5, o.kind.serviceType⟩
    let wide : Search := ⟨o.pickup.coordinates, 10, o.kind.serviceType⟩
    let made := (best d o count).1
    let outcome := (best d o count).2
    (made = [close] ∧ (∀ few, d.find close = .ok few → count ≤ few.length) ∨
      made = [close, wide] ∧ ∃ few, d.find close = .ok few ∧ few.length < count) ∧
    (∀ e, outcome = .error e ↔ ∃ query ∈ made, d.find query = .error e) ∧
    ∀ last ∈ made.getLast?, ∀ cs, d.find last = .ok cs → ∃ places,
      AreBest cs count places ∧ outcome = .ok (places.map fun i => scored cs[i]) := by
  intro close wide made outcome
  cases hclose : d.find close with
  | error e =>
    have hbest : best d o count = ([close], .error e) := best_of_failure d o count e hclose
    have hmade : made = [close] := congrArg Prod.fst hbest
    have houtcome : outcome = .error e := congrArg Prod.snd hbest
    rw [hmade, houtcome]
    refine ⟨.inl ⟨rfl, by simp⟩, by simp [hclose], ?_⟩
    intro last hlast cs hcs
    cases hlast
    cases hclose.symm.trans hcs
  | ok few =>
    by_cases hscarce : few.length < count
    · have hbest : best d o count = ([close, wide], (d.find wide).map (rank · count)) :=
        best_of_few d o count few hclose hscarce
      have hmade : made = [close, wide] := congrArg Prod.fst hbest
      have houtcome : outcome = (d.find wide).map (rank · count) := congrArg Prod.snd hbest
      rw [hmade, houtcome]
      refine ⟨.inr ⟨rfl, few, rfl, hscarce⟩, ?_, ?_⟩
      · intro e
        cases hwide : d.find wide <;> simp [Except.map, hclose, hwide]
      · intro last hlast cs hcs
        cases hlast
        have hwide : d.find wide = .ok cs := hcs
        rw [hwide]
        obtain ⟨places, hplaces, hrank⟩ := exists_best_rank cs count
        exact ⟨places, hplaces, congrArg Except.ok hrank⟩
    · have henough : count ≤ few.length := Nat.le_of_not_lt hscarce
      have hbest : best d o count = ([close], .ok (rank few count)) :=
        best_of_enough d o count few hclose henough
      have hmade : made = [close] := congrArg Prod.fst hbest
      have houtcome : outcome = .ok (rank few count) := congrArg Prod.snd hbest
      rw [hmade, houtcome]
      refine ⟨.inl ⟨rfl, ?_⟩, by simp [hclose], ?_⟩
      · intro _ h
        cases h
        exact henough
      · intro last hlast cs hcs
        cases hlast
        cases hclose.symm.trans hcs
        obtain ⟨places, hplaces, hrank⟩ := exists_best_rank few count
        exact ⟨places, hplaces, congrArg Except.ok hrank⟩

end OrderDispatch.Matching
