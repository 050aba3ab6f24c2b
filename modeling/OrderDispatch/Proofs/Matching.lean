import Mathlib
import OrderDispatch.Matching
import OrderDispatch.Proofs.Number.Comparison

/-!
# The best providers for an order

The search for the best providers asks the directory at most twice, and ends with the candidates of
the last answer, or with a failure. The best of them are the front of one ranking of all, in which
equal scores keep the order of the answer.

    d.Answers o count cs     the candidates that the search ends with are cs
    NextBest d o count r p   p is the first of the best that is not r
    Ahead near a b           a has the higher score, or an equal one and is near before b

The ranking is cut off before a provider is left out. No candidate gets lost by that as long as at
least two are kept and no provider is listed twice.
-/

namespace OrderDispatch

/-- The directory answers the search for so many providers for an order with these candidates:
those within five kilometres of the pick-up if they are enough, or else all within ten. -/
inductive Directory.Answers (d : Directory) (o : Order) (count : Nat) : List Candidate → Prop where
  | close (found : List Candidate)
      (answer : d.find (Matching.searchFor o 5) = .ok found)
      (enough : count ≤ found.length) : Answers d o count found
  | wide (few found : List Candidate)
      (answer : d.find (Matching.searchFor o 5) = .ok few)
      (scarce : few.length < count)
      (widened : d.find (Matching.searchFor o 10) = .ok found) :
      Answers d o count found

namespace Matching

theorem best_eq_ok_iff (d : Directory) (o : Order) (count : Nat) (ranked : List Scored) :
    (best d o count).2 = .ok ranked ↔ ∃ cs, d.Answers o count cs ∧ ranked = rank cs count := by
  constructor
  · intro h
    unfold best at h
    simp only at h
    split at h
    · cases h
    · next few hfew =>
      split at h
      · next hscarce =>
        split at h
        · cases h
        · next cs hcs =>
          cases h
          exact ⟨cs, .wide few cs hfew hscarce hcs, rfl⟩
      · next henough =>
        cases h
        exact ⟨few, .close few hfew (Nat.le_of_not_lt henough), rfl⟩
  · rintro ⟨cs, h, rfl⟩
    unfold best initialRadiusKm widenedRadiusKm
    cases h with
    | close _ answer enough => simp only [answer, if_neg (Nat.not_lt.2 enough)]
    | wide few _ answer scarce widened => simp only [answer, if_pos scarce, widened]

theorem rank_singleton (c : Candidate) (count : Nat) : rank [c] (count + 1) = [scored c] := by
  unfold rank
  rw [List.map_singleton, List.mergeSort_singleton, List.take_succ_cons, List.take_nil]

/-- The first of the best candidates for an order that is not this provider. -/
def NextBest (d : Directory) (o : Order) (count : Nat) (without next : String) : Prop :=
  ∃ cs ahead behind best, d.Answers o count cs ∧ rank cs count = ahead ++ best :: behind ∧
    (∀ s ∈ ahead, s.candidate.providerId = without) ∧ best.candidate.providerId = next ∧
    next ≠ without

/-- There is a next best candidate as soon as any of the best is not that provider. -/
theorem exists_nextBest_iff (d : Directory) (o : Order) (count : Nat) (without : String) :
    (∃ next, NextBest d o count without next) ↔
      ∃ cs, d.Answers o count cs ∧
        ∃ s ∈ rank cs count, s.candidate.providerId ≠ without := by
  constructor
  · rintro ⟨_, cs, ahead, behind, best, hcs, hrank, -, rfl, hne⟩
    exact ⟨cs, hcs, best, by simp [hrank], hne⟩
  · rintro ⟨cs, hcs, s, hs, hne⟩
    cases hfind : (rank cs count).find? (·.candidate.providerId != without) with
    | none =>
      have hnone := List.find?_eq_none.1 hfind s hs
      simp [hne] at hnone
    | some best =>
      obtain ⟨hbest, ahead, behind, hrank, hahead⟩ := List.find?_eq_some_iff_append.1 hfind
      exact ⟨_, cs, ahead, behind, best, hcs, hrank, by simpa using hahead, rfl, by simpa using hbest⟩

/-- What is left of the best without this provider begins with the next best. -/
theorem nextBest_of_filter (d : Directory) (o : Order) (count : Nat) (without : String)
    (ranked : List Scored) (best : Scored) (others : List Scored)
    (hranked : (Matching.best d o count).2 = .ok ranked)
    (h : ranked.filter (·.candidate.providerId != without) = best :: others) :
    NextBest d o count without best.candidate.providerId := by
  obtain ⟨cs, hcs, rfl⟩ := (best_eq_ok_iff d o count ranked).1 hranked
  obtain ⟨ahead, behind, hrank, hahead, hbest, -⟩ := List.filter_eq_cons_iff.1 h
  exact ⟨cs, ahead, behind, best, hcs, hrank, by simpa using hahead, rfl, by simpa using hbest⟩

theorem NextBest.ne {d : Directory} {o : Order} {count : Nat} {without next : String}
    (h : NextBest d o count without next) : next ≠ without := by
  obtain ⟨_, _, _, _, -, -, -, -, hne⟩ := h
  exact hne

/-- There is no more than one next best candidate. -/
theorem nextBest_unique (d : Directory) (o : Order) (count : Nat)
    (without next other : String) (h : NextBest d o count without next)
    (h' : NextBest d o count without other) : next = other := by
  have hfind : ∀ p, NextBest d o count without p → ∃ ranked s,
      (Matching.best d o count).2 = .ok ranked ∧
      ranked.find? (·.candidate.providerId != without) = some s ∧ s.candidate.providerId = p := by
    rintro p ⟨cs, ahead, behind, s, hcs, hrank, hahead, rfl, hne⟩
    refine ⟨_, s, (best_eq_ok_iff d o count _).2 ⟨cs, hcs, rfl⟩, ?_, rfl⟩
    rw [List.find?_eq_some_iff_append]
    exact ⟨by simpa using hne, ahead, behind, hrank, by simpa using hahead⟩
  obtain ⟨ranked, s, hranked, hs, rfl⟩ := hfind next h
  obtain ⟨ranked', s', hranked', hs', rfl⟩ := hfind other h'
  cases hranked.symm.trans hranked'
  cases hs.symm.trans hs'
  rfl

/-! ## The ranking -/

/-- All candidates, best first. -/
def ranking (cs : List Candidate) : List Scored :=
  (cs.map scored).mergeSort fun a b => Binary64.orderKey b.score ≤ Binary64.orderKey a.score

/-- The best are the front of the ranking. -/
theorem rank_eq_take (cs : List Candidate) (count : Nat) : rank cs count = (ranking cs).take count :=
  rfl

theorem mem_ranking (cs : List Candidate) (s : Scored) : s ∈ ranking cs ↔ ∃ c ∈ cs, s = scored c := by
  unfold ranking
  rw [List.mem_mergeSort, List.mem_map]
  simp only [eq_comm]

/-- Entries of a class that is in order already keep their order in sorting. -/
theorem filter_mergeSort {α : Type} (le : α → α → Bool) (trans : ∀ a b c, le a b → le b c → le a c)
    (total : ∀ a b, le a b || le b a) (p : α → Bool) (l : List α)
    (h : (l.filter p).Pairwise fun a b => le a b = true) :
    (l.mergeSort le).filter p = l.filter p := by
  have hsub := (List.sublist_mergeSort trans total h List.filter_sublist).filter p
  simp only [List.filter_filter, Bool.and_self] at hsub
  exact (hsub.eq_of_length ((List.mergeSort_perm l le).filter p).length_eq.symm).symm

/-- What is sorted by falling keys has the higher key first, and equal keys as they were. -/
theorem pairwise_mergeSort_key {α : Type} (key : α → Int) (near : α → α → Prop) (l : List α)
    (h : l.Pairwise near) :
    (l.mergeSort fun a b => key b ≤ key a).Pairwise fun a b =>
      key b < key a ∨ key a = key b ∧ near a b := by
  have htrans : ∀ a b c : α, decide (key b ≤ key a) = true → decide (key c ≤ key b) = true →
      decide (key c ≤ key a) = true := by
    simp only [decide_eq_true_eq]
    omega
  have htotal : ∀ a b : α, (decide (key b ≤ key a) || decide (key a ≤ key b)) = true := by
    simp only [Bool.or_eq_true, decide_eq_true_eq]
    omega
  have hkeys := List.pairwise_mergeSort htrans htotal l
  refine List.pairwise_iff_forall_sublist.2 fun {a b} hab => ?_
  have hle := List.pairwise_iff_forall_sublist.1 hkeys hab
  simp only [decide_eq_true_eq] at hle
  rcases Int.lt_or_eq_of_le hle with hlt | heq
  · exact .inl hlt
  · -- Both are in the class of their key, which the sorting leaves as it was.
    let sameKey : α → Bool := fun x => key x = key a
    have hclass : (l.mergeSort fun a b => key b ≤ key a).filter sameKey = l.filter sameKey := by
      apply filter_mergeSort _ htrans htotal
      refine List.pairwise_iff_forall_sublist.2 fun {x y} hxy => ?_
      have hx := List.mem_filter.1 (hxy.subset List.mem_cons_self)
      have hy := List.mem_filter.1 (hxy.subset (List.mem_cons_of_mem _ List.mem_cons_self))
      simp only [sameKey, decide_eq_true_eq] at hx hy ⊢
      omega
    have hsub := hab.filter sameKey
    have hkept : [a, b].filter sameKey = [a, b] := by simp [sameKey, heq]
    rw [hkept, hclass] at hsub
    exact .inr ⟨heq.symm, List.pairwise_iff_forall_sublist.1 h (hsub.trans List.filter_sublist)⟩

/-- One scored candidate goes before another: for its higher score, or with an equal score for
being near before the other. -/
def Ahead (near : Candidate → Candidate → Prop) (a b : Scored) : Prop :=
  Binary64.orderKey b.score < Binary64.orderKey a.score ∨
    (Binary64.orderKey a.score = Binary64.orderKey b.score ∧ near a.candidate b.candidate)

theorem pairwise_ranking (near : Candidate → Candidate → Prop) (cs : List Candidate)
    (h : cs.Pairwise near) : (ranking cs).Pairwise (Ahead near) := by
  have hnear : (cs.map scored).Pairwise fun a b => near a.candidate b.candidate :=
    List.pairwise_map.2 h
  exact pairwise_mergeSort_key (fun s => Binary64.orderKey s.score) _ (cs.map scored) hnear

/-- The first of the best that is not left out goes before all others that are not. -/
theorem ahead_of_rank (near : Candidate → Candidate → Prop) (cs : List Candidate) (count : Nat)
    (hcs : cs.Pairwise near) (leftOut : String → Prop) (front behind : List Scored) (best : Scored)
    (hrank : rank cs count = front ++ best :: behind)
    (hfront : ∀ s ∈ front, leftOut s.candidate.providerId) (c : Candidate) (hc : c ∈ cs)
    (hother : ¬ leftOut c.providerId) : scored c = best ∨ Ahead near best (scored c) := by
  have hall : ranking cs = front ++ best :: (behind ++ (ranking cs).drop count) := by
    calc ranking cs = rank cs count ++ (ranking cs).drop count := (List.take_append_drop _ _).symm
      _ = front ++ best :: (behind ++ (ranking cs).drop count) := by rw [hrank]; simp
  have hmem : scored c ∈ ranking cs := (mem_ranking cs _).2 ⟨c, hc, rfl⟩
  have hpairs := pairwise_ranking near cs hcs
  rw [hall] at hmem hpairs
  rcases List.mem_append.1 hmem with hmem | hmem
  · exact absurd (hfront _ hmem) hother
  · rcases List.mem_cons.1 hmem with hmem | hmem
    · exact .inl hmem
    · exact .inr ((List.pairwise_cons.1 (List.pairwise_append.1 hpairs).2.1).1 _ hmem)

theorem nodup_ranking (cs : List Candidate) (hcs : (cs.map (·.providerId)).Nodup) :
    ((ranking cs).map (·.candidate.providerId)).Nodup := by
  have hperm := (List.mergeSort_perm (cs.map scored) fun a b =>
    decide (Binary64.orderKey b.score ≤ Binary64.orderKey a.score)).map (·.candidate.providerId)
  rw [List.map_map] at hperm
  exact hperm.nodup_iff.2 hcs

/-- The best two or more hold somebody who is not left out, if there is anybody and no two
providers are left out. -/
theorem exists_kept_rank (cs : List Candidate) (count : Nat) (hcount : 2 ≤ count)
    (hcs : (cs.map (·.providerId)).Nodup) (leftOut : String → Prop)
    (hone : ∀ i j, leftOut i → leftOut j → i = j) (c : Candidate) (hc : c ∈ cs)
    (hkept : ¬ leftOut c.providerId) :
    ∃ s ∈ rank cs count, ¬ leftOut s.candidate.providerId := by
  have hmem : scored c ∈ ranking cs := (mem_ranking cs _).2 ⟨c, hc, rfl⟩
  have hids := nodup_ranking cs hcs
  rw [rank_eq_take]
  obtain ⟨n, rfl⟩ : ∃ n, count = n + 2 := ⟨count - 2, by omega⟩
  match hranking : ranking cs with
  | [] =>
    rw [hranking] at hmem
    cases hmem
  | [a] =>
    rw [hranking, List.mem_singleton] at hmem
    exact ⟨a, by simp, hmem ▸ hkept⟩
  | a :: b :: rest =>
    rw [hranking] at hids
    by_cases ha : leftOut a.candidate.providerId
    · refine ⟨b, by simp, fun hb => ?_⟩
      exact (List.nodup_cons.1 hids).1 (by simp [hone _ _ ha hb])
    · exact ⟨a, by simp, ha⟩

/-! ## The radii -/

section Radii

open Float.Model

/-- What is at most a positive number is at most twice that number. -/
theorem le_double (u : UnpackedFloat) (m : Nat) (e : Int) (hm : 0 < m)
    (h : u.le (.finite .positive m e hm) = true) :
    u.le (.finite .positive m (e + 1) hm) = true := by
  cases u with
  | notANumber => cases h
  | infinity s =>
    cases s with
    | positive => cases h
    | negative => rfl
  | zero s => rfl
  | finite s m' e' hm' =>
    cases s with
    | negative => rfl
    | positive =>
      have hle : e' ≤ e := by
        refine Int.not_lt.1 fun hlt => ?_
        have hgt : compare e' e = .gt := Int.compare_eq_gt.2 hlt
        simp [UnpackedFloat.le, UnpackedFloat.compare, hgt] at h
      have hlt : compare e' (e + 1) = .lt := Int.compare_eq_lt.2 (by omega)
      simp [UnpackedFloat.le, UnpackedFloat.compare, hlt]

/-- The wider circle holds the close one. -/
theorem le_ten (x : Float) (h : x ≤ 5) : x ≤ 10 := by
  have hclose : ∃ hm, (5 : Float).toModel.unpack =
      .finite .positive 5629499534213120 (-50) hm := ⟨by decide, rfl⟩
  have hwide : ∃ hm, (10 : Float).toModel.unpack =
      .finite .positive 5629499534213120 (-49) hm := ⟨by decide, rfl⟩
  obtain ⟨hm, hclose⟩ := hclose
  obtain ⟨_, hwide⟩ := hwide
  rw [Binary64.le_iff_unpack, hclose] at h
  rw [Binary64.le_iff_unpack, hwide]
  exact le_double _ _ _ hm h

end Radii

end Matching

end OrderDispatch
