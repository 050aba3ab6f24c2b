import OrderDispatch.Directory.Basic

/-!
# Matching

The ranking of candidates by nearness and rating, and the search for the best providers for an
order: first close to the pick-up, and again in a wider circle when that finds too few.
-/

namespace OrderDispatch

namespace Candidate

/-- The score of a candidate: seven parts nearness, which ends at ten kilometres, and three parts
rating, which goes up to five. -/
def score (c : Candidate) : Float :=
  let proximity := Binary64.clamp (1 - Binary64.minimum (c.distance / 10) 1) 0 1
  let rating := Binary64.clamp (c.rating / 5) 0 1
  0.7 * proximity + 0.3 * rating

end Candidate

/-- A candidate with its score. -/
structure Scored where
  candidate : Candidate
  score : Float
deriving DecidableEq

namespace Matching

/-- A candidate with its score. -/
def scored (c : Candidate) : Scored := ⟨c, c.score⟩

/-- The best `count` candidates, best first; equal scores keep their order. -/
def rank (candidates : List Candidate) (count : Nat) : List Scored :=
  ((candidates.map scored).mergeSort fun a b =>
    Binary64.orderKey b.score ≤ Binary64.orderKey a.score).take count

/-- The radius of the first search. -/
def initialRadiusKm : Float := 5

/-- The radius of the second search. -/
def widenedRadiusKm : Float := 10

/-- The search for providers for an order. -/
def searchFor (o : Order) (radiusKm : Float) : Search :=
  ⟨o.pickup.coordinates, radiusKm, o.kind.serviceType⟩

/-- The best `count` providers for an order, together with the searches made. -/
def best (d : Directory) (o : Order) (count : Nat) :
    List Search × Except DirectoryError (List Scored) :=
  let close := searchFor o initialRadiusKm
  match d.find close with
  | .error e => ([close], .error e)
  | .ok candidates =>
    if candidates.length < count then
      let wide := searchFor o widenedRadiusKm
      match d.find wide with
      | .error e => ([close, wide], .error e)
      | .ok candidates => ([close, wide], .ok (rank candidates count))
    else ([close], .ok (rank candidates count))

end Matching

end OrderDispatch
