import OrderDispatch.Number.Notation

/-!
# Whole numbers as text

The decimal notation of whole numbers without sign below a bound. Nothing but digits counts, except
for one plus sign in front.
-/

namespace OrderDispatch

/-- The number below `bound` that a text denotes. -/
def readBelow? (bound : Nat) (text : String) : Option Nat :=
  let digits := match text.toList with
    | '+' :: cs => cs
    | cs => cs
  let n := Nat.ofDigitChars 10 digits 0
  if digits.isEmpty || !digits.all Char.isDigit || bound ≤ n then none else some n

example : readBelow? 256 "+0255" = some 255 ∧ readBelow? 256 "256" = none ∧
    readBelow? 256 "" = none := by
  decide +kernel

end OrderDispatch
