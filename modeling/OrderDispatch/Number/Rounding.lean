/-!
# Rounding a quotient

The quotient of two naturals as the nearest natural, a half going to the even neighbour.
-/

namespace OrderDispatch

/-- `num / den` rounded to the nearest natural, a half to the even neighbour. -/
def roundHalfEven (num den : Nat) : Nat :=
  let quotient := num / den
  let doubled := 2 * (num % den)
  if den < doubled ∨ (doubled = den ∧ quotient % 2 = 1) then quotient + 1 else quotient

example : roundHalfEven 5 2 = 2 ∧ roundHalfEven 7 2 = 4 ∧ roundHalfEven 8 3 = 3 := by decide

end OrderDispatch
