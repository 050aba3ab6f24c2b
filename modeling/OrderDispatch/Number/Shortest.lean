import OrderDispatch.Number.Binary64

/-!
# Shortest decimals

The decimal number with the fewest digits that is read back as a given double, the nearer one when
two have that few, and the rounding of a double to a fixed count of significant digits. Of two that
are equally near, a rule for halfway numbers picks one.
-/

namespace OrderDispatch.Binary64

-- The powers are those of the core library, whatever else is imported.
attribute [local instance (high)] instPowNat instNatPowNat

/-! ## The decimal grid -/

/-- Whether `10 ^ p ≤ num / den`. -/
def atLeastTenPow (num den : Nat) (p : Int) : Bool :=
  den * 10 ^ p.toNat ≤ num * 10 ^ (-p).toNat

/-- The `p` with `10 ^ (p - 1) ≤ num / den < 10 ^ p`, both positive: the place of the decimal point
before the first digit. -/
def decimalPoint (num den : Nat) : Int :=
  let guess : Int := floorLog2 num den * 30103 / 100000 + 1
  if atLeastTenPow num den guess then guess + 1
  else if atLeastTenPow num den (guess - 1) then guess
  else guess - 1

/-- Where a number goes that lies halfway between its neighbours. -/
inductive Halfway where
  /-- To the neighbour whose last digit is even. -/
  | toEven
  /-- To the neighbour that is farther from zero. -/
  | away
deriving DecidableEq, Repr

/-- Whether a halfway number goes to the upper neighbour, given the lower one. -/
def Halfway.goesUp (rule : Halfway) (below : Nat) : Bool :=
  match rule with
  | toEven => below % 2 == 1
  | away => true

/-- The multiples of `10 ^ grid` on both sides of `num / den`, as counts of grid steps, the nearer
one first. -/
def neighbours (rule : Halfway) (num den : Nat) (grid : Int) : List Nat :=
  let n := num * 10 ^ (-grid).toNat
  let d := den * 10 ^ grid.toNat
  let below := n / d
  let doubled := 2 * (n % d)
  if d < doubled || (doubled == d && rule.goesUp below) then [below + 1, below]
  else [below, below + 1]

/-! ## Fewest digits -/

/-- Whether `digits * 10 ^ exponent` is read back as the magnitude of `x`. -/
def readsBack (x : Float) (digits : Nat) (exponent : Int) : Bool :=
  (ofDecimal false digits exponent).toBits == (abs x).toBits

/-- `digits * 10 ^ exponent`, with the last of more than `count` digits moved to the power of ten.
It is a zero there, as only a power of ten above the grid has a digit more than the grid. -/
def carried (count digits : Nat) (exponent : Int) : Nat × Int :=
  if digits < 10 ^ count then (digits, exponent) else (digits / 10, exponent + 1)

/-- The neighbour of `x` on the grid of `count` significant digits that is read back as `x`, the
nearer one first. -/
def shortestOf? (rule : Halfway) (x : Float) (count : Nat) : Option (Nat × Int) :=
  let (num, den) := magnitude x
  let grid := decimalPoint num den - count
  ((neighbours rule num den grid).find? (readsBack x · grid)).map (carried count · grid)

/-- A finite double written out exactly, as digits and a power of ten. -/
def exactDecimal (x : Float) : Nat × Int :=
  if 0 ≤ exponent x then (mantissa x * 2 ^ (exponent x).toNat, 0)
  else (mantissa x * 5 ^ (-exponent x).toNat, exponent x)

/-- The digits and the power of ten of the shortest decimal that is read back as the magnitude of
the finite nonzero `x`. Seventeen digits always suffice, so that the exact expansion is never
reached. -/
def shortest (rule : Halfway) (x : Float) : Nat × Int :=
  ((List.range 17).findSome? fun n => shortestOf? rule x (n + 1)).getD (exactDecimal x)

/-! ## A fixed count of digits -/

/-- A finite double rounded to `count` significant digits, a half to the even digit. -/
def roundSignificant (count : Nat) (x : Float) : Float :=
  if !isFinite x || mantissa x == 0 then x
  else
    let (num, den) := magnitude x
    let grid := decimalPoint num den - count
    ofDecimal (isNegative x)
      (roundHalfEven (num * 10 ^ (-grid).toNat) (den * 10 ^ grid.toNat)) grid

end OrderDispatch.Binary64
