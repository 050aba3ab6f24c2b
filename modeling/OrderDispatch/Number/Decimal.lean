import OrderDispatch.Number.Binary64

/-!
# Decimal numbers of 96 bits

A decimal is a sign, a mantissa below `2 ^ 96` and a scale of at most 28 places. Products and sums
are exact where they fit, and are otherwise cut to the most places that fit, a half going to the
even neighbour; a whole part that does not fit overflows. `ofFloat` reads a double through an
integer significand and a power of ten, and `toFloat` goes back.
-/

namespace OrderDispatch

/-- The decimal number `± mantissa / 10 ^ scale`. -/
structure Decimal where
  isNegative : Bool
  mantissa : Nat
  scale : Nat
deriving DecidableEq, Repr, Inhabited

/-- The operation whose result has no room in a decimal. -/
inductive Overflow where
  | multiplication
  | addition
deriving DecidableEq, Repr

/-- The text of an overflow. -/
def Overflow.message : Overflow → String
  | .multiplication => "Multiplication overflowed"
  | .addition => "Addition overflowed"

namespace Decimal

-- The powers are those of the core library, whatever else is imported.
attribute [local instance (high)] instPowNat instNatPowNat Int.instNatPow

/-- The count of the bits of a mantissa. -/
def mantissaBits : Nat := 96

/-- The bound of all mantissas. -/
def limit : Nat := 2 ^ mantissaBits

/-- The greatest scale. -/
def maxScale : Nat := 28

/-- The decimal zero. -/
def zero : Decimal := ⟨false, 0, 0⟩

/-! ## From a double

The double is `mantissa * 2 ^ e * 10 ^ p` with `p = 0`, and every step trades factors of two for
factors of ten until `e = 0`. -/

/-- Removes `count` factors `2 ^ -1`: an even mantissa is halved, an odd one is multiplied by five
and takes a power of ten, or loses its last bit where that does not fit. -/
def shiftDown : (count : Nat) → (mantissa : Nat) → (power : Int) → Nat × Int
  | 0, m, p => (m, p)
  | count + 1, m, p =>
    if m % 2 = 0 then shiftDown count (m / 2) (p + 1)
    else if 5 * m < limit then shiftDown count (5 * m) p
    else shiftDown count (m / 2) (p + 1)

/-- Removes `count` factors `2`: the mantissa is doubled while it has room, and divided by five
afterwards. -/
def shiftUp : (count : Nat) → (mantissa : Nat) → (power : Int) → Option (Nat × Int)
  | 0, m, p => some (m, p)
  | count + 1, m, p =>
    if 2 * m < limit then shiftUp count (2 * m) (p - 1)
    else if (count : Int) + 1 < 2 * p then none
    else shiftUp count (m / 5) p

/-- Removes `count` factors of ten. -/
def expand : (count : Nat) → (mantissa : Nat) → Option Nat
  | 0, m => some m
  | count + 1, m => if 10 * m < limit then expand count (10 * m) else none

/-- The mantissa without its last digit, rounded up from five on. -/
def dropDigit (m : Nat) : Nat := if 5 ≤ m % 10 then m / 10 + 1 else m / 10

/-- Drops `count` digits to reach the greatest scale; a mantissa that vanishes on the way is
zero. -/
def fitScale : (count : Nat) → (mantissa : Nat) → Nat × Nat
  | 0, m => (m, maxScale)
  | count + 1, m => if m / 10 = 0 then (0, 0) else fitScale count (dropDigit m)

/-- Drops digits while there are places and the mantissa needs more bits than a fraction has. -/
def dropExcess : (scale : Nat) → (mantissa : Nat) → Nat × Nat
  | 0, m => (m, 0)
  | scale + 1, m =>
    if Binary64.hiddenBit ≤ m then dropExcess scale (dropDigit m) else (m, scale + 1)

/-- Drops the zeros at the end of the places. -/
def dropZeros : (scale : Nat) → (mantissa : Nat) → Nat × Nat
  | 0, m => (m, 0)
  | scale + 1, m => if m % 10 = 0 then dropZeros scale (m / 10) else (m, scale + 1)

/-- The mantissa and the scale of `m * 10 ^ p`, in the digits that a double can hold. -/
def settle? (m : Nat) (p : Int) : Option (Nat × Nat) :=
  if 0 < p then (expand p.toNat m).map (·, 0)
  else
    let places := (-p).toNat
    let (m, places) := if maxScale < places then fitScale (places - maxScale) m else (m, places)
    let (m, places) := dropExcess places m
    some (dropZeros places m)

/-- The decimal for a double, if it is finite and has room. -/
def ofFloat? (x : Float) : Option Decimal :=
  if !Binary64.isFinite x then none
  else
    let m := Binary64.mantissa x
    let e := Binary64.exponent x
    if m = 0 then some ⟨Binary64.isNegative x, 0, 0⟩
    else
      let scaled? := if e < 0 then some (shiftDown (-e).toNat m e) else shiftUp e.toNat m e
      (scaled?.bind fun (m, p) => settle? m p).map fun (m, scale) =>
        ⟨Binary64.isNegative x, m, scale⟩

/-- The decimal for a double, zero where there is none. -/
def ofFloat (x : Float) : Decimal := (ofFloat? x).getD zero

/-! ## Arithmetic -/

/-- Divides a mantissa by `10 ^ k` for the least `k` from `dropped` on with which it and its scale
fit, looking at no more than `fuel` further `k`; `none` where `k` would exceed the scale. -/
def reduceFrom (mantissa scale : Nat) : (fuel dropped : Nat) → Option (Nat × Nat)
  | 0, _ => none
  | fuel + 1, dropped =>
    let m := roundHalfEven mantissa (10 ^ dropped)
    if m < limit ∧ scale - dropped ≤ maxScale then some (m, scale - dropped)
    else reduceFrom mantissa scale fuel (dropped + 1)

/-- The nearest decimal with the most places that fit. -/
def reduce (mantissa scale : Nat) : Option (Nat × Nat) :=
  reduceFrom mantissa scale (scale + 1) 0

/-- The product; it is the plain zero as soon as one factor is zero, and no product is a negative
zero. -/
def mul (a b : Decimal) : Except Overflow Decimal :=
  if a.mantissa = 0 ∨ b.mantissa = 0 then .ok zero
  else
    match reduce (a.mantissa * b.mantissa) (a.scale + b.scale) with
    | some (m, scale) => .ok ⟨m != 0 && a.isNegative != b.isNegative, m, scale⟩
    | none => .error .multiplication

/-- The mantissa with its sign. -/
def signed (a : Decimal) : Int := if a.isNegative then -a.mantissa else a.mantissa

/-- The sum; a zero operand gives the other one unchanged. -/
def add (a b : Decimal) : Except Overflow Decimal :=
  if a.mantissa = 0 then .ok b
  else if b.mantissa = 0 then .ok a
  else
    let scale := max a.scale b.scale
    let total := a.signed * 10 ^ (scale - a.scale) + b.signed * 10 ^ (scale - b.scale)
    match reduce total.natAbs scale with
    | some (m, scale) => .ok ⟨total < 0, m, scale⟩
    | none => .error .addition

/-- The sum of a list, added up from zero. -/
def sum (ds : List Decimal) : Except Overflow Decimal := ds.foldlM add zero

/-! ## To a double -/

/-- `base ^ n` by repeated squaring in doubles, times `acc`. -/
def powFloat (acc base : Float) (n : Nat) : Float :=
  let acc := if n % 2 = 1 then acc * base else acc
  if h : n / 2 = 0 then acc else powFloat acc (base * base) (n / 2)
termination_by n
decreasing_by omega

/-- The magnitude as a double: the whole part and the places are converted apart, and their sum is
rounded to the scale. -/
def magnitudeFloat (a : Decimal) : Float :=
  let whole := Binary64.ofNat (a.mantissa / 10 ^ a.scale)
  let part := Binary64.ofNat (a.mantissa % 10 ^ a.scale) / Binary64.ofNat (10 ^ a.scale)
  if part == 0 then whole
  else
    let shift := powFloat 1 10 a.scale
    Binary64.roundAway ((whole + part) * shift) / shift

/-- The double for a decimal. Without places it is the nearest one, and zero has no sign. -/
def toFloat (a : Decimal) : Float :=
  if a.scale = 0 then Binary64.ofRatio (a.isNegative && a.mantissa != 0) a.mantissa 1
  else if a.isNegative then -a.magnitudeFloat
  else a.magnitudeFloat

/-! ## Text -/

/-- The plain text with all places, a minus sign also before a negative zero. -/
def text (a : Decimal) : String :=
  let digits := Nat.toDigits 10 a.mantissa
  let padded := List.replicate (a.scale + 1 - digits.length) '0' ++ digits
  let whole := padded.take (padded.length - a.scale)
  let part := padded.drop (padded.length - a.scale)
  String.ofList ((if a.isNegative then ['-'] else []) ++ whole ++
    if part.isEmpty then [] else '.' :: part)

end Decimal

end OrderDispatch
