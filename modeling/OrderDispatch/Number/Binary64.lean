import OrderDispatch.Number.Rounding

/-!
# Doubles: their parts, and the double nearest to an exact number

A finite double is `(-1)^sign * mantissa * 2^exponent` for naturals `mantissa < 2^53` read off its
bits. `ofRatio` and `ofDecimal` go the other way: they give the double nearest to an exact quotient
or decimal number, ties to the even mantissa, computed over the naturals.
-/

namespace OrderDispatch.Binary64

-- The powers are those of the core library, whatever else is imported.
attribute [local instance (high)] instPowNat instNatPowNat

/-! ## Layout of the bits -/

/-- The count of the trailing bits, which hold the fraction. -/
def fractionBits : Nat := 52

/-- The count of the bits before them, which hold the exponent. -/
def exponentBits : Nat := 11

/-- The weight of the bit that a normal significand has before its fraction. -/
def hiddenBit : Nat := 2 ^ fractionBits

/-- The weight of the sign among all bits. -/
def signBit : Nat := 2 ^ (fractionBits + exponentBits)

/-! ## Parts -/

/-- The trailing bits. -/
def fraction (x : Float) : Nat := x.toBits.toNat % hiddenBit

/-- The exponent bits. -/
def biasedExponent (x : Float) : Nat := x.toBits.toNat / hiddenBit % 2 ^ exponentBits

/-- The sign bit. -/
def isNegative (x : Float) : Bool := x.toBits.toNat / signBit == 1

/-- Neither an infinity nor a NaN. -/
def isFinite (x : Float) : Bool := biasedExponent x != 2047

/-- The integer significand of a finite double, with the hidden bit of a normal one. -/
def mantissa (x : Float) : Nat :=
  if biasedExponent x = 0 then fraction x else hiddenBit + fraction x

/-- The power of two that the significand of a finite double is scaled by. -/
def exponent (x : Float) : Int := (max (biasedExponent x) 1 : Nat) - 1075

/-- The magnitude of a finite double as a quotient of two naturals. -/
def magnitude (x : Float) : Nat × Nat :=
  (mantissa x * 2 ^ (exponent x).toNat, 2 ^ (-exponent x).toNat)

/-- The place of a double in the total order of all doubles, NaN above the infinities. -/
def orderKey (x : Float) : Int :=
  let rank : Int := (x.toBits.toNat % signBit : Nat)
  if isNegative x then -rank - 1 else rank

/-! ## Assembling -/

/-- The bits of positive infinity, which bound those of every finite magnitude. -/
def infinityBits : Nat := 2047 * hiddenBit

/-- The double with this sign and these 63 lower bits. -/
def ofParts (negative : Bool) (bits : Nat) : Float :=
  Float.ofBits (UInt64.ofNat (bits + if negative then signBit else 0))

/-- The infinity of this sign. -/
def infinity (negative : Bool) : Float := ofParts negative infinityBits

/-- Whether `2 ^ k ≤ num / den`. -/
def atLeastTwoPow (num den : Nat) (k : Int) : Bool :=
  den * 2 ^ k.toNat ≤ num * 2 ^ (-k).toNat

/-- The greatest `k` with `2 ^ k ≤ num / den`, both positive. -/
def floorLog2 (num den : Nat) : Int :=
  let guess : Int := (Nat.log2 num : Int) - Nat.log2 den
  if atLeastTwoPow num den guess then guess else guess - 1

/-- The bits of the double nearest to the positive quotient `num / den`: the unit is chosen so that
the rounded significand has 53 bits, or is subnormal, and a significand that rounds up to the next
power of two carries into the exponent. -/
def nearestBits (num den : Nat) : Nat :=
  let unit := max (floorLog2 num den - 52) (-1074)
  let significand := roundHalfEven (num * 2 ^ (-unit).toNat) (den * 2 ^ unit.toNat)
  min ((unit + 1074).toNat * hiddenBit + significand) infinityBits

/-- The double nearest to `num / den`, with this sign. -/
def ofRatio (negative : Bool) (num den : Nat) : Float :=
  ofParts negative (if num = 0 then 0 else nearestBits num den)

/-- The double nearest to a natural. -/
def ofNat (n : Nat) : Float := ofRatio false n 1

/-- The double nearest to an integer. -/
def ofInt (n : Int) : Float := ofRatio (n < 0) n.natAbs 1

/-- The double nearest to `digits * 10 ^ exponent`, with this sign. As `8 ^ e ≤ 10 ^ e` for
nonnegative `e`, and the reverse below zero, far exponents are settled without the power. -/
def ofDecimal (negative : Bool) (digits : Nat) (exponent : Int) : Float :=
  let reach : Int := Nat.log2 digits + 3 * exponent
  if digits = 0 then ofParts negative 0
  else if 0 ≤ exponent then
    if 1024 ≤ reach then infinity negative else ofRatio negative (digits * 10 ^ exponent.toNat) 1
  else
    if reach ≤ -1076 then ofParts negative 0 else ofRatio negative digits (10 ^ (-exponent).toNat)

/-! ## Arithmetic -/

/-- The same double without its sign. -/
def abs (x : Float) : Float := ofParts false (x.toBits.toNat % signBit)

/-- The nearest integer, a half going away from zero. -/
def roundAway (x : Float) : Float :=
  if !isFinite x || 0 ≤ exponent x then x
  else
    let den := 2 ^ (-exponent x).toNat
    let quotient := mantissa x / den
    ofRatio (isNegative x) (if den ≤ 2 * (mantissa x % den) then quotient + 1 else quotient) 1

/-- The smaller of two numbers; a NaN gives way to the other. -/
def minimum (x y : Float) : Float :=
  if x.isNaN then y else if y.isNaN then x else if y < x then y else x

/-- A number brought into an interval; a NaN stays. -/
def clamp (x low high : Float) : Float :=
  let raised := if x < low then low else x
  if high < raised then high else raised

/-- The length of the hypotenuse, scaled so that no square overflows. It is infinite as soon as one
side is, even beside a NaN. -/
def hypotenuse (x y : Float) : Float :=
  if x.isInf || y.isInf then infinity false
  else if x.isNaN || y.isNaN then x + y
  else
    let long := if abs x < abs y then abs y else abs x
    let short := if abs x < abs y then abs x else abs y
    if long == 0 then long
    else
      let ratio := short / long
      long * Float.sqrt (1 + ratio * ratio)

end OrderDispatch.Binary64
