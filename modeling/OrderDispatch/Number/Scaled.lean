import OrderDispatch.Number.Binary64

/-!
# Scaled digits

A quick reading of a decimal number that leaves the exact product of its digits and its power of ten
alone. The leading digits are collected in a word of 64 bits while they have room, the word is
rounded to a double, and the double is multiplied or divided by a double power of ten.

Every one of these steps rounds. The result is the nearest double while the word is below `2 ^ 53`
and the power is one of the first 22, and may miss it in the last places otherwise.
-/

namespace OrderDispatch.Binary64

-- The powers are those of the core library, whatever else is imported.
attribute [local instance (high)] instPowNat instNatPowNat

/-! ## Collecting digits -/

/-- The word that takes up digits behind those it has, up to the first one for which it has no room,
and the digits from there on. -/
def collect : (word : Nat) → List Char → Nat × List Char
  | word, [] => (word, [])
  | word, c :: cs =>
    let longer := Nat.ofDigitChars 10 [c] word
    if longer < UInt64.size then collect longer cs else (word, c :: cs)

/-- The word and the power of ten for the digits before and after a point. A digit left out before
the point raises the power; digits after it are collected anew, whatever was left out before it. -/
def collectBoth (whole part : List Char) : Nat × Int :=
  let (word, missed) := collect 0 whole
  let (word, ignored) := collect word part
  (word, missed.length + ignored.length - part.length)

/-! ## Scaling -/

/-- The greatest power of ten below all infinities. -/
def maxTenPower : Nat := 308

/-- The double nearest to a power of ten. -/
def tenPower (n : Nat) : Float := ofNat (10 ^ n)

/-- A finite double times a power of ten, if that is finite. -/
def scaleUp? (x : Float) (n : Nat) : Option Float :=
  if n ≤ maxTenPower then
    let y := x * tenPower n
    if isFinite y then some y else none
  else if x == 0 then some x
  else none

/-- A double divided by a power of ten. The power is split when it is no double; the double of a
word is zero behind two divisions by the greatest power. -/
def scaleDown (x : Float) (n : Nat) : Float :=
  if n ≤ maxTenPower then x / tenPower n
  else x / tenPower maxTenPower / tenPower (min (n - maxTenPower) maxTenPower)

/-- The double for a word times a power of ten, if it is finite. -/
def scaled? (word : Nat) (power : Int) : Option Float :=
  if 0 ≤ power then scaleUp? (ofNat word) power.toNat
  else some (scaleDown (ofNat word) (-power).toNat)

/-- The double for the digits before and after a point and a power of ten, with this sign, if it is
finite. -/
def ofDigits? (negative : Bool) (whole part : List Char) (power : Int) : Option Float :=
  let (word, shift) := collectBoth whole part
  (scaled? word (shift + power)).map fun x => if negative then -x else x

end OrderDispatch.Binary64
