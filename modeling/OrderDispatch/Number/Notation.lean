import OrderDispatch.Number.Shortest

/-!
# Written forms of a double

Two written forms share the shortest digits. The *plain* form is positional, of any length, without
a fraction on whole numbers. The *data* form always shows that the number is a real one: it has a
point or an exponent, and turns to an exponent for very large and very small magnitudes.
`read?` reads the common notation of reals, with or without point and exponent.
-/

namespace OrderDispatch.Binary64

/-! ## Positional digits -/

/-- The digits before and after the point of `0.digits * 10 ^ point`, one zero standing in for an
empty whole part. -/
def positional (digits : List Char) (point : Int) : List Char × List Char :=
  if point ≤ 0 then (['0'], List.replicate (-point).toNat '0' ++ digits)
  else
    let whole := point.toNat
    (digits.take whole ++ List.replicate (whole - digits.length) '0', digits.drop whole)

/-- The shortest digits of a finite double and the place of the point before them; zero has the
digit 0 and the point behind it. -/
def shortestDigits (rule : Halfway) (x : Float) : List Char × Int :=
  if mantissa x = 0 then (['0'], 1)
  else
    let (digits, exponent) := shortest rule x
    let text := Nat.toDigits 10 digits
    (text, text.length + exponent)

/-- A minus sign for a negative double. -/
def signText (x : Float) : List Char := if isNegative x then ['-'] else []

/-! ## Plain form -/

/-- The plain form, with names for the doubles that are no numbers. Halfway digits go away from
zero. -/
def plainText (x : Float) : String :=
  if x.isNaN then "NaN"
  else if !isFinite x then if isNegative x then "-inf" else "inf"
  else
    let (digits, point) := shortestDigits .away x
    let (whole, rest) := positional digits point
    String.ofList (signText x ++ whole ++ if rest.isEmpty then [] else '.' :: rest)

/-! ## Data form -/

/-- The decimal digits of an integer. -/
def intChars (n : Int) : List Char :=
  if n < 0 then '-' :: Nat.toDigits 10 n.natAbs else Nat.toDigits 10 n.natAbs

/-- The data form of a finite double: positional while the point is at most 16 places to the right
and at most four zeros follow it, otherwise one digit, the rest of them, and a power of ten. Halfway
digits go to the even neighbour. -/
def dataChars (x : Float) : List Char :=
  let (digits, point) := shortestDigits .toEven x
  signText x ++
    if -5 < point ∧ point ≤ 16 then
      let (whole, rest) := positional digits point
      whole ++ '.' :: if rest.isEmpty then ['0'] else rest
    else
      let power := point - 1
      digits.take 1 ++ (if digits.length ≤ 1 then [] else '.' :: digits.drop 1) ++
        'e' :: (if power < 0 then [] else ['+']) ++ intChars power

/-! ## Reading -/

/-- The leading digits of a text and what follows them. -/
def spanDigits (cs : List Char) : List Char × List Char :=
  (cs.takeWhile Char.isDigit, cs.dropWhile Char.isDigit)

/-- An exponent mark with its sign and digits: the exponent and the rest, `none` where the mark has
no digits behind it. Without a mark the exponent is zero. -/
def exponent? (cs : List Char) : Option (Int × List Char) :=
  match cs with
  | c :: cs =>
    if c = 'e' ∨ c = 'E' then
      let (negative, cs) := match cs with
        | '-' :: cs => (true, cs)
        | '+' :: cs => (false, cs)
        | cs => (false, cs)
      let (digits, rest) := spanDigits cs
      let value : Int := Nat.ofDigitChars 10 digits 0
      if digits.isEmpty then none else some (if negative then -value else value, rest)
    else some (0, c :: cs)
  | [] => some (0, [])

/-- An unsigned decimal number that takes up a whole text; digits may be missing on one side of the
point. -/
def unsigned? (negative : Bool) (cs : List Char) : Option Float :=
  let (whole, cs) := spanDigits cs
  let (part, cs) := match cs with
    | '.' :: cs => spanDigits cs
    | cs => ([], cs)
  if whole.isEmpty && part.isEmpty then none
  else
    match exponent? cs with
    | some (power, []) =>
      some (ofDecimal negative (Nat.ofDigitChars 10 (whole ++ part) 0) (power - part.length))
    | _ => none

/-- The double that a text denotes: an optional sign, then a decimal number or, in any case, one of
the names of infinity and NaN. -/
def read? (text : String) : Option Float :=
  let (negative, cs) := match text.toList with
    | '-' :: cs => (true, cs)
    | '+' :: cs => (false, cs)
    | cs => (false, cs)
  let name := String.ofList (cs.map Char.toLower)
  if name = "inf" ∨ name = "infinity" then some (infinity negative)
  else if name = "nan" then some (0 / 0)
  else unsigned? negative cs

end OrderDispatch.Binary64
