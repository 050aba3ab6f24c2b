import OrderDispatch.Json.Value
import OrderDispatch.Number.Scaled
import OrderDispatch.Table
import OrderDispatch.Text.Bytes

/-!
# Reading JSON text

Readers take a value off the front of a text, from left to right, and stop at the first problem.
Text that is no JSON is *malformed*; a JSON value of the wrong kind is a *misfit*. A value of the
wrong kind is read to its end before it is refused, except that a list or a record is refused at its
opening bracket.

`value` reads any JSON value up to a nesting limit, and `skipValue` passes over one without looking
at the size of its numbers or the pairing of its escapes.
-/

namespace OrderDispatch.Json

/-- Why a text was not read. -/
inductive Problem where
  /-- The text is no JSON. -/
  | malformed
  /-- The text so far is JSON but does not fit what is read. -/
  | misfit
deriving DecidableEq, Repr

/-- Takes something off the front of a text. -/
abbrev Reader (α : Type) : Type := List Char → Except Problem (α × List Char)

/-! ## Blanks and words -/

/-- The four characters that may stand between tokens. -/
def isSpace (c : Char) : Bool := c = ' ' || c = '\n' || c = '\t' || c = '\r'

/-- The text behind the leading blanks. -/
def skipSpace (cs : List Char) : List Char := cs.dropWhile isSpace

/-- The text behind a given word. -/
def word (w : List Char) (cs : List Char) : Except Problem (List Char) :=
  if w.isPrefixOf cs then .ok (cs.drop w.length) else .error .malformed

/-! ## Text -/

/-- The value of four hexadecimal digits. -/
def hexValue4? (a b c d : Char) : Option Nat := do
  return ((← Text.hexValue? a) * 16 + (← Text.hexValue? b)) * 256 +
    ((← Text.hexValue? c) * 16 + (← Text.hexValue? d))

/-- The character that a one-letter escape stands for. -/
def unescape? (c : Char) : Option Char :=
  if c = '"' ∨ c = '\\' ∨ c = '/' then some c
  else if c = 'b' then some '\x08'
  else if c = 'f' then some '\x0c'
  else if c = 'n' then some '\n'
  else if c = 'r' then some '\r'
  else if c = 't' then some '\t'
  else none

/-- Puts a character in front of what a reader found. -/
def push (c : Char) :
    Except Problem (List Char × List Char) → Except Problem (List Char × List Char)
  | .ok (s, rest) => .ok (c :: s, rest)
  | .error p => .error p

/-- The characters up to the closing quote, read behind the opening one. A character beyond U+FFFF
may be escaped as a pair of surrogates, which must not occur otherwise. -/
def textTail : Reader (List Char)
  | [] => .error .malformed
  | '"' :: rest => .ok ([], rest)
  | '\\' :: 'u' :: a :: b :: c :: d :: rest =>
    match hexValue4? a b c d with
    | none => .error .malformed
    | some high =>
      if 0xDC00 ≤ high ∧ high ≤ 0xDFFF then .error .malformed
      else if 0xD800 ≤ high ∧ high ≤ 0xDBFF then
        match rest with
        | '\\' :: 'u' :: a :: b :: c :: d :: rest =>
          match hexValue4? a b c d with
          | none => .error .malformed
          | some low =>
            if 0xDC00 ≤ low ∧ low ≤ 0xDFFF then
              push (Char.ofNat ((high - 0xD800) * 1024 + (low - 0xDC00) + 0x10000)) (textTail rest)
            else .error .malformed
        | _ => .error .malformed
      else push (Char.ofNat high) (textTail rest)
  | '\\' :: c :: rest =>
    match unescape? c with
    | some c => push c (textTail rest)
    | none => .error .malformed
  | c :: rest => if c.toNat < 0x20 then .error .malformed else push c (textTail rest)

/-- The text behind the closing quote; escapes need not name characters. -/
def skipTextTail : List Char → Except Problem (List Char)
  | [] => .error .malformed
  | '"' :: rest => .ok rest
  | '\\' :: 'u' :: a :: b :: c :: d :: rest =>
    if (hexValue4? a b c d).isSome then skipTextTail rest else .error .malformed
  | '\\' :: c :: rest => if (unescape? c).isSome then skipTextTail rest else .error .malformed
  | c :: rest => if c.toNat < 0x20 then .error .malformed else skipTextTail rest

/-- A text, read behind its opening quote. -/
def textBody : Reader String := fun cs =>
  match textTail cs with
  | .ok (s, rest) => .ok (String.ofList s, rest)
  | .error p => .error p

/-! ## Numbers -/

/-- The parts of a number as it is written. -/
structure Literal where
  negative : Bool
  whole : List Char
  part : List Char
  power : Int
  /-- Neither point nor exponent is written. -/
  isWhole : Bool

/-- The fraction behind a point, which needs a digit; without a point it is empty. -/
def fraction : Reader (List Char)
  | '.' :: cs =>
    let (part, rest) := Binary64.spanDigits cs
    if part.isEmpty then .error .malformed else .ok (part, rest)
  | cs => .ok ([], cs)

/-- The parts of a number. The whole part has no leading zero. -/
def literal : Reader Literal := fun cs =>
  let (negative, cs) := match cs with
    | '-' :: cs => (true, cs)
    | cs => (false, cs)
  let (whole, afterWhole) := Binary64.spanDigits cs
  if whole.isEmpty || (whole.head? == some '0' && whole.length != 1) then .error .malformed
  else
    match fraction afterWhole with
    | .error p => .error p
    | .ok (part, afterPart) =>
      match Binary64.exponent? afterPart with
      | none => .error .malformed
      | some (power, rest) =>
        .ok (⟨negative, whole, part, power, rest.length == afterWhole.length⟩, rest)

/-- The value of a number: an integer if it is written as one and fits a word of 64 bits, signed or
not, otherwise the real that its scaled digits give, which must be finite. A negative zero is a
real. -/
def Literal.value (l : Literal) : Except Problem Json :=
  let n := Nat.ofDigitChars 10 l.whole 0
  if l.isWhole ∧ !l.negative ∧ n < UInt64.size then .ok (.int n)
  else if l.isWhole ∧ l.negative ∧ 0 < n ∧ Int64.minValue.toInt ≤ -n then .ok (.int (-n))
  else
    match Binary64.ofDigits? l.negative l.whole l.part l.power with
    | some x => .ok (.real x)
    | none => .error .malformed

/-- A number. -/
def number : Reader Json := fun cs =>
  match literal cs with
  | .error p => .error p
  | .ok (l, rest) =>
    match l.value with
    | .error p => .error p
    | .ok j => .ok (j, rest)

/-- Whether a number begins with this character. -/
def startsNumber (c : Char) : Bool := c = '-' || c.isDigit

/-! ## Items and entries -/

/-- What stands next in a list or a record. -/
inductive Next where
  /-- The closing bracket, and the text behind it. -/
  | close (rest : List Char)
  /-- Another item, and the text from its first character on. -/
  | item (rest : List Char)

/-- What stands next, given whether nothing has been read yet: the closing bracket or an item, which
a comma separates from the one before it. -/
def next (closing : Char) (first : Bool) (cs : List Char) : Except Problem Next :=
  match skipSpace cs with
  | [] => .error .malformed
  | c :: rest =>
    if c = closing then .ok (.close rest)
    else if first then .ok (.item (c :: rest))
    else if c = ',' then
      match skipSpace rest with
      | [] => .error .malformed
      | d :: rest => if d = closing then .error .malformed else .ok (.item (d :: rest))
    else .error .malformed

/-- The items of a list up to its closing bracket. `fuel` bounds their count. -/
def itemsWithin {α : Type} (item : Reader α) : (fuel : Nat) → (first : Bool) → Reader (List α)
  | 0, _, _ => .error .malformed
  | fuel + 1, first, cs => do
    match ← next ']' first cs with
    | .close rest => return ([], rest)
    | .item cs =>
      let (a, cs) ← item cs
      let (as, rest) ← itemsWithin item fuel false cs
      return (a :: as, rest)

/-- The items of a list, read behind its opening bracket. -/
def items {α : Type} (item : Reader α) : Reader (List α) := fun cs =>
  itemsWithin item (cs.length + 1) true cs

/-- The name of a field and the colon behind it. -/
def fieldName : Reader String
  | '"' :: cs => textBody cs
  | _ => .error .malformed

/-- The text behind the colon that follows the name of a field. -/
def colon (cs : List Char) : Except Problem (List Char) :=
  match skipSpace cs with
  | ':' :: rest => .ok rest
  | _ => .error .malformed

/-- The entries of a record whose values are all read alike. `fuel` bounds their count. -/
def entriesWithin {α : Type} (value : Reader α) :
    (fuel : Nat) → (first : Bool) → Reader (List (String × α))
  | 0, _, _ => .error .malformed
  | fuel + 1, first, cs => do
    match ← next '}' first cs with
    | .close rest => return ([], rest)
    | .item cs =>
      let (name, cs) ← fieldName cs
      let (a, cs) ← value (← colon cs)
      let (as, rest) ← entriesWithin value fuel false cs
      return ((name, a) :: as, rest)

/-- The entries of a record, read behind its opening bracket. -/
def entries {α : Type} (value : Reader α) : Reader (List (String × α)) := fun cs =>
  entriesWithin value (cs.length + 1) true cs

/-! ## Any value -/

/-- Any value whose lists and records are nested at most `depth` deep. A record has each name once,
in ascending order, with the last value given to it. -/
def value : (depth : Nat) → Reader Json
  | depth, cs =>
    match skipSpace cs with
    | [] => .error .malformed
    | 'n' :: cs => (word "ull".toList cs).map (.null, ·)
    | 't' :: cs => (word "rue".toList cs).map (.bool true, ·)
    | 'f' :: cs => (word "alse".toList cs).map (.bool false, ·)
    | '"' :: cs => (textBody cs).map fun (s, rest) => (.text s, rest)
    | '[' :: cs =>
      match depth with
      | 0 => .error .malformed
      | depth + 1 => (items (value depth) cs).map fun (js, rest) => (.list js, rest)
    | '{' :: cs =>
      match depth with
      | 0 => .error .malformed
      | depth + 1 =>
        (entries (value depth) cs).map fun (es, rest) => (.record (Table.ofList es).entries, rest)
    | c :: cs => if startsNumber c then number (c :: cs) else .error .malformed

/-- The deepest nesting of a value of any kind. -/
def maxDepth : Nat := 127

/-- The text behind a value that is passed over. `fuel` bounds its nesting. -/
def skipWithin : (fuel : Nat) → Reader Unit
  | 0, _ => .error .malformed
  | fuel + 1, cs =>
    match skipSpace cs with
    | [] => .error .malformed
    | 'n' :: cs => (word "ull".toList cs).map ((), ·)
    | 't' :: cs => (word "rue".toList cs).map ((), ·)
    | 'f' :: cs => (word "alse".toList cs).map ((), ·)
    | '"' :: cs => (skipTextTail cs).map ((), ·)
    | '[' :: cs => (items (skipWithin fuel) cs).map fun (_, rest) => ((), rest)
    | '{' :: cs => (skipEntries (skipWithin fuel) (cs.length + 1) true cs).map ((), ·)
    | c :: cs =>
      if startsNumber c then (literal (c :: cs)).map fun (_, rest) => ((), rest)
      else .error .malformed
where
  /-- The text behind the entries of a record that is passed over. -/
  skipEntries (value : Reader Unit) :
      (fuel : Nat) → (first : Bool) → List Char → Except Problem (List Char)
    | 0, _, _ => .error .malformed
    | fuel + 1, first, cs => do
      match ← next '}' first cs with
      | .close rest => return rest
      | .item cs =>
        match cs with
        | '"' :: cs =>
          let (_, cs) ← value (← colon (← skipTextTail cs))
          skipEntries value fuel false cs
        | _ => .error .malformed

/-- Passes over a value. -/
def skipValue : Reader Unit := fun cs => skipWithin (cs.length + 1) cs

/-- The problem with a value that is not of the wanted kind. -/
def mismatch (cs : List Char) : Problem :=
  let outcome : Except Problem Unit := match skipSpace cs with
    | [] => .error .malformed
    | 'n' :: cs => (word "ull".toList cs).map fun _ => ()
    | 't' :: cs => (word "rue".toList cs).map fun _ => ()
    | 'f' :: cs => (word "alse".toList cs).map fun _ => ()
    | '"' :: cs => (textBody cs).map fun _ => ()
    | '[' :: _ => .ok ()
    | '{' :: _ => .ok ()
    | c :: cs => if startsNumber c then (number (c :: cs)).map fun _ => () else .error .malformed
  match outcome with
  | .ok () => .misfit
  | .error p => p

/-- Reads a whole text: nothing but blanks may follow. -/
def whole {α : Type} (read : Reader α) (text : String) : Except Problem α := do
  let (a, rest) ← read text.toList
  if (skipSpace rest).isEmpty then return a else throw .malformed

/-- The value that a text denotes. -/
def parse (text : String) : Except Problem Json := whole (value maxDepth) text

end OrderDispatch.Json
