import OrderDispatch.Json.Reader

/-!
# Shapes

A shape says which JSON values stand for values of a type, and reading by a shape decides as it
goes: the first thing in the text that is no JSON or does not fit is the problem reported. What is
read comes back in one *full* form whatever way it was written: records have all their fields in
the order of the shape, with the values of absent fields filled in, whole numbers are read as reals
where reals are wanted, and tables are sorted.

A record may also be written as a list of its values in order, and a choice as a record with one
field that holds null. `Coded` ties a type to its shape and both directions of the mapping.
-/

namespace OrderDispatch

/-- A field of a record whose value has a shape of type `σ`. -/
structure Field (σ : Type) where
  name : String
  shape : σ
  /-- The value of the field in a record that leaves it out; without one it is required. -/
  absent : Option Json
  /-- Whether a list of the values may end before this field. -/
  trailing : Bool

/-- A kind of JSON values. -/
inductive Shape where
  | flag
  | whole (low high : Int)
  | real
  | text
  | choice (names : List String)
  | optional (shape : Shape)
  | list (shape : Shape)
  /-- A record of any fields, each holding text. -/
  | table
  | record (fields : List (Field Shape))

namespace Shape

open Json

/-! ## Kinds without parts -/

/-- Reads a truth value. -/
def readFlag : Reader Json := fun cs =>
  match skipSpace cs with
  | 't' :: cs => (word "rue".toList cs).map (.bool true, ·)
  | 'f' :: cs => (word "alse".toList cs).map (.bool false, ·)
  | cs => .error (mismatch cs)

/-- Reads a number and turns it into the wanted kind, if it can be. -/
def readNumber (convert? : Json → Option Json) : Reader Json := fun cs =>
  match skipSpace cs with
  | c :: cs =>
    if startsNumber c then
      match number (c :: cs) with
      | .error p => .error p
      | .ok (j, rest) =>
        match convert? j with
        | some j => .ok (j, rest)
        | none => .error .misfit
    else .error (mismatch (c :: cs))
  | [] => .error .malformed

/-- An integer within bounds. -/
def within? (low high : Int) : Json → Option Json
  | .int n => if low ≤ n ∧ n ≤ high then some (.int n) else none
  | _ => none

/-- A number as a real. -/
def asReal? : Json → Option Json
  | .int n => some (.real (Binary64.ofInt n))
  | .real x => some (.real x)
  | _ => none

/-- Reads a text. -/
def readText : Reader String := fun cs =>
  match skipSpace cs with
  | '"' :: cs => textBody cs
  | cs => .error (mismatch cs)

/-- Reads one of the given names, or a record that holds null under one of them. Anything that is
neither text nor record counts as malformed. -/
def readChoice (names : List String) : Reader Json := fun cs =>
  match skipSpace cs with
  | '"' :: cs => do
    let (name, rest) ← textBody cs
    if name ∈ names then return (.text name, rest) else throw .misfit
  | '{' :: cs => do
    let (name, cs) ← readText cs
    if name ∉ names then throw .misfit
    match skipSpace (← colon cs) with
    | 'n' :: cs =>
      match skipSpace (← word "ull".toList cs) with
      | '}' :: rest => return (.text name, rest)
      | _ => throw .malformed
    | cs => throw (mismatch cs)
  | _ => .error .malformed

/-- Reads null as itself and anything else by a reader. -/
def readOptional (read : Reader Json) : Reader Json := fun cs =>
  match skipSpace cs with
  | 'n' :: cs => (word "ull".toList cs).map (.null, ·)
  | cs => read cs

/-- Reads a list. -/
def readList (read : Reader Json) : Reader Json := fun cs =>
  match skipSpace cs with
  | '[' :: cs => (items read cs).map fun (js, rest) => (.list js, rest)
  | cs => .error (mismatch cs)

/-- Reads a table of texts; of entries with the same name the last one counts. -/
def readTable : Reader Json := fun cs =>
  match skipSpace cs with
  | '{' :: cs => (entries readText cs).map fun (es, rest) =>
      (.record ((Table.ofList es).entries.map fun (k, v) => (k, .text v)), rest)
  | cs => .error (mismatch cs)

/-! ## Records -/

/-- The values found so far in a record, the latest first, read up to its closing bracket. `fuel`
bounds the count of fields. A field given twice is refused at its name, and unknown ones are passed
over. -/
def foundWithin (slots : List (Field (Reader Json))) : (fuel : Nat) → (first : Bool) →
    (found : List (String × Json)) → Reader (List (String × Json))
  | 0, _, _, _ => .error .malformed
  | fuel + 1, first, found, cs => do
    match ← next '}' first cs with
    | .close rest => return (found, rest)
    | .item cs =>
      let (name, cs) ← fieldName cs
      match slots.find? (·.name == name) with
      | some slot =>
        if (found.lookup name).isSome then throw .misfit
        let (j, cs) ← slot.shape (← colon cs)
        foundWithin slots fuel false ((name, j) :: found) cs
      | none =>
        let (_, cs) ← skipValue (← colon cs)
        foundWithin slots fuel false found cs

/-- The fields of a record in order, from the values found. -/
def complete (found : List (String × Json)) :
    List (Field (Reader Json)) → Except Problem (List (String × Json))
  | [] => .ok []
  | slot :: slots =>
    match (found.lookup slot.name).or slot.absent with
    | none => .error .misfit
    | some j => (complete found slots).map ((slot.name, j) :: ·)

/-- The fields of a record from a list of their values, up to its closing bracket. -/
def positional : List (Field (Reader Json)) → (first : Bool) → Reader (List (String × Json))
  | [], _, cs =>
    match skipSpace cs with
    | ']' :: rest => .ok ([], rest)
    | _ => .error .malformed
  | slot :: slots, first, cs => do
    match ← next ']' first cs with
    | .close rest =>
      match slot.absent with
      | some j =>
        if slot.trailing then
          let (fields, rest) ← positional slots first (']' :: rest)
          return ((slot.name, j) :: fields, rest)
        else throw .misfit
      | none => throw .misfit
    | .item cs =>
      let (j, cs) ← slot.shape cs
      let (fields, rest) ← positional slots false cs
      return ((slot.name, j) :: fields, rest)

/-- Reads a record, by names or by position. -/
def readRecord (slots : List (Field (Reader Json))) : Reader Json := fun cs =>
  match skipSpace cs with
  | '{' :: cs => do
    let (found, rest) ← foundWithin slots (cs.length + 1) true [] cs
    let fields ← complete found slots
    return (.record fields, rest)
  | '[' :: cs => (positional slots true cs).map fun (fields, rest) => (.record fields, rest)
  | cs => .error (mismatch cs)

/-! ## Every shape -/

mutual

/-- Reads a value of a shape. -/
def read : Shape → Reader Json
  | flag => readFlag
  | whole low high => readNumber (within? low high)
  | real => readNumber asReal?
  | text => fun cs => (readText cs).map fun (s, rest) => (.text s, rest)
  | choice names => readChoice names
  | optional shape => readOptional shape.read
  | list shape => readList shape.read
  | table => readTable
  | record fields => readRecord (slots fields)

/-- The readers of the fields of a record. -/
def slots : List (Field Shape) → List (Field (Reader Json))
  | [] => []
  | field :: fields => { field with shape := field.shape.read } :: slots fields

end

/-! ## Words -/

/-- The integers of 16 bits without sign. -/
def word16 : Shape := whole 0 (UInt16.size - 1)

/-- The integers of 32 bits without sign. -/
def word32 : Shape := whole 0 (UInt32.size - 1)

/-- The integers of 64 bits without sign. -/
def word64 : Shape := whole 0 (UInt64.size - 1)

/-- The integers of 64 bits with sign. -/
def signed64 : Shape := whole Int64.minValue.toInt Int64.maxValue.toInt

end Shape

/-! ## Fields -/

namespace Field

/-- A field that must be there. -/
def required (name : String) (shape : Shape) : Field Shape := ⟨name, shape, none, false⟩

/-- A field with a value to fall back on. -/
def defaulted (name : String) (shape : Shape) (absent : Json) : Field Shape :=
  ⟨name, shape, some absent, true⟩

/-- An optional field that is null when it is left out, but has its place in a list. -/
def nullable (name : String) (shape : Shape) : Field Shape :=
  ⟨name, .optional shape, some .null, false⟩

/-- An optional field that is null when it is left out, in a list too. -/
def omissible (name : String) (shape : Shape) : Field Shape :=
  ⟨name, .optional shape, some .null, true⟩

end Field

/-! ## Coded types -/

/-- A type whose values have a JSON form: `encode` writes one, and `decode?` takes a value back from
what is read by the shape. -/
class Coded (α : Type) where
  shape : Shape
  encode : α → Json
  decode? : Json → Option α

namespace Coded

variable {α : Type} [Coded α]

/-- Reads a value from the whole of a text. -/
def read (text : String) : Except Json.Problem α := do
  match decode? (← Json.whole (shape α).read text) with
  | some a => return a
  | none => throw .misfit

/-- The compact JSON text of a value. -/
def render (a : α) : String := (encode a).render

/-- A list of values. -/
instance : Coded (List α) where
  shape := .list (shape α)
  encode as := .list (as.map encode)
  decode? j := j.list?.bind (·.mapM decode?)

end Coded

end OrderDispatch
