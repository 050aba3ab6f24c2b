import OrderDispatch.Json.Shape

/-!
# Values of a shape

What reading by a shape does to a text, fitting does to a value that is JSON already: it brings the
value into the full form of the shape, or finds that it does not fit. A record given by names may
have fields that the shape does not know, one given by position may not.
-/

namespace OrderDispatch

namespace Shape

open Json

/-! ## Kinds with parts -/

/-- Fits one of the given names, or a record that holds nothing but null under one of them. -/
def fitChoice? (names : List String) : Json → Option Json
  | .text name => if name ∈ names then some (.text name) else none
  | .record [(name, .null)] => if name ∈ names then some (.text name) else none
  | _ => none

/-- Fits null as itself and anything else by another rule. -/
def fitOptional? (fit? : Json → Option Json) : Json → Option Json
  | .null => some .null
  | j => fit? j

/-- Fits every item of a list. -/
def fitList? (fit? : Json → Option Json) (j : Json) : Option Json := do
  return .list (← (← j.list?).mapM fit?)

/-- Fits a table of texts. -/
def fitTable? (j : Json) : Option Json := do
  let fields ← (← j.record?).mapM fun (name, value) => value.text?.map (name, ·)
  return .record ((Table.ofList fields).entries.map fun (name, s) => (name, .text s))

/-- Fits the fields of a record that is given by names. -/
def fitNamed? (given : List (String × Json)) :
    List (Field (Json → Option Json)) → Option (List (String × Json))
  | [] => some []
  | slot :: slots => do
    let j ← match given.lookup slot.name with
      | some j => slot.shape j
      | none => slot.absent
    return (slot.name, j) :: (← fitNamed? given slots)

/-- Fits the fields of a record that is given by position. -/
def fitPositional? :
    List (Field (Json → Option Json)) → List Json → Option (List (String × Json))
  | [], [] => some []
  | [], _ :: _ => none
  | slot :: slots, j :: js => do
    return (slot.name, ← slot.shape j) :: (← fitPositional? slots js)
  | slot :: slots, [] => do
    let j ← if slot.trailing then slot.absent else none
    return (slot.name, j) :: (← fitPositional? slots [])

/-- Fits a record, by names or by position. -/
def fitRecord? (slots : List (Field (Json → Option Json))) : Json → Option Json
  | .record given => (fitNamed? given slots).map .record
  | .list items => (fitPositional? slots items).map .record
  | _ => none

/-! ## Every shape -/

mutual

/-- The full form of a value of a shape. -/
def fit? : Shape → Json → Option Json
  | flag => fun j => j.bool?.map .bool
  | whole low high => within? low high
  | real => asReal?
  | text => fun j => j.text?.map .text
  | choice names => fitChoice? names
  | optional shape => fitOptional? shape.fit?
  | list shape => fitList? shape.fit?
  | table => fitTable?
  | record fields => fitRecord? (fits fields)

/-- The rules for the fields of a record. -/
def fits : List (Field Shape) → List (Field (Json → Option Json))
  | [] => []
  | field :: fields => { field with shape := field.shape.fit? } :: fits fields

end

end Shape

/-- The value of a coded type that a JSON value stands for. -/
def Coded.ofJson? {α : Type} [Coded α] (j : Json) : Option α :=
  ((Coded.shape α).fit? j).bind Coded.decode?

end OrderDispatch
