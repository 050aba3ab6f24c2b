import OrderDispatch.Number.Notation

/-!
# JSON values and their text

A JSON value as a tree, and its compact text: no blanks, fields in the order of the tree, text
quoted with the short escapes where JSON has them. Integers and reals are told apart, and a real
that JSON cannot write is written as null.
-/

namespace OrderDispatch

/-- A JSON value. -/
inductive Json where
  | null
  | bool (value : Bool)
  | int (value : Int)
  | real (value : Float)
  | text (value : String)
  | list (items : List Json)
  | record (fields : List (String × Json))
deriving Inhabited

namespace Json

/-! ## Quoted text -/

/-- The characters that stand for one character inside quotes. -/
def escape (c : Char) : List Char :=
  if c = '"' then ['\\', '"']
  else if c = '\\' then ['\\', '\\']
  else if c = '\x08' then ['\\', 'b']
  else if c = '\x0c' then ['\\', 'f']
  else if c = '\n' then ['\\', 'n']
  else if c = '\r' then ['\\', 'r']
  else if c = '\t' then ['\\', 't']
  else if c.toNat < 0x20 then
    ['\\', 'u', '0', '0', Nat.digitChar (c.toNat / 16), Nat.digitChar (c.toNat % 16)]
  else [c]

/-- A text in quotes. -/
def quoted (s : String) : List Char := '"' :: s.toList.flatMap escape ++ ['"']

/-! ## Compact text -/

/-- The text of a real, null for an infinity or a NaN. -/
def realChars (x : Float) : List Char :=
  if Binary64.isFinite x then Binary64.dataChars x else "null".toList

mutual

/-- The compact text of a value. -/
def chars : Json → List Char
  | null => "null".toList
  | bool b => (if b then "true" else "false").toList
  | int n => Binary64.intChars n
  | real x => realChars x
  | text s => quoted s
  | list items => '[' :: itemChars items ++ [']']
  | record fields => '{' :: fieldChars fields ++ ['}']

/-- The texts of the items of a list, separated by commas. -/
def itemChars : List Json → List Char
  | [] => []
  | [item] => item.chars
  | item :: items => item.chars ++ ',' :: itemChars items

/-- The texts of the fields of a record, separated by commas. -/
def fieldChars : List (String × Json) → List Char
  | [] => []
  | [(name, value)] => quoted name ++ ':' :: value.chars
  | (name, value) :: fields => quoted name ++ ':' :: value.chars ++ ',' :: fieldChars fields

end

/-- The compact text of a value. -/
def render (j : Json) : String := String.ofList j.chars

/-! ## Access -/

/-- The value of a field of a record. -/
def get? (name : String) : Json → Option Json
  | record fields => fields.lookup name
  | _ => none

/-- A text value. -/
def text? : Json → Option String
  | text s => some s
  | _ => none

/-- A truth value. -/
def bool? : Json → Option Bool
  | bool b => some b
  | _ => none

/-- An integer value. -/
def int? : Json → Option Int
  | int n => some n
  | _ => none

/-- A real value. -/
def real? : Json → Option Float
  | real x => some x
  | _ => none

/-- The items of a list. -/
def list? : Json → Option (List Json)
  | list items => some items
  | _ => none

/-- The fields of a record. -/
def record? : Json → Option (List (String × Json))
  | record fields => some fields
  | _ => none

/-- What a null leaves out, and any other value read further. -/
def optional? {α : Type} (read? : Json → Option α) : Json → Option (Option α)
  | null => some none
  | j => (read? j).map some

/-- The value for something that may be absent. -/
def ofOption {α : Type} (write : α → Json) : Option α → Json
  | none => null
  | some a => write a

end Json

end OrderDispatch
