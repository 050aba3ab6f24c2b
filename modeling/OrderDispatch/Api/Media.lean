/-!
# Media types

A media type is a main type, a slash, a subtype, and parameters behind semicolons, each a name, an
equals sign and a value, which may be quoted. A subtype may end with a plus sign and the name of the
notation it builds on. JSON is what calls itself so or builds on it.
-/

namespace OrderDispatch.Media

/-- A character that names and plain values are made of. -/
def isTokenChar (c : Char) : Bool :=
  c.isAlphanum || "!#$%&'*+-.^_|~".toList.contains c || c = '\x60'

/-- A character that may stand between quotes. -/
def isQuotedChar (c : Char) : Bool := 0x20 ≤ c.toNat && c.toNat < 0x7F

/-! ## Parameters -/

/-- A place within the parameters. -/
inductive Place where
  /-- Before a name. -/
  | gap
  | name
  /-- Right behind the equals sign. -/
  | valueStart
  | value
  /-- Right behind the opening quote. -/
  | quotedStart
  | quoted
  /-- Behind the closing quote. -/
  | quotedEnd
  /-- Behind a character that must not be there. -/
  | broken
deriving DecidableEq, Repr

namespace Place

/-- The place behind a character. A quoted value has at least one character, which may be a quote
itself. -/
def step (p : Place) (c : Char) : Place :=
  match p with
  | gap => if c = ' ' then gap else if isTokenChar c then name else broken
  | name => if c = '=' then valueStart else if isTokenChar c then name else broken
  | valueStart => if c = '"' then quotedStart else if isTokenChar c then value else broken
  | value => if c = ';' then gap else if isTokenChar c then value else broken
  | quotedStart => if isQuotedChar c then quoted else broken
  | quoted => if c = '"' then quotedEnd else if isQuotedChar c then quoted else broken
  | quotedEnd => if c = ' ' then quotedEnd else if c = ';' then gap else broken
  | broken => broken

/-- Whether the parameters may end at a place. -/
def isEnd : Place → Bool
  | gap | valueStart | value | quotedEnd => true
  | name | quotedStart | quoted | broken => false

end Place

/-- Whether a text, read behind the first semicolon, consists of parameters. -/
def areParameters (cs : List Char) : Bool := (cs.foldl Place.step .gap).isEnd

/-! ## Types -/

/-- Whether a subtype, without its parameters, is JSON or builds on it. -/
def isJsonSubtype (cs : List Char) : Bool :=
  let json := "json".toList
  match cs with
  | [] => false
  | c :: cs =>
    -- A plus sign in front does not separate anything.
    let tail := cs.reverse.takeWhile (· != '+')
    if tail.length = cs.length then c :: cs == json
    else tail.reverse == json || c :: cs.take (cs.length - tail.length - 1) == json

/-- Whether a text is a media type of JSON. -/
def isJson (text : String) : Bool :=
  let cs := text.toList.map Char.toLower
  let (main, rest) := cs.span isTokenChar
  match rest with
  | '/' :: rest =>
    let (subtype, rest) := rest.span isTokenChar
    main == "application".toList && isJsonSubtype subtype &&
      match rest with
      | [] => true
      | ';' :: parameters => areParameters parameters
      | _ => false
  | _ => false

example : isJson "Application/Problem+JSON; charset=\"utf-8\" ;" = true ∧
    isJson "application/jsonx" = false ∧ isJson "application/json;charset" = false := by
  decide +kernel

end OrderDispatch.Media
