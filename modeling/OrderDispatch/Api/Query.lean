import OrderDispatch.Number.Whole
import OrderDispatch.Order.Request
import OrderDispatch.Text.Percent

/-!
# Query strings

A query string holds fields as form data. The fields of a query are each given at most once and with
a value of their kind; fields that a query does not know are passed over.
-/

namespace OrderDispatch.Query

/-- The fields of a query string, in order. -/
def fields (query : String) : List (String × String) :=
  ((query.splitOn "&").filter (!·.isEmpty)).map fun pair =>
    let name := pair.toList.takeWhile (· != '=')
    let value := pair.toList.drop (name.length + 1)
    (Text.formDecode (String.ofList name), Text.formDecode (String.ofList value))

/-- The value of a field, if it is given: `none` when it is given twice or cannot be read. -/
def field? {α : Type} (fields : List (String × String)) (name : String)
    (read? : String → Option α) : Option (Option α) :=
  match fields.filter (·.1 == name) with
  | [] => some none
  | [(_, value)] => (read? value).map some
  | _ => none

/-- A number of 32 bits. -/
def word32? (value : String) : Option UInt32 := (readBelow? UInt32.size value).map UInt32.ofNat

/-- Which orders a query string asks for. -/
def list? (query : String) : Option ListQuery := do
  let fs := fields query
  return {
    page := ← field? fs "page" word32?
    limit := ← field? fs "limit" word32?
    status := ← field? fs "status" OrderStatus.ofName? }

/-- How many position reports a query string asks for. -/
def locations? (query : String) : Option LocationQuery := do
  return ⟨← field? (fields query) "limit" word32?⟩

end OrderDispatch.Query
