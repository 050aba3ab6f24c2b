import OrderDispatch.Text.Bytes

/-!
# Percent encoding

A percent sign and two hexadecimal digits stand for one byte, every other character for its own
UTF-8 bytes. A percent sign without two such digits stands for itself. In form data a plus sign
stands for a blank as well.
-/

namespace OrderDispatch.Text

/-- The bytes that percent-encoded characters stand for. -/
def percentBytes : List Char → List UInt8
  | [] => []
  | '%' :: a :: b :: cs =>
    match hexValue? a, hexValue? b with
    | some high, some low => UInt8.ofNat (16 * high + low) :: percentBytes cs
    | _, _ => utf8 "%" ++ percentBytes (a :: b :: cs)
  | c :: cs => utf8 (String.singleton c) ++ percentBytes cs

/-- The text that a percent-encoded text stands for, if its bytes are well-formed. -/
def percentDecode? (s : String) : Option String := ofUtf8? (percentBytes s.toList)

/-- What form data stands for; bytes that are not well-formed become a replacement character. -/
def formDecode (s : String) : String :=
  (ofUtf8? (percentBytes (s.toList.map fun c => if c = '+' then ' ' else c))).getD "\uFFFD"

example : percentDecode? "%61+%C3%A9%zz" = some "a+é%zz" ∧ formDecode "a+%2B" = "a +" := by
  decide +kernel

example : percentDecode? "%FF" = none := by decide +kernel

end OrderDispatch.Text
