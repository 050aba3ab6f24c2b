/-!
# Blank characters

The characters of the Unicode property `White_Space`, the trimming of a text on both sides, and the
texts that hold nothing else.
-/

namespace OrderDispatch.Text

/-- The ranges of the property `White_Space`, both ends included, in ascending order. -/
def blankRanges : List (Nat × Nat) :=
  [(0x09, 0x0D), (0x20, 0x20), (0x85, 0x85), (0xA0, 0xA0), (0x1680, 0x1680), (0x2000, 0x200A),
   (0x2028, 0x2029), (0x202F, 0x202F), (0x205F, 0x205F), (0x3000, 0x3000)]

/-- Whether a character is white space. -/
def isBlankChar (c : Char) : Bool :=
  blankRanges.any fun (first, last) => first ≤ c.toNat && c.toNat ≤ last

/-- The characters left when white space is dropped at both ends. -/
def trimChars (cs : List Char) : List Char :=
  ((cs.dropWhile isBlankChar).reverse.dropWhile isBlankChar).reverse

/-- A text without the white space at its two ends. -/
def trim (s : String) : String := String.ofList (trimChars s.toList)

/-- Whether a text is empty or white space only. -/
def isBlank (s : String) : Bool := s.toList.all isBlankChar

example : trim "\u3000 a b\t\u0085" = "a b" := by decide +kernel

example : isBlank " \n\u2003" = true ∧ isBlank "\u200b" = false := by decide +kernel

end OrderDispatch.Text
