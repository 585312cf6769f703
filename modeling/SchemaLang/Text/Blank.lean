/-
# Blank characters of all scripts

Text around a number is stripped of the characters with the Unicode property White_Space.  There
are twenty-five of them.
-/
import SchemaLang.Text.CodeRange

namespace SchemaLang.Text

/-- The code points with the property White_Space, as closed ranges. -/
def whiteSpaceRanges : CodeRanges := [
  (0x09, 0x0D), (0x20, 0x20), (0x85, 0x85), (0xA0, 0xA0), (0x1680, 0x1680), (0x2000, 0x200A),
  (0x2028, 0x2029), (0x202F, 0x202F), (0x205F, 0x205F), (0x3000, 0x3000)]

/-- A character has the property White_Space. -/
def isWhiteSpace (c : Char) : Bool := whiteSpaceRanges.has c

/-- A text without the blank characters at its two ends. -/
def strip (cs : List Char) : List Char :=
  ((cs.dropWhile isWhiteSpace).reverse.dropWhile isWhiteSpace).reverse

example : strip "\t 1 2\u3000".toList = "1 2".toList := by decide
example : (whiteSpaceRanges.map fun r => r.2 + 1 - r.1).sum = 25 := by decide

end SchemaLang.Text
