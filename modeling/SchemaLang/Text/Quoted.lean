/-
# Quoted text

Messages show a text between quotes, so that blanks, line breaks and hidden characters can be
seen in it.  The quote is the apostrophe, unless the text holds an apostrophe and no double
quote.  Inside, the quote in use and the backslash carry a backslash, the three common controls
have a letter, every other hidden character is its code point in hexadecimal behind x, u or U
(two, four or eight digits, the shortest that fits), and all else stands for itself.
-/
import SchemaLang.Text.Visible

namespace SchemaLang.Text

/-! ## 1. Hexadecimal -/

/-- The lower-case hexadecimal digit of a number below sixteen. -/
def hexDigit (n : Nat) : Char :=
  if n < 10 then Char.ofNat ('0'.toNat + n) else Char.ofNat ('a'.toNat + (n - 10))

/-- The last `width` hexadecimal digits of a number, leading zeros included. -/
def hexDigits : (width : Nat) → Nat → List Char
  | 0, _ => []
  | width + 1, n => hexDigits width (n / 16) ++ [hexDigit (n % 16)]

theorem length_hexDigits : ∀ width n, (hexDigits width n).length = width
  | 0, _ => rfl
  | width + 1, n => by simp [hexDigits, length_hexDigits width]

/-! ## 2. One character between quotes -/

/-- The code point of a hidden character, behind the letter that tells how many digits follow. -/
def spelledOut (c : Char) : List Char :=
  let n := c.toNat
  if n < 0x100 then '\\' :: 'x' :: hexDigits 2 n
  else if n < 0x10000 then '\\' :: 'u' :: hexDigits 4 n
  else '\\' :: 'U' :: hexDigits 8 n

/-- A character as it stands between two quotes `q`. -/
def quotedChar (q c : Char) : List Char :=
  if c == q || c == '\\' then ['\\', c]
  else if c == '\n' then ['\\', 'n']
  else if c == '\r' then ['\\', 'r']
  else if c == '\t' then ['\\', 't']
  else if isVisible c then [c]
  else spelledOut c

/-! ## 3. Whole texts -/

/-- The quote that needs less escaping; the apostrophe where both or neither occur. -/
def quoteFor (s : List Char) : Char :=
  if s.contains '\'' && !s.contains '"' then '"' else '\''

/-- A text between quotes, with all that could be misread in it escaped. -/
def quoted (s : String) : String :=
  let q := quoteFor s.toList
  String.ofList (q :: s.toList.flatMap (quotedChar q) ++ [q])

/-- Bytes between quotes, behind the letter b.  Those that are ASCII are shown as characters. -/
def quotedBytes (bytes : List UInt8) : String :=
  let cs := bytes.map fun b => Char.ofNat b.toNat
  let q := quoteFor cs
  let shown (c : Char) : List Char := if c.toNat < 128 then quotedChar q c else spelledOut c
  String.ofList ('b' :: q :: cs.flatMap shown ++ [q])

example : quoted "it's" = "\"it's\"" := by decide
example : quotedBytes [0x61, 0xE9, 0x0A] = "b'a\\xe9\\n'" := by decide
example : quoted "a\n\\" = "'a\\n\\\\'" := by decide

end SchemaLang.Text
