/-
# Writing interchange values

A value is written without blanks and in ASCII alone.  In a string the quote and the backslash
carry a backslash, five controls have a letter, and every other character outside of the visible
ASCII range is one or two units of sixteen bits in hexadecimal: one up to U+FFFF, and the two
halves of a surrogate pair above.

Every value has a text, but it is not written if an integer in it has too many digits (`write`).
-/
import SchemaLang.Json
import SchemaLang.Number.Shortest
import SchemaLang.Text.Numeral
import SchemaLang.Text.Quoted

namespace SchemaLang.Json

open Text

/-! ## 1. Strings -/

/-- A unit of sixteen bits in hexadecimal. -/
def writtenUnit (n : Nat) : List Char := '\\' :: 'u' :: hexDigits 4 n

/-- The letters that stand for the common controls. -/
def controlLetter? : Char → Option Char
  | '\n' => some 'n'
  | '\r' => some 'r'
  | '\t' => some 't'
  | '\x08' => some 'b'
  | '\x0c' => some 'f'
  | _ => none

/-- A character as it stands in a string. -/
def writtenChar (c : Char) : List Char :=
  if c == '"' || c == '\\' then ['\\', c]
  else match controlLetter? c with
  | some letter => ['\\', letter]
  | none =>
    let n := c.toNat
    if 0x20 ≤ n && n < 0x7F then [c]
    else if n < 0x10000 then writtenUnit n
    else
      let above := n - 0x10000
      writtenUnit (0xD800 + above / 0x400) ++ writtenUnit (0xDC00 + above % 0x400)

/-- A string between its quotes. -/
def writtenString (s : String) : List Char :=
  '"' :: s.toList.flatMap writtenChar ++ ['"']

/-! ## 2. Numbers -/

/-- An integer in decimal digits. -/
def writtenInt : Int → List Char
  | .ofNat n => Nat.toDigits 10 n
  | .negSucc n => '-' :: Nat.toDigits 10 (n + 1)

/-- A floating-point number; the infinities and the value that is no number have names. -/
def writtenFloat : Binary64 → List Char
  | .nan => "NaN".toList
  | .infinite negative => (if negative then "-Infinity" else "Infinity").toList
  | x => x.text.toList

/-! ## 3. Values -/

mutual

/-- A value as a list of characters. -/
def writtenChars : Json → List Char
  | null => "null".toList
  | bool b => (if b then "true" else "false").toList
  | int n => writtenInt n
  | float x => writtenFloat x
  | string s => writtenString s
  | array items => '[' :: writtenItems items ++ [']']
  | object members => '\x7b' :: writtenMembers members ++ ['\x7d']
termination_by structural j => j

/-- Items with commas between them. -/
def writtenItems : List Json → List Char
  | [] => []
  | [v] => writtenChars v
  | v :: vs => writtenChars v ++ ',' :: writtenItems vs
termination_by structural js => js

/-- Members with commas between them. -/
def writtenMembers : List (String × Json) → List Char
  | [] => []
  | [(k, v)] => writtenString k ++ ':' :: writtenChars v
  | (k, v) :: ms => writtenString k ++ ':' :: writtenChars v ++ ',' :: writtenMembers ms
termination_by structural ms => ms

end

/-- A value as compact text. -/
def written (v : Json) : String := String.ofList v.writtenChars

example : (object [("a", array [int (-1), null]), ("é", string "\x7f")]).written =
    "\x7b\"a\":[-1,null],\"\\u00e9\":\"\\u007f\"\x7d" := by decide

/-! ## 4. Integers that are too long -/

/-- An integer of at most `maxDigits` digits.  The sign is no digit. -/
def isShortInt (n : Int) : Bool := n.natAbs < tenTo maxDigits

mutual

/-- No integer in a value is too long to be written. -/
def isShort : Json → Bool
  | null => true
  | bool _ => true
  | int n => isShortInt n
  | float _ => true
  | string _ => true
  | array items => allShort items
  | object members => membersShort members
termination_by structural j => j

/-- No integer in some items is too long to be written. -/
def allShort : List Json → Bool
  | [] => true
  | v :: vs => isShort v && allShort vs
termination_by structural js => js

/-- No integer in some members is too long to be written. -/
def membersShort : List (String × Json) → Bool
  | [] => true
  | (_, v) :: ms => isShort v && membersShort ms
termination_by structural ms => ms

end

/-- Why a value is not written. -/
inductive WriteError
  | longInteger
  deriving DecidableEq, Repr

/-- The wording of a failure. -/
def WriteError.message : WriteError → String
  | longInteger => longIntegerMessage

/-- A value as compact text, unless an integer in it is too long to be written. -/
def write (v : Json) : Except WriteError String :=
  if v.isShort then .ok v.written else .error .longInteger

end SchemaLang.Json
