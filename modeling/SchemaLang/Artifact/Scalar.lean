/-
# Loading scalars

Strings and choices are taken as they are.  Numbers and truth values are taken generously, as
long as nothing is lost: an integer may also be written as a truth value, as a floating-point
number without a fraction, or as a numeral in a string; a truth value also as one of two numbers
or one of a few words.
-/
import SchemaLang.Artifact.Checked
import SchemaLang.Text.Blank
import SchemaLang.Text.Case
import SchemaLang.Text.CharClass
import SchemaLang.Text.Numeral

namespace SchemaLang.Json

open Text

/-! ## 1. Strings and choices -/

/-- A string. -/
def asString : Json → Checked String
  | string s => .valid s
  | _ => .issue .notAString

/-- A string, or null for none. -/
def asStringOrNull : Json → Checked (Option String)
  | null => .valid none
  | v => (asString v).map some

/-- A string that names one of several things. -/
def asChoice {α : Type} (ofName? : String → Option α) : Json → Checked α
  | string s =>
    match ofName? s with
    | some a => .valid a
    | none => .issue .notAChoice
  | _ => .issue .notAChoice

/-! ## 2. Integers -/

/-- Integers of 64 bits lie below this, and not below its negative. -/
def wordLimit : Int := 0x8000000000000000

/-- The integers of 64 bits, except for the least one. -/
def fitsWord (n : Int) : Bool := -wordLimit < n && n < wordLimit

/-- The integer that a finite number without a fraction is, unless it is too large. -/
def asIntegerFloat : Binary64 → Checked Int
  | .finite negative m e =>
    match (Binary64.finite negative m e).toInt? with
    | some n => if fitsWord n then .valid n else .issue .tooLarge
    | none => .issue .notWhole
  | _ => .issue .notFinite

/-! ### Integers in strings

A numeral in a string need not be in its normal form (an optional minus sign and digits, with no
zero in front of others).  It is brought there first: blanks around it go, then a plus sign, then
zeros in front together with the underscores among them, then a point with nothing but zeros
behind it, then single underscores between other characters.  A minus sign may stand in front of
all that or behind the zeros, but not in both places.
-/

/-- The integer of a numeral in its normal form. -/
def normalNumeral? (cs : List Char) : Option Int :=
  let (negative, digits) := match cs with
    | '-' :: digits => (true, digits)
    | digits => (false, digits)
  if digits.isEmpty || !digits.all Char.isDigit || (digits.head? == some '0' && digits != ['0'])
  then none
  else match readNumeral digits with
  | .ok n => some (if negative then -(n : Int) else n)
  | .error _ => none

/-- The rest of a numeral behind the zero or underscore `last`, without more of them.  One stays
in front of a point and at the end. -/
def dropZerosBehind (last : Char) : List Char → Option (List Char)
  | [] => some [last]
  | c :: cs =>
    if c == '0' || c == '_' then dropZerosBehind c cs
    else if c == '.' then some (last :: c :: cs)
    else if c == '-' || c.isDigit then some (c :: cs)
    else none

/-- A numeral without zeros in front of it; none if it starts with something else than a digit or
a minus sign. -/
def dropLeadingZeros : List Char → Option (List Char)
  | [] => none
  | c :: cs =>
    if c == '0' then dropZerosBehind c cs
    else if c == '-' || c.isDigit then some (c :: cs)
    else none

/-- A numeral without a point that has only zeros behind it, and at least one. -/
def dropZeroFraction (cs : List Char) : List Char :=
  match cs.dropWhile (· != '.') with
  | _ :: '0' :: zeros => if zeros.all (· == '0') then cs.takeWhile (· != '.') else cs
  | _ => cs

/-- A numeral without its underscores, if each of them stands between two other characters. -/
def dropUnderscores (cs : List Char) : List Char :=
  let groups := pieces (· == '_') cs
  if groups.any List.isEmpty then cs else groups.flatten

/-- The normal form of a numeral without a sign in front of it, if it has one. -/
def normalizeUnsigned (cs : List Char) : Option (List Char) :=
  (dropLeadingZeros cs).map fun ds => dropUnderscores (dropZeroFraction ds)

/-- The normal form of a numeral, if it has one. -/
def normalize (cs : List Char) : Option (List Char) :=
  match strip cs with
  | '+' :: '-' :: _ => none
  | '+' :: ds => normalizeUnsigned ds
  | '-' :: ds => (normalizeUnsigned ds).map ('-' :: ·)
  | ds => normalizeUnsigned ds

/-- A text that starts like a numeral in normal form, and has too many digits there. -/
def startsTooLong (cs : List Char) : Bool :=
  let digits := (match cs with | '-' :: ds => ds | ds => ds).takeWhile Char.isDigit
  digits.head? != some '0' && maxDigits < digits.length

/-- The integer that a string holds.  What is too long as it stands is too large, whatever
follows; what is too long in its normal form only is no numeral. -/
def asIntegerText (s : String) : Checked Int :=
  if startsTooLong s.toList then .issue .tooLarge
  else match normalize s.toList >>= normalNumeral? with
  | some n => .valid n
  | none => .issue .notANumeral

/-- An integer. -/
def asInteger : Json → Checked Int
  | int n => .valid n
  | bool b => .valid (if b then 1 else 0)
  | float x => asIntegerFloat x
  | string s => asIntegerText s
  | _ => .issue .notAnInteger

/-! ## 3. Truth values -/

/-- The words for false. -/
def falseWords : List String := ["0", "off", "f", "false", "n", "no"]

/-- The words for true. -/
def trueWords : List String := ["1", "on", "t", "true", "y", "yes"]

/-- A text with its ASCII letters in lower case. -/
def lowerAscii (s : String) : String := String.ofList (s.toList.map Char.toLower)

/-- The truth value of a word; only the case of ASCII letters is ignored. -/
def asBooleanText (s : String) : Checked Bool :=
  let word := lowerAscii s
  if falseWords.contains word then .valid false
  else if trueWords.contains word then .valid true
  else .issue .notATruthWord

/-- The truth value of zero or one. -/
def asBooleanInt (n : Int) : Checked Bool :=
  if n = 0 then .valid false
  else if n = 1 then .valid true
  else .issue .notATruthWord

/-- A truth value. -/
def asBoolean : Json → Checked Bool
  | bool b => .valid b
  | int n => if -wordLimit ≤ n ∧ n < wordLimit then asBooleanInt n else .issue .notATruthValue
  | float x =>
    match asIntegerFloat x with
    | .valid n => asBooleanInt n
    | .invalid _ => .issue .notATruthValue
  | string s => asBooleanText s
  | _ => .issue .notATruthValue

end SchemaLang.Json
