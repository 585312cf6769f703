/-
# The types of scalars

A scalar without a tag and without quotes has the type that its text looks like: nothing, a truth
value, an integer, a floating-point number, a date, the sign that merges mappings, or else plain
text.  The shapes are checked in a fixed order, but no two of them share a text.

* An integer is decimal, or octal behind a zero, or hexadecimal or binary behind `0x` or `0b`, or a
  row of numbers below sixty with colons between them.  Underscores may stand between its digits.
* A floating-point number has a point.
* A date has four, two and two digits; with a time of day behind it, the last two may be single.
-/
import SchemaLang.Text.CharClass

namespace SchemaLang.Yaml

open Text

/-- The type of a piece of content. -/
inductive Tag
  | null | bool | int | float | timestamp | string | binary | sequence | mapping
  /-- A mapping whose keys alone count. -/
  | set
  /-- A sequence of mappings with one entry each. -/
  | pairs
  /-- The key that merges other mappings into its own. -/
  | merge
  /-- The key that stands for the value of its mapping. -/
  | valueKey
  | unknown
  deriving DecidableEq, Repr

/-- What the tags of the language itself start with. -/
def tagNamespace : String := "tag:yaml.org,2002:"

/-- The names behind that start. -/
def Tag.names : List (String × Tag) := [
  ("null", .null), ("bool", .bool), ("int", .int), ("float", .float), ("timestamp", .timestamp),
  ("str", .string), ("binary", .binary), ("seq", .sequence), ("map", .mapping), ("set", .set),
  ("omap", .pairs), ("pairs", .pairs), ("merge", .merge), ("value", .valueKey)]

/-- The types whose values have parts. -/
def Tag.isCollection : Tag → Bool
  | sequence | mapping | set | pairs => true
  | _ => false

/-- The type that a tag in full stands for. -/
def Tag.ofText (text : String) : Tag :=
  match names.find? fun p => tagNamespace ++ p.1 == text with
  | some (_, tag) => tag
  | none => .unknown

/-! ## 1. Shapes of numbers -/

/-- The text behind a sign. -/
def unsigned : List Char → List Char
  | '-' :: cs => cs
  | '+' :: cs => cs
  | cs => cs

/-- A digit below the base, or an underscore. -/
def isDigitOrLine (isDigit : Char → Bool) (c : Char) : Bool := isDigit c || c == '_'

/-- Digits and underscores with a digit in front. -/
def isDecimalRun : List Char → Bool
  | [] => false
  | c :: cs => c.isDigit && cs.all (isDigitOrLine Char.isDigit)

/-- A digit of base two. -/
def isBinaryDigit (c : Char) : Bool := c == '0' || c == '1'

/-- A digit of base eight. -/
def isOctalDigit (c : Char) : Bool := '0' ≤ c && c ≤ '7'

/-- A digit of base sixteen. -/
def isHexDigit (c : Char) : Bool := c.isDigit || ('a' ≤ c && c ≤ 'f') || ('A' ≤ c && c ≤ 'F')

/-- A number below sixty, in one or two digits. -/
def isSixtieth : List Char → Bool
  | [d] => d.isDigit
  | [c, d] => '0' ≤ c && c ≤ '5' && d.isDigit
  | _ => false

/-- An integer without its sign. -/
def isUnsignedInt : List Char → Bool
  | [] => false
  | ['0'] => true
  | '0' :: 'b' :: cs => !cs.isEmpty && cs.all (isDigitOrLine isBinaryDigit)
  | '0' :: 'x' :: cs => !cs.isEmpty && cs.all (isDigitOrLine isHexDigit)
  | '0' :: cs => cs.all (isDigitOrLine isOctalDigit)
  | cs =>
    match pieces (· == ':') cs with
    | [] => false
    | first :: more => isDecimalRun first && more.all isSixtieth

/-- An integer. -/
def looksInt (cs : List Char) : Bool := isUnsignedInt (unsigned cs)

/-- The exponent of a number, which must have a sign, or nothing. -/
def isExponent : List Char → Bool
  | [] => true
  | e :: s :: cs =>
    (e == 'e' || e == 'E') && (s == '-' || s == '+') && !cs.isEmpty && cs.all Char.isDigit
  | _ => false

/-- What stands behind the point of a number. -/
def isFraction (cs : List Char) : Bool :=
  isExponent (cs.dropWhile (isDigitOrLine Char.isDigit))

/-- A number with a point and digits in front of it. -/
def isPointed (cs : List Char) : Bool :=
  match cs.dropWhile (· != '.') with
  | [] => false
  | _ :: behind =>
    match pieces (· == ':') (cs.takeWhile (· != '.')) with
    | [] => false
    | [whole] => isDecimalRun whole && isFraction behind
    | first :: more =>
      isDecimalRun first && more.all isSixtieth && behind.all (isDigitOrLine Char.isDigit)

/-- A number whose first character is the point. -/
def startsWithPoint : List Char → Bool
  | '.' :: d :: cs => d.isDigit && isFraction cs
  | _ => false

/-- The spellings of infinity. -/
def infinities : List String := [".inf", ".Inf", ".INF"]

/-- The spellings of the value that is no number. -/
def notNumbers : List String := [".nan", ".NaN", ".NAN"]

/-- A floating-point number. -/
def looksFloat (cs : List Char) : Bool :=
  isPointed (unsigned cs) || startsWithPoint cs
    || infinities.contains (String.ofList (unsigned cs))
    || notNumbers.contains (String.ofList cs)

/-! ## 2. Shapes of dates -/

/-- One or two digits. -/
def isShortNumber (cs : List Char) : Bool :=
  (cs.length == 1 || cs.length == 2) && cs.all Char.isDigit

/-- So many digits. -/
def isNumberOf (length : Nat) (cs : List Char) : Bool := cs.length == length && cs.all Char.isDigit

/-- The parts of a date and a time of day as they were written. -/
structure TimeText where
  year : List Char
  month : List Char
  day : List Char
  hour : List Char
  minute : List Char
  second : List Char
  fraction : List Char
  /-- The sign, the hours and the minutes of the distance to universal time, if it is told. -/
  zone : Option (Bool × List Char × List Char)
  deriving DecidableEq, Repr

/-- The distance to universal time at the end of a text; none if nothing is left. -/
def zone? (cs : List Char) : Option (Option (Bool × List Char × List Char)) :=
  match cs.dropWhile fun c => c == ' ' || c == '\t' with
  | [] => if cs.isEmpty then some none else none
  | ['Z'] => some (some (false, ['0'], ['0']))
  | sign :: rest =>
    let west := sign == '-'
    if sign == '+' || west then
      match pieces (· == ':') rest with
      | [hours] => if isShortNumber hours then some (some (west, hours, ['0'])) else none
      | [hours, minutes] =>
        if isShortNumber hours && isNumberOf 2 minutes then some (some (west, hours, minutes))
        else none
      | _ => none
    else none

/-- The digits behind the point of the seconds, and the rest; no digits without a point. -/
def secondsFraction : List Char → List Char × List Char
  | '.' :: cs => (cs.takeWhile Char.isDigit, cs.dropWhile Char.isDigit)
  | cs => ([], cs)

/-- The text behind the separator of a date and a time of day. -/
def behindDate : List Char → Option (List Char)
  | 'T' :: cs => some cs
  | 't' :: cs => some cs
  | c :: cs =>
    if c == ' ' || c == '\t' then some (cs.dropWhile fun d => d == ' ' || d == '\t') else none
  | [] => none

/-- A time of day, and the text behind it. -/
def clock? (cs : List Char) : Option (List Char × List Char × List Char × List Char) := do
  let hour := cs.takeWhile Char.isDigit
  let ':' :: m :: n :: ':' :: s :: t :: rest := cs.dropWhile Char.isDigit | none
  if isShortNumber hour && isNumberOf 4 [m, n, s, t] then some (hour, [m, n], [s, t], rest)
  else none

/-- The parts of a text that looks like a date, or like a date and a time of day. -/
def timeText? (cs : List Char) : Option TimeText := do
  let y1 :: y2 :: y3 :: y4 :: '-' :: rest := cs | none
  let year := [y1, y2, y3, y4]
  let month := rest.takeWhile Char.isDigit
  let '-' :: rest := rest.dropWhile Char.isDigit | none
  let day := rest.takeWhile Char.isDigit
  let rest := rest.dropWhile Char.isDigit
  if !isNumberOf 4 year || !isShortNumber month || !isShortNumber day then none
  else if rest.isEmpty then
    some { year, month, day, hour := [], minute := [], second := [], fraction := [], zone := none }
  else
    let (hour, minute, second, rest) ← behindDate rest >>= clock?
    let (fraction, rest) := secondsFraction rest
    let zone ← zone? rest
    some { year, month, day, hour, minute, second, fraction, zone }

/-- An untagged date by itself has all its digits. -/
def TimeText.isPlain (t : TimeText) : Bool :=
  !t.hour.isEmpty || (t.month.length == 2 && t.day.length == 2)

/-! ## 3. Shapes of words -/

/-- The spellings of nothing; the empty text is one of them. -/
def nullWords : List String := ["", "~", "null", "Null", "NULL"]

/-- The words for truth values in lower case. -/
def boolWords : List (String × Bool) :=
  [("yes", true), ("no", false), ("true", true), ("false", false), ("on", true), ("off", false)]

/-- A word with a capital first letter. -/
def capitalized (s : String) : String :=
  match s.toList with
  | [] => ""
  | c :: cs => String.ofList (c.toUpper :: cs)

/-- The truth value of a word in lower case, with a capital, or in upper case. -/
def boolWord? (s : String) : Option Bool :=
  boolWords.findSome? fun (word, b) =>
    if s == word || s == capitalized word || s == word.map Char.toUpper then some b else none

/-- A text without a line feed at its end, unless that is all of it. -/
def dropLineFeed (s : String) : String :=
  match s.toList.reverse with
  | '\n' :: c :: cs => String.ofList (c :: cs).reverse
  | _ => s

/-- The type that an untagged word has. -/
def Tag.ofWord (s : String) : Tag :=
  let cs := s.toList
  if (boolWord? s).isSome then .bool
  else if looksFloat cs then .float
  else if looksInt cs then .int
  else if s == "<<" then .merge
  else if nullWords.contains s then .null
  else if (timeText? cs).any TimeText.isPlain then .timestamp
  else if s == "=" then .valueKey
  else if s == "!" || s == "&" || s == "*" then .unknown
  else .string

/-- The type that an untagged text has; a line feed at its end does not matter. -/
def Tag.ofPlain (s : String) : Tag := ofWord (dropLineFeed s)

end SchemaLang.Yaml
