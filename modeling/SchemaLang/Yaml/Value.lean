/-
# Values of scalars

A scalar has the value that its type and its text give it.  The texts of untagged scalars have the
shape that their type asks for, and still need not denote anything: there is no thirteenth month,
and a numeral may be too long.  A tag may even give a text a type that it does not look like.

Values are compared as the keys of a mapping are (`Value.sameKey`): truth values and numbers of
all kinds by the number that they are, and moments by the instant, where both tell their distance
to universal time.
-/
import SchemaLang.Json.Shown
import SchemaLang.Json.Read
import SchemaLang.Text.Base64
import SchemaLang.Text.Blank
import SchemaLang.Text.Case
import SchemaLang.Text.DecimalDigit
import SchemaLang.Yaml.Problem
import SchemaLang.Yaml.Tag

namespace SchemaLang.Yaml

open Text

/-! ## 1. Values -/

/-- A day of the calendar. -/
structure Date where
  year : Nat
  month : Nat
  day : Nat
  deriving DecidableEq, Repr

/-- A time of a day, with its distance to universal time in minutes if that is told. -/
structure Moment where
  date : Date
  hour : Nat
  minute : Nat
  second : Nat
  microsecond : Nat
  zone : Option Int
  deriving DecidableEq, Repr

/-- The value of a node; sequences and mappings are not looked into. -/
inductive Value
  | null
  | bool (b : Bool)
  | int (n : Int)
  | float (x : Binary64)
  /-- What is no number, worked out at the node of that number. -/
  | noNumber (node : Nat)
  | date (d : Date)
  | moment (m : Moment)
  | string (s : String)
  | bytes (content : List UInt8)
  | collection
  deriving DecidableEq, Repr

/-! ## 2. Numbers -/

/-- The value of a digit of any base up to sixteen, if it is below the base. -/
def digitValue? (base : Nat) (c : Char) : Option Nat :=
  (Json.hexValue? c).filter (· < base)

/-- The number that digits denote in a base, if there are any digits and all are below the base. -/
def digitsIn? (base : Nat) (cs : List Char) : Option Nat :=
  if cs.isEmpty then none
  else cs.foldlM (fun n c => (digitValue? base c).map (base * n + ·)) 0

/-- Splits a sign off the front of a text. -/
def splitSign : List Char → Bool × List Char
  | '-' :: cs => (true, cs)
  | '+' :: cs => (false, cs)
  | cs => (false, cs)

/-- A number with a sign. -/
def withSign (negative : Bool) (n : Int) : Int := if negative then -n else n

/-- The digits at the front of a numeral, if there are too many of them.  Only numerals whose base
is no power of two are limited in length. -/
def overlong (base : Nat) (cs : List Char) : Option LongNumeral :=
  let digits := cs.takeWhile fun c => (digitValue? base c).isSome
  if base == 10 && maxDigits < digits.length then some ⟨digits.length⟩ else none

/-- The letter that marks a base, behind a zero. -/
def baseLetter? (base : Nat) : Option Char :=
  [(2, 'b'), (8, 'o'), (16, 'x')].lookup base

/-- Digits without the mark of their base, if they have it. -/
def dropBaseMark (base : Nat) : List Char → List Char
  | '0' :: letter :: digits =>
    if baseLetter? base == some letter.toLower then digits else '0' :: letter :: digits
  | digits => digits

/-- The integer that a numeral denotes in a base, with blanks around it and a sign and a mark of
the base of its own.  Its digits may be those of any script. -/
def numeral (base : Nat) (cs : List Char) : Except BadScalar Int :=
  let (negative, unsigned) := splitSign (strip (cs.map asciiDigit))
  let digits := dropBaseMark base unsigned
  match overlong base digits with
  | some e => .error (.longNumeral e)
  | none =>
    match digitsIn? base digits with
    | some n => .ok (withSign negative n)
    | none => .error (.notAnInteger base (String.ofList cs))

/-- The integer of a text without a sign and underscores. -/
def unsignedInt (cs : List Char) : Except BadScalar Int :=
  match cs with
  | [] => .error .noNumeral
  | ['0'] => .ok 0
  | '0' :: 'b' :: digits => numeral 2 digits
  | '0' :: 'x' :: digits => numeral 16 digits
  | '0' :: _ => numeral 8 cs
  | _ =>
    if cs.contains ':' then do
      let parts ← (pieces (· == ':') cs).mapM (numeral 10)
      return parts.foldl (fun n part => 60 * n + part) 0
    else numeral 10 cs

/-- The integer of a text. -/
def intValue (text : String) : Except BadScalar Int :=
  let (negative, cs) := splitSign (text.toList.filter (· != '_'))
  (unsignedInt cs).map (withSign negative)

/-- The words for infinity, and for what is no number. -/
def specialWords : List (String × Binary64) :=
  [("inf", .infinite false), ("infinity", .infinite false), ("nan", .nan)]

/-- The floating-point number that a numeral without a sign denotes; digits on one side of the
point are enough. -/
def unsignedDecimal? (negative : Bool) (unsigned : List Char) : Option Binary64 :=
  let whole := unsigned.takeWhile Char.isDigit
  let (fraction, rest) := match unsigned.dropWhile Char.isDigit with
    | '.' :: rest => (rest.takeWhile Char.isDigit, rest.dropWhile Char.isDigit)
    | rest => ([], rest)
  let (exponentNegative, exponent, rest) := Json.takeExponent rest
  if (whole ++ fraction).isEmpty || !rest.isEmpty then none
  else
    let e : Int := withSign exponentNegative (digitsValue exponent)
    some (.ofDecimal negative (digitsValue (whole ++ fraction)) (e - fraction.length))

/-- The floating-point number that a numeral or a word denotes. -/
def decimal? (cs : List Char) : Option Binary64 :=
  let (negative, unsigned) := splitSign (strip (cs.map asciiDigit))
  match specialWords.lookup (String.ofList unsigned) with
  | some x => some (if negative then x.neg else x)
  | none => unsignedDecimal? negative unsigned

/-- The floating-point number of a decimal numeral. -/
def decimal (cs : List Char) : Except BadScalar Binary64 :=
  match decimal? cs with
  | some x => .ok x
  | none => .error (.notANumber (String.ofList cs))

/-- The number of parts that are sixty times smaller each, the last one first; sums and products
are rounded one by one. -/
def sexagesimal (parts : List Binary64) : Binary64 :=
  (parts.foldl (fun (sum, base) part =>
    (Binary64.add sum (part.mul (.ofRatio false base 1)), 60 * base))
    (Binary64.zero false, 1)).1

/-- The most parts that a floating-point number in parts may have. -/
def maxParts : Nat := 174

/-- The floating-point number of a text, with the node that it stands at.  The word for what is no
number always means the same. -/
def floatValue (node : Nat) (text : String) : Except BadScalar Value := do
  let word := lower (String.ofList (text.toList.filter (· != '_')))
  if word.isEmpty then throw .noNumeral
  let (negative, cs) := splitSign word.toList
  if cs == ".nan".toList then return .float .nan
  let x ←
    if cs == ".inf".toList then pure (Binary64.infinite false)
    else if cs.contains ':' then do
      let parts ← (pieces (· == ':') cs).mapM decimal
      if maxParts < parts.length then throw .tooManyParts
      pure (sexagesimal parts.reverse)
    else decimal cs
  if x = .nan then return .noNumber node
  return .float (if negative then x.neg else x)

/-! ## 3. Dates -/

/-- Every fourth year is a leap year, but of the full hundreds only every fourth. -/
def isLeapYear (year : Nat) : Bool := year % 4 == 0 && (year % 100 != 0 || year % 400 == 0)

/-- How many days a month has. -/
def daysInMonth (year month : Nat) : Nat :=
  if month == 2 then (if isLeapYear year then 29 else 28)
  else if [4, 6, 9, 11].contains month then 30
  else 31

/-- The day of that name, if there is one. -/
def Date.ofParts (year month day : Nat) : Except BadScalar Date :=
  if year == 0 then .error (.noSuchYear year)
  else if month == 0 || 12 < month then .error .noSuchMonth
  else if day == 0 || daysInMonth year month < day then .error .noSuchDay
  else .ok { year, month, day }

/-- Millionths from the digits behind a point. -/
def microseconds (fraction : List Char) : Nat :=
  digitsValue (fraction.take 6 ++ List.replicate (6 - fraction.length) '0')

/-- The date or the moment of a text that looks like one. -/
def TimeText.value (t : TimeText) : Except BadScalar Value := do
  let zone := t.zone.map fun (west, hours, minutes) =>
    withSign west ((60 * digitsValue hours + digitsValue minutes : Nat) : Int)
  if let some minutes := zone then
    if 24 * 60 ≤ minutes.natAbs then throw (.zoneTooFar minutes)
  let date ← Date.ofParts (digitsValue t.year) (digitsValue t.month) (digitsValue t.day)
  if t.hour.isEmpty then return .date date
  let hour := digitsValue t.hour
  let minute := digitsValue t.minute
  let second := digitsValue t.second
  if 23 < hour then throw .noSuchHour
  if 59 < minute then throw .noSuchMinute
  if 59 < second then throw .noSuchSecond
  return .moment { date, hour, minute, second, microsecond := microseconds t.fraction, zone }

/-- Days from the start of the calendar to the start of a year. -/
def daysBeforeYear (year : Nat) : Nat :=
  let y := year - 1
  365 * y + y / 4 - y / 100 + y / 400

/-- Days from the start of the calendar. -/
def Date.days (d : Date) : Nat :=
  (List.range (d.month - 1)).foldl (fun days m => days + daysInMonth d.year (m + 1))
    (daysBeforeYear d.year + d.day)

/-- Seconds from the start of the calendar in universal time; the fraction is left out. -/
def Moment.seconds (m : Moment) : Int :=
  ((m.date.days * 24 + m.hour) * 60 + m.minute : Nat) * 60 + m.second - 60 * m.zone.getD 0

/-! ## 4. Scalars -/

/-- A bad scalar as a problem. -/
def judged {α : Type} : Except BadScalar α → Result α
  | .ok a => .ok a
  | .error e => .error (.badScalar e)

/-- The bytes that a text in ASCII stands for. -/
def binaryValue? (text : String) : Option (List UInt8) :=
  if text.toList.all fun c => c.toNat < 128 then Base64.decode text.toList else none

/-- The value of a scalar at the node of that number. -/
def scalarValue (node : Nat) (tag : Tag) (text : String) : Result Value :=
  match tag with
  | .null => .ok .null
  | .string => .ok (.string text)
  | .int => (judged (intValue text)).map .int
  | .float => judged (floatValue node text)
  | .bool =>
    match boolWords.lookup (lower text) with
    | some b => .ok (.bool b)
    | none => .error (.badScalar (.noTruthValue (lower text)))
  | .timestamp =>
    match timeText? (dropLineFeed text).toList with
    | some t => judged t.value
    | none => .error (.badScalar .noDate)
  | .binary =>
    match binaryValue? text with
    | some content => .ok (.bytes content)
    | none => malformed
  | .sequence | .mapping | .set | .pairs | .merge | .valueKey | .unknown => malformed

/-! ## 5. Keys -/

namespace Value

/-- The number that a value is, if it is a whole one. -/
def integer? : Value → Option Int
  | bool b => some (if b then 1 else 0)
  | int n => some n
  | float x => x.toInt?
  | _ => none

/-- Two values are the same key of a mapping. -/
def sameKey (a b : Value) : Bool :=
  match a.integer?, b.integer? with
  | some m, some n => m == n
  | some _, none => false
  | none, some _ => false
  | none, none =>
    match a, b with
    | moment s, moment t =>
      if s.zone.isSome && t.zone.isSome then
        s.seconds == t.seconds && s.microsecond == t.microsecond
      else s == t
    | a, b => a == b

/-- A number in at least so many digits. -/
def padded (width n : Nat) : String :=
  let ds := Nat.toDigits 10 n
  String.ofList (List.replicate (width - ds.length) '0' ++ ds)

/-- Two parts with a colon between them. -/
def clock (a b : Nat) : String := padded 2 a ++ ":" ++ padded 2 b

/-- The distance to universal time as hours and minutes. -/
def zoneText (minutes : Int) : String :=
  (if minutes < 0 then "-" else "+") ++ clock (minutes.natAbs / 60) (minutes.natAbs % 60)

/-- A date as its year, month and day. -/
def dateText (d : Date) : String :=
  padded 4 d.year ++ "-" ++ padded 2 d.month ++ "-" ++ padded 2 d.day

/-- A moment as its date and its time of day. -/
def momentText (m : Moment) : String :=
  dateText m.date ++ " " ++ clock m.hour m.minute ++ ":" ++ padded 2 m.second
    ++ (if m.microsecond == 0 then "" else "." ++ padded 6 m.microsecond)
    ++ m.zone.elim "" zoneText

/-- A value as messages name it; strings are not quoted. -/
def shown : Value → String
  | null => "None"
  | bool b => Json.shownBool b
  | int n => toString n
  | float x => x.text
  | noNumber _ => Binary64.nan.text
  | date d => dateText d
  | moment m => momentText m
  | string s => s
  | bytes content => quotedBytes content
  | collection => "[...]"

end Value
end SchemaLang.Yaml
