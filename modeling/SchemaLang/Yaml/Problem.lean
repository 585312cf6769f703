/-
# What can be wrong with a settings text

Settings are written in a small subset of YAML.  A text that is not well formed is refused
without telling where or why (`malformed`).  Beside that a scalar may look like a number or a
date and yet denote none; those are told one by one (`BadScalar`).
-/
import SchemaLang.Text.Numeral
import SchemaLang.Text.Quoted

namespace SchemaLang.Yaml

open Text

/-- A scalar that looks like something it is not, or is tagged as something it is not. -/
inductive BadScalar
  | longNumeral (e : LongNumeral)
  /-- Nothing where a number has to be. -/
  | noNumeral
  | noTruthValue (word : String)
  | noDate
  /-- A mapping where a date has to be. -/
  | mappingForDate
  | notAnInteger (base : Nat) (text : String)
  | notANumber (text : String)
  /-- A floating-point number in so many parts that the unit of the first is beyond all of them. -/
  | tooManyParts
  | noSuchYear (year : Nat)
  | noSuchMonth
  | noSuchDay
  | noSuchHour
  | noSuchMinute
  | noSuchSecond
  /-- A distance to universal time of a day or more. -/
  | zoneTooFar (minutes : Int)
  | noSuchCharacter
  /-- A code point beyond 32 bits with a sign. -/
  | codeTooLarge
  /-- An integer of more than `maxDigits` digits that would have to be written out. -/
  | longInteger
  deriving DecidableEq, Repr

/-- How much of a quoted text is shown in place of an integer. -/
def shownLength : Nat := 200

/-- A number of minutes as days and seconds; parts that are zero are left out. -/
def durationText (minutes : Int) : String :=
  let days := minutes / 1440
  let seconds := 60 * (minutes % 1440)
  let parts := (if days = 0 then [] else ["days=" ++ toString days])
    ++ (if seconds = 0 then [] else ["seconds=" ++ toString seconds])
  "datetime.timedelta(" ++ ", ".intercalate parts ++ ")"

/-- The wording of a bad scalar. -/
def BadScalar.message : BadScalar → String
  | longNumeral e => e.message
  | notAnInteger base text =>
    "invalid literal for int() with base " ++ toString base ++ ": "
      ++ String.ofList ((quoted text).toList.take shownLength)
  | noNumeral => "string index out of range"
  | noTruthValue word => quoted word
  | noDate => "'NoneType' object has no attribute 'groupdict'"
  | mappingForDate => "expected string or bytes-like object, got 'list'"
  | notANumber text => "could not convert string to float: " ++ quoted text
  | tooManyParts => "int too large to convert to float"
  | noSuchYear year => "year " ++ toString year ++ " is out of range"
  | noSuchMonth => "month must be in 1..12"
  | noSuchDay => "day is out of range for month"
  | noSuchHour => "hour must be in 0..23"
  | noSuchMinute => "minute must be in 0..59"
  | noSuchSecond => "second must be in 0..59"
  | zoneTooFar minutes =>
    "offset must be a timedelta strictly between -timedelta(hours=24) and timedelta(hours=24), not "
      ++ durationText minutes ++ "."
  | noSuchCharacter => "chr() arg not in range(0x110000)"
  | codeTooLarge => "Python int too large to convert to C int"
  | longInteger => longIntegerMessage

/-- Why a text has no content. -/
inductive Problem
  | malformed
  | badScalar (e : BadScalar)
  deriving DecidableEq, Repr

/-- A result, or a problem. -/
abbrev Result (α : Type) := Except Problem α

/-- The text is not well formed. -/
def malformed {α : Type} : Result α := .error .malformed

end SchemaLang.Yaml
