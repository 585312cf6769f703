/-
# Decimal numerals

A numeral is a run of decimal digits.  Its value is read only up to a fixed number of digits,
leading zeros counted: a longer run is refused with its length, so that no text can ask for an
unbounded amount of arithmetic.  For the same reason an integer of more digits is not written.
-/

namespace SchemaLang.Text

/-- The most digits a numeral may have, leading zeros counted. -/
def maxDigits : Nat := 4300

/-- A numeral of more than `maxDigits` digits. -/
structure LongNumeral where
  digits : Nat
  deriving DecidableEq, Repr

/-- How an overlong numeral is reported. -/
def LongNumeral.message (e : LongNumeral) : String :=
  "Exceeds the limit (" ++ toString maxDigits
    ++ " digits) for integer string conversion: value has " ++ toString e.digits
    ++ " digits; use sys.set_int_max_str_digits() to increase the limit"

/-- How an integer is reported that would be written with more than `maxDigits` digits. -/
def longIntegerMessage : String :=
  "Exceeds the limit (" ++ toString maxDigits
    ++ " digits) for integer string conversion; use sys.set_int_max_str_digits() to increase"
    ++ " the limit"

/-- The number that a run of digits denotes. -/
def digitsValue (ds : List Char) : Nat :=
  ds.foldl (fun n d => 10 * n + (d.toNat - '0'.toNat)) 0

/-- Reads a run of digits, unless it is too long. -/
def readNumeral (ds : List Char) : Except LongNumeral Nat :=
  if maxDigits < ds.length then .error ⟨ds.length⟩ else .ok (digitsValue ds)

theorem digitsValue_append_singleton (ds : List Char) (d : Char) :
    digitsValue (ds ++ [d]) = 10 * digitsValue ds + (d.toNat - '0'.toNat) := by
  simp [digitsValue]

/-- A short numeral is always read. -/
theorem readNumeral_of_length_le {ds : List Char} (h : ds.length ≤ maxDigits) :
    readNumeral ds = .ok (digitsValue ds) := by
  simp [readNumeral, Nat.not_lt.mpr h]

end SchemaLang.Text
