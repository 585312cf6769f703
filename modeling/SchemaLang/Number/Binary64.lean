/-
# Binary floating-point numbers

Interchange texts may hold numbers with a point or an exponent.  They are kept in the binary
format of 53 significant bits: a sign, a significand and a power of two, besides the two
infinities and the value that is no number.  Everything here is exact arithmetic on natural
numbers; a value that does not fit the format goes to the nearest one that does, and halfway
between two of them to the one with the even significand (`roundHalfEven`).

The exponent never goes below `minExponent`; from `maxExponent` on, what is too large for the
format is infinite.
-/
import SchemaLang.Number.Power

namespace SchemaLang

/-- A binary floating-point number; a finite one is plus or minus `significand * 2 ^ exponent`. -/
inductive Binary64
  | nan
  | infinite (negative : Bool)
  | finite (negative : Bool) (significand : Nat) (exponent : Int)
  deriving DecidableEq, Repr

namespace Binary64

/-! ## 1. Rounding -/

/-- The exponent of the smallest numbers. -/
def minExponent : Int := -1074

/-- The exponent of the largest numbers. -/
def maxExponent : Int := 971

/-- Significands lie below this power of two. -/
def significandLimit : Nat := twoTo 53

/-- The natural number nearest to a quotient; of two that are equally near, the even one. -/
def roundHalfEven (num den : Nat) : Nat :=
  let q := num / den
  let r := num % den
  if den < 2 * r || (2 * r == den && q % 2 == 1) then q + 1 else q

/-- Zero with a sign. -/
def zero (negative : Bool) : Binary64 := finite negative 0 minExponent

/-- The quotient `num / (den * 2 ^ e)` as a pair of natural numbers. -/
def scaled (num den : Nat) (e : Int) : Nat × Nat :=
  if e < 0 then (num * twoTo e.natAbs, den) else (num, den * twoTo e.toNat)

/-- A significand and an exponent, once the significand has been rounded. -/
def ofRounded (negative : Bool) (m : Nat) (e : Int) : Binary64 :=
  let (m, e) := if significandLimit ≤ m then (m / 2, e + 1) else (m, e)
  if maxExponent < e then infinite negative else finite negative m e

/-- The number nearest to a quotient of natural numbers. -/
def ofRatio (negative : Bool) (num den : Nat) : Binary64 :=
  if num == 0 then zero negative
  else
    let guess : Int := max ((num.log2 : Int) - den.log2 - 53) minExponent
    let (n, d) := scaled num den guess
    if n / d < significandLimit then ofRounded negative (roundHalfEven n d) guess
    else
      let (n, d) := scaled num den (guess + 1)
      ofRounded negative (roundHalfEven n d) (guess + 1)

/-- The number nearest to `m * 2 ^ e`. -/
def ofDyadic (negative : Bool) (m : Nat) (e : Int) : Binary64 :=
  if e < 0 then ofRatio negative m (twoTo e.natAbs) else ofRatio negative (m * twoTo e.toNat) 1

/-! ## 2. Decimal numerals -/

/-- How many decimal digits a natural number has; zero has one. -/
def digitCount (n : Nat) : Nat := (Nat.toDigits 10 n).length

/-- The number nearest to `coefficient * 10 ^ e`.  Powers of ten far outside of the format are
not computed. -/
def ofDecimal (negative : Bool) (coefficient : Nat) (e : Int) : Binary64 :=
  let magnitude : Int := digitCount coefficient + e
  if coefficient == 0 || magnitude < -400 then zero negative
  else if 400 < magnitude then infinite negative
  else if e < 0 then ofRatio negative coefficient (tenTo e.natAbs)
  else ofRatio negative (coefficient * tenTo e.toNat) 1

/-! ## 3. Whole numbers -/

/-- The integer that a finite number is, if it is one. -/
def toInt? : Binary64 → Option Int
  | finite negative m e =>
    let sign (n : Nat) : Int := if negative then -(n : Int) else n
    if 0 ≤ e then some (sign (m * twoTo e.toNat))
    else if m % twoTo e.natAbs == 0 then some (sign (m / twoTo e.natAbs))
    else none
  | _ => none

/-! ## 4. Arithmetic -/

/-- A finite number as a signed integer times a power of two. -/
def signed (negative : Bool) (m : Nat) : Int := if negative then -(m : Int) else m

/-- The nearest number to the sum of two; a sum with the value that is no number, or of unlike
infinities, is no number. -/
def add : Binary64 → Binary64 → Binary64
  | nan, _ => nan
  | _, nan => nan
  | infinite a, infinite b => if a == b then infinite a else nan
  | infinite a, finite _ _ _ => infinite a
  | finite _ _ _, infinite b => infinite b
  | finite s m e, finite t n f =>
    let low := min e f
    let sum := signed s m * twoTo (e - low).toNat + signed t n * twoTo (f - low).toNat
    ofDyadic (sum < 0 || (sum == 0 && s && t)) sum.natAbs low

/-- The nearest number to the product of two. -/
def mul : Binary64 → Binary64 → Binary64
  | nan, _ => nan
  | _, nan => nan
  | infinite a, infinite b => infinite (a != b)
  | infinite a, finite t n _ => if n == 0 then nan else infinite (a != t)
  | finite s m _, infinite b => if m == 0 then nan else infinite (s != b)
  | finite s m e, finite t n f => ofDyadic (s != t) (m * n) (e + f)

/-- The same number with the other sign. -/
def neg : Binary64 → Binary64
  | nan => nan
  | infinite a => infinite !a
  | finite a m e => finite (!a) m e

example : ofDecimal false 15 (-1) = finite false (3 * 2 ^ 51) (-52) := by decide +kernel
example : ofDecimal true 5 (-324) = finite true 1 (-1074) := by decide +kernel
example : ofDecimal false 1 400 = infinite false := by decide +kernel
example : (ofDecimal false 1 18).toInt? = some (10 ^ 18) := by decide +kernel

end Binary64
end SchemaLang
