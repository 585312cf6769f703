/-
# The shortest decimal text of a binary number

Every decimal numeral close enough to a binary number reads back as that number.  The text of a
number is the one with the fewest digits, and among those the nearest, and of two equally near
ones the even one (`shortest`).  On the grid
of numerals with a given number of digits, if any reads back then one of the two neighbours of
the number does, so only those two are tried, from one digit upwards; seventeen always suffice.

The layout of the digits is a matter of its own (`text`): plain notation with at least one place
behind the point for exponents from -4 to 15, and otherwise one digit before the point and an
exponent of at least two digits.
-/
import SchemaLang.Number.Binary64

namespace SchemaLang.Binary64

/-! ## 1. The interval that reads back -/

/-- A positive number and the numbers around it that read back as it, all over one denominator.
The ends belong to it if the significand is even. -/
structure Interval where
  low : Nat
  value : Nat
  high : Nat
  den : Nat
  closed : Bool

/-- The interval of a number.  It reaches half way to the neighbours, and the lower neighbour of
a power of two is only half as far away as the upper one. -/
def interval (m : Nat) (e : Int) : Interval :=
  let below := if m == twoTo 52 && minExponent < e then 1 else 2
  let (unit, den) := scaled 1 1 (2 - e)
  ⟨(4 * m - below) * unit, 4 * m * unit, (4 * m + 2) * unit, den, m % 2 == 0⟩

/-- The numeral `c / scale` lies in the interval. -/
def Interval.holds (i : Interval) (c scale : Nat) : Bool :=
  if i.closed then i.low * scale ≤ c * i.den && c * i.den ≤ i.high * scale
  else i.low * scale < c * i.den && c * i.den < i.high * scale

/-! ## 2. The digits -/

/-- The position of the point: the least `p` for which the value is below `10 ^ p`. -/
def pointPosition (i : Interval) : Int :=
  (digitCount (i.value * tenTo 400 / i.den) : Int) - 400

/-- The interval with its values multiplied by a power of ten. -/
def Interval.timesTen (i : Interval) (e : Int) : Interval :=
  if 0 ≤ e then
    { i with low := i.low * tenTo e.toNat, value := i.value * tenTo e.toNat,
             high := i.high * tenTo e.toNat }
  else { i with den := i.den * tenTo e.natAbs }

/-- The whole number that reads back, among the two around the value of the interval; the nearer
one if both do, and of two equally near ones the even one. -/
def Interval.neighbour? (i : Interval) : Option Nat :=
  let c := i.value / i.den
  match i.holds c 1, i.holds (c + 1) 1 with
  | true, true => some (roundHalfEven i.value i.den)
  | true, false => some c
  | false, true => some (c + 1)
  | false, false => none

/-- Tries numerals of one digit, of two digits and so on, `tries` times in all. -/
def firstNumeral (i : Interval) (p : Int) : (digits tries : Nat) → Nat × Int
  | digits, 0 =>
    let scaled := i.timesTen (digits - p)
    (scaled.value / scaled.den, p - digits)
  | digits, tries + 1 =>
    match (i.timesTen (digits - p)).neighbour? with
    | some c => (c, p - digits)
    | none => firstNumeral i p (digits + 1) tries

/-- Drops the zeros at the end of a list of digits and counts them. -/
def dropZeros (ds : List Char) : List Char × Nat :=
  let zeros := (ds.reverse.takeWhile (· == '0')).length
  (ds.take (ds.length - zeros), zeros)

/-- The digits of the shortest numeral of a positive number, the last one not zero, and the
position of the point in front of the first one. -/
def shortest (m : Nat) (e : Int) : List Char × Int :=
  let i := interval m e
  let (c, e10) := firstNumeral i (pointPosition i) 1 17
  let ds := Nat.toDigits 10 c
  ((dropZeros ds).1, ds.length + e10)

/-! ## 3. The layout -/

/-- An exponent of at least two digits with its sign. -/
def exponentText (e : Int) : List Char :=
  let ds := Nat.toDigits 10 e.natAbs
  (if e < 0 then '-' else '+') :: (if ds.length < 2 then '0' :: ds else ds)

/-- Digits with the point at a position counted from in front of the first one. -/
def layout (ds : List Char) (point : Int) : List Char :=
  if point ≤ -4 || 16 < point then
    match ds with
    | [] => []
    | [d] => d :: 'e' :: exponentText (point - 1)
    | d :: rest => d :: '.' :: rest ++ 'e' :: exponentText (point - 1)
  else if point ≤ 0 then '0' :: '.' :: List.replicate point.natAbs '0' ++ ds
  else
    let whole := ds.take point.toNat
    let fraction := ds.drop point.toNat
    whole ++ List.replicate (point.toNat - whole.length) '0'
      ++ '.' :: (if fraction.isEmpty then ['0'] else fraction)

/-- The text of a number. -/
def text : Binary64 → String
  | nan => "nan"
  | infinite negative => if negative then "-inf" else "inf"
  | finite negative m e =>
    let digits := if m == 0 then "0.0".toList else
      let (ds, point) := shortest m e
      layout ds point
    String.ofList (if negative then '-' :: digits else digits)

example : (ofDecimal false 15 2).text = "1500.0" := by decide +kernel
example : (ofDecimal true 1 16).text = "-1e+16" := by decide +kernel
example : (ofDecimal false 1 (-5)).text = "1e-05" := by decide +kernel
example : (ofDecimal false 3 (-324)).text = "5e-324" := by decide +kernel
example : (ofDecimal false 9373799190535998 (-1)).text = "937379919053599.8" := by decide +kernel
example : (ofDecimal false 30000000000000004 (-17)).text = "0.30000000000000004" := by
  decide +kernel

end SchemaLang.Binary64
