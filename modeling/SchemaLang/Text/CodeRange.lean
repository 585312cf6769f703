/-
# Classes of characters by code points

A class of characters is listed as the closed ranges of its code points, in ascending order.
-/

namespace SchemaLang.Text

/-- Closed ranges of code points. -/
abbrev CodeRanges : Type := List (Nat × Nat)

/-- A character lies in one of the ranges. -/
def CodeRanges.has (ranges : CodeRanges) (c : Char) : Bool :=
  ranges.any fun r => r.1 ≤ c.toNat && c.toNat ≤ r.2

/-- A character lies in the ranges if it lies between the ends of one of them. -/
theorem CodeRanges.has_iff {ranges : CodeRanges} {c : Char} :
    ranges.has c = true ↔ ∃ r ∈ ranges, r.1 ≤ c.toNat ∧ c.toNat ≤ r.2 := by
  simp [has]

end SchemaLang.Text
