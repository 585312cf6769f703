/-
# What is wrong with the marks of a text

Reading the marks judges no scalar by its type.  Besides the form of the text only numbers are
judged on the way, and there are two places for them: the code of an escaped character, and the
version in a directive (`BadScalar.InMarks`).

The readers of marks are put together from smaller ones and fail where one of those does, so what
`Marks.ofText` may report follows from what each reader adds by itself (`Faults`).
-/
import SchemaLang.Yaml.Layout

namespace SchemaLang.Yaml

/-- The bad scalars that are told without the type of any node. -/
inductive BadScalar.InMarks : BadScalar → Prop
  | codeTooLarge : InMarks .codeTooLarge
  | noSuchCharacter : InMarks .noSuchCharacter
  | longNumeral (e : Text.LongNumeral) : InMarks (.longNumeral e)

/-- A problem of marks: the text is malformed, or one of those scalars is bad. -/
inductive Problem.OfMarks : Problem → Prop
  | malformed : OfMarks .malformed
  | badScalar {e : BadScalar} (h : e.InMarks) : OfMarks (.badScalar e)

/-- A reader whose only problems are those of marks. -/
def Faults {α : Type} (r : Result α) : Prop := ∀ p, r = .error p → p.OfMarks

/-! ## 1. How readers are put together -/

section Faults

variable {α β : Type} {r : Result α}

theorem Faults.bind {f : α → Result β} (hr : Faults r) (hf : ∀ a, Faults (f a)) :
    Faults (r >>= f) := by
  intro p h
  cases r with
  | ok a => exact hf a p h
  | error q =>
    obtain rfl : q = p := Except.error.inj h
    exact hr q rfl

theorem Faults.map {f : α → β} (hr : Faults r) : Faults (r.map f) := by
  intro p h
  cases r with
  | ok a => exact absurd h (by simp [Except.map])
  | error q =>
    obtain rfl : q = p := Except.error.inj h
    exact hr q rfl

theorem Faults.ite {c : Prop} [Decidable c] {r' : Result α} (hr : Faults r) (hr' : Faults r') :
    Faults (if c then r else r') := by
  split
  · exact hr
  · exact hr'

end Faults

/-! ## 2. Scalars -/

namespace Layout

variable (s : Layout)

end Layout

end SchemaLang.Yaml
