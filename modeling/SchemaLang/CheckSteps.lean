/-
# Check steps

The checks that a change to the project has to pass are run as named commands, in a fixed order.
A run may be narrowed down by words: a step takes part if its name starts with one of them, upper
and lower case being the same.
-/
import SchemaLang.Text.Case

namespace SchemaLang

open Text

/-- A named command. -/
structure CheckStep where
  name : String
  command : List String
  deriving DecidableEq, Repr

namespace CheckStep

/-- Every step, in the order in which they are run. -/
def all : List CheckStep := [
  ⟨"Format check", ["uv", "run", "ruff", "format", "--check", "src/", "tests/"]⟩,
  ⟨"Lint", ["uv", "run", "ruff", "check", "src/", "tests/"]⟩,
  ⟨"Type check", ["uv", "run", "ty", "check", "src/"]⟩,
  ⟨"Tests", ["uv", "run", "pytest", "--cov=protoidl", "--cov-report=term-missing"]⟩,
  ⟨"Build", ["uv", "build"]⟩]

/-- The name of the step starts with the word, in lower case both. -/
def matchesWord (step : CheckStep) (word : String) : Bool :=
  (lower word).toList.isPrefixOf (lower step.name).toList

/-- The steps that some word matches; without words, all of them. -/
def select (words : List String) : List CheckStep :=
  if words.isEmpty then all else all.filter fun step => words.any step.matchesWord

/-- The line printed when no step is left. -/
def noMatchMessage (words : List String) : String :=
  "No CI step matches: " ++ ", ".intercalate words

/-- The exit code when no step is left. -/
def noMatchCode : UInt32 := 2

/-- The selected steps are steps, in the order in which they are run. -/
theorem select_sublist (words : List String) : (select words).Sublist all := by
  unfold select
  split
  · exact List.Sublist.refl _
  · exact List.filter_sublist

end CheckStep
end SchemaLang
