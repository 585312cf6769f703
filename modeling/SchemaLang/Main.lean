/-
# The command line

The words of the command line select check steps, which are listed with their commands in the
order in which they are to be run.
-/
import SchemaLang.CheckSteps

/-- Lists the selected steps; that there is none is a failure. -/
def main (words : List String) : IO UInt32 := do
  match SchemaLang.CheckStep.select words with
  | [] =>
    IO.println (SchemaLang.CheckStep.noMatchMessage words)
    return SchemaLang.CheckStep.noMatchCode
  | steps =>
    for step in steps do
      IO.println (step.name ++ ": " ++ " ".intercalate step.command)
    return 0
