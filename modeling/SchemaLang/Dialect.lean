/-
# The two dialects

A schema is read in one of two dialects.  The legacy dialect is the looser one about syntax
values, empty documents, nested enumerations and bracketed options; the strict dialect is the
looser one only about repeated import modifiers.  The two also disagree about who owns the line
break behind a comment, which is the one difference that the scanner sees.

`Rules` lists every point where the dialects part.  The scanner and the grammar ask the rules and
never the dialect, so whatever the rules leave alone is common to both.
-/

namespace SchemaLang

/-- The variants of the language. -/
inductive Dialect
  | legacy
  | strict
  deriving DecidableEq, Repr

/-- Every point at which the dialects part. -/
structure Rules where
  /-- The values a syntax statement may name, or `none` where any name will do. -/
  syntaxValues : Option (List String)
  /-- A document may hold neither a statement nor a line break. -/
  allowsEmptyDocument : Bool
  /-- A comment takes the line break behind it along.  Otherwise the break stays, and must be
  there: a comment cannot end the text. -/
  commentTakesLineBreak : Bool
  /-- `public` may be written more than once in an import. -/
  repeatsImportModifier : Bool
  /-- Enumerations may stand inside messages. -/
  nestsEnumerations : Bool
  /-- Fields may carry bracketed options. -/
  fieldOptions : Bool
  /-- The entries of an enumeration may carry bracketed options. -/
  entryOptions : Bool
  deriving DecidableEq, Repr

namespace Dialect

/-- The name by which settings choose a dialect. -/
def name : Dialect → String
  | legacy => "legacy"
  | strict => "strict"

/-- All dialects, in the order in which messages list them. -/
def all : List Dialect := [legacy, strict]

/-- The dialect of that very name. -/
def ofName? (s : String) : Option Dialect := all.find? (·.name == s)

/-- The dialect that applies where none is chosen. -/
def default : Dialect := strict

/-- What the dialect allows. -/
def rules : Dialect → Rules
  | legacy =>
    { syntaxValues := none
      allowsEmptyDocument := true
      commentTakesLineBreak := true
      repeatsImportModifier := false
      nestsEnumerations := true
      fieldOptions := true
      entryOptions := true }
  | strict =>
    { syntaxValues := some ["proto2", "proto3"]
      allowsEmptyDocument := false
      commentTakesLineBreak := false
      repeatsImportModifier := true
      nestsEnumerations := false
      fieldOptions := false
      entryOptions := false }

theorem mem_all (d : Dialect) : d ∈ all := by cases d <;> decide

theorem ofName?_name (d : Dialect) : ofName? d.name = some d := by cases d <;> decide

theorem name_of_ofName? {s : String} {d : Dialect} (h : ofName? s = some d) : d.name = s := by
  simpa using List.find?_some h

/-- A dialect is known by its rules. -/
theorem rules_injective {d e : Dialect} (h : d.rules = e.rules) : d = e := by
  revert h
  cases d <;> cases e <;> decide

end Dialect
end SchemaLang
