/-
# From text to document

Reading a schema is scanning it and running the grammar over its tokens.  There are three ways
to fail: the scanner finds fault before the grammar has made up its mind, a numeral is too long,
or no alternative matches.  In the last case the report is made from the furthest miss: its
place, what stands there, and everything that was asked for there, each once and in the order of
the code points.

The tokens are a stream, so a fault behind the place where the grammar gives up is never seen.
-/
import SchemaLang.Grammar.Budget
import SchemaLang.Token.Scan

namespace SchemaLang

open Text Grammar

/-! ## 1. Reports -/

/-- No alternative matches: the furthest place that any of them reached, what stands there
(nothing at the end of the text), and what was asked for. -/
structure SyntaxError where
  pos : Position
  found : Option Lexeme
  expected : List Expectation
  deriving DecidableEq, Repr

/-- Puts a text into an ascending list, unless it is there already. -/
def insertText (s : String) : List String → List String
  | [] => [s]
  | t :: ts =>
    if s < t then s :: t :: ts
    else if s = t then t :: ts
    else t :: insertText s ts

namespace SyntaxError

/-- What was asked for, each description once and in ascending order. -/
def choices (e : SyntaxError) : List String :=
  (e.expected.map Expectation.describe).foldr insertText []

/-- What stands at the place of the error. -/
def foundText (e : SyntaxError) : String := describeFound e.found

/-- One choice by itself, several in a row. -/
def describeChoices : List String → String
  | [choice] => choice
  | choices => "one of " ++ ", ".intercalate choices

/-- The whole report, place first. -/
def message (e : SyntaxError) : String :=
  e.pos.render ++ ": Expected " ++ describeChoices e.choices ++ ", got " ++ e.foundText

/-- The report that a miss leads to. -/
def ofMiss (m : Miss) : SyntaxError := ⟨m.found.pos, m.found.lexeme, m.expected⟩

end SyntaxError

/-- Why a text is no schema. -/
inductive ParseError
  | lexical (e : LexicalError)
  | longNumeral (e : LongNumeral)
  | noMatch (e : SyntaxError)
  deriving DecidableEq, Repr

/-- The wording of a failure. -/
def ParseError.message : ParseError → String
  | lexical e => e.message
  | longNumeral e => e.message
  | noMatch e => e.message

/-- The place that a failure points at.  A numeral is judged by its length alone and points at
nothing. -/
def ParseError.pos? : ParseError → Option Position
  | lexical e => some e.pos
  | longNumeral _ => none
  | noMatch e => some e.pos

/-! ## 2. Reading -/

namespace Document

/-- The document that a stream of tokens makes. -/
def ofTokens (rules : Rules) (s : TokenStream) : Except ParseError Document :=
  match h : Grammar.document rules (s.size + 1) (.front s) with
  | .ok d _ _ => .ok d
  | .fail miss => .error (.noMatch (.ofMiss miss))
  | .interrupted (.lexical e) => .error (.lexical e)
  | .interrupted (.longNumeral e) => .error (.longNumeral e)
  | .exhausted => absurd h (document_ne_exhausted rules s)

/-- The document that a schema text makes in a dialect. -/
def parse (dialect : Dialect) (source : String) : Except ParseError Document :=
  ofTokens dialect.rules (scan dialect.rules source)

end Document
end SchemaLang
