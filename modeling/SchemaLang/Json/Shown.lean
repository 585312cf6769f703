/-
# Values in messages

A message that refers to a value shows it in the notation of messages and not in that of
interchange texts: strings are quoted as in every other message, the words for nothing, true and
false are capitalised, floating-point numbers have their shortest text, and commas and colons
carry a blank.
-/
import SchemaLang.Json
import SchemaLang.Number.Shortest
import SchemaLang.Text.Quoted

namespace SchemaLang.Json

open Text

/-- The words for the two truth values. -/
def shownBool (b : Bool) : String := if b then "True" else "False"

mutual

/-- A value as messages show it. -/
def shown : Json → String
  | null => "None"
  | bool b => shownBool b
  | int n => toString n
  | float x => x.text
  | string s => quoted s
  | array items => "[" ++ ", ".intercalate (shownItems items) ++ "]"
  | object members => "\x7b" ++ ", ".intercalate (shownMembers members) ++ "\x7d"
termination_by structural j => j

/-- The items of an array one by one. -/
def shownItems : List Json → List String
  | [] => []
  | v :: vs => shown v :: shownItems vs
termination_by structural js => js

/-- The members of an object one by one. -/
def shownMembers : List (String × Json) → List String
  | [] => []
  | (k, v) :: ms => (quoted k ++ ": " ++ shown v) :: shownMembers ms
termination_by structural ms => ms

end

end SchemaLang.Json
