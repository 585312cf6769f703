/-
# Lexemes

A lexeme is one indivisible piece of a schema text: a keyword, a mark, a string, a run of digits,
a name, or a line break.  What the text looked like is kept where it matters: a string keeps what
stood between its quotes, an integer keeps its digits, and a line break is the same lexeme however
it was written.

Words are split by their spelling alone: a word is a keyword exactly when it is spelled like one
(`ofWord`), and whether a keyword may serve as a name is for the grammar to say.
-/

namespace SchemaLang

/-! ## 1. Keywords -/

/-- The words the language gives a meaning to. -/
inductive Keyword
  | kwSyntax | kwPackage | kwImport | kwPublic | kwOption | kwMessage | kwEnum
  | kwRequired | kwOptional | kwRepeated
  | kwMap | kwInt32 | kwInt64 | kwString | kwBoolean
  | kwTrue | kwFalse
  deriving DecidableEq, Repr

namespace Keyword

/-- How a keyword is spelled. -/
def text : Keyword → String
  | kwSyntax => "syntax"
  | kwPackage => "package"
  | kwImport => "import"
  | kwPublic => "public"
  | kwOption => "option"
  | kwMessage => "message"
  | kwEnum => "enum"
  | kwRequired => "required"
  | kwOptional => "optional"
  | kwRepeated => "repeated"
  | kwMap => "map"
  | kwInt32 => "int32"
  | kwInt64 => "int64"
  | kwString => "string"
  | kwBoolean => "boolean"
  | kwTrue => "true"
  | kwFalse => "false"

/-- Every keyword once. -/
def all : List Keyword :=
  [kwSyntax, kwPackage, kwImport, kwPublic, kwOption, kwMessage, kwEnum, kwRequired, kwOptional,
    kwRepeated, kwMap, kwInt32, kwInt64, kwString, kwBoolean, kwTrue, kwFalse]

/-- The keyword of that spelling. -/
def ofText? (s : String) : Option Keyword := all.find? (·.text == s)

theorem mem_all (k : Keyword) : k ∈ all := by cases k <;> decide

theorem ofText?_text (k : Keyword) : ofText? k.text = some k := by cases k <;> decide

theorem text_of_ofText? {s : String} {k : Keyword} (h : ofText? s = some k) : k.text = s := by
  simpa using List.find?_some h

theorem text_injective {j k : Keyword} (h : j.text = k.text) : j = k := by
  have hj := ofText?_text j
  rw [h, ofText?_text k] at hj
  exact (Option.some.inj hj).symm

end Keyword

/-! ## 2. Marks -/

/-- The punctuation of the language; each mark is a single character. -/
inductive Punct
  | lbrace | rbrace | lbracket | rbracket | lparen | rparen | langle | rangle
  | equals | semicolon | comma | dot
  deriving DecidableEq, Repr

namespace Punct

/-- The character of a mark. -/
def char : Punct → Char
  | lbrace => '{'
  | rbrace => '}'
  | lbracket => '['
  | rbracket => ']'
  | lparen => '('
  | rparen => ')'
  | langle => '<'
  | rangle => '>'
  | equals => '='
  | semicolon => ';'
  | comma => ','
  | dot => '.'

/-- Every mark once. -/
def all : List Punct :=
  [lbrace, rbrace, lbracket, rbracket, lparen, rparen, langle, rangle, equals, semicolon, comma,
    dot]

/-- The mark of that character. -/
def ofChar? (c : Char) : Option Punct := all.find? (·.char == c)

theorem ofChar?_char (p : Punct) : ofChar? p.char = some p := by cases p <;> decide

theorem char_of_ofChar? {c : Char} {p : Punct} (h : ofChar? c = some p) : p.char = c := by
  simpa using List.find?_some h

theorem char_injective {p q : Punct} (h : p.char = q.char) : p = q := by
  have hp := ofChar?_char p
  rw [h, ofChar?_char q] at hp
  exact (Option.some.inj hp).symm

end Punct

/-! ## 3. Lexemes -/

/-- One indivisible piece of a schema text. -/
inductive Lexeme
  | keyword (k : Keyword)
  | punct (p : Punct)
  /-- The text between two double quotes; no character in it has a meaning of its own. -/
  | string (text : String)
  /-- A run of decimal digits, kept as written. -/
  | integer (digits : String)
  /-- A name that is no keyword. -/
  | identifier (name : String)
  | newline
  deriving DecidableEq, Repr

namespace Lexeme

/-- The lexeme that a whole word makes. -/
def ofWord (s : String) : Lexeme :=
  match Keyword.ofText? s with
  | some k => keyword k
  | none => identifier s

/-- What a lexeme stands for as text: a string without its quotes, a line break as a line feed. -/
def text : Lexeme → String
  | keyword k => k.text
  | punct p => String.singleton p.char
  | string s => s
  | integer ds => ds
  | identifier s => s
  | newline => "\n"

/-- The name a lexeme may serve as: keywords are reserved nowhere that a name is asked for. -/
def name? : Lexeme → Option String
  | keyword k => some k.text
  | identifier s => some s
  | _ => none

theorem name?_ofWord (s : String) : (ofWord s).name? = some s := by
  unfold ofWord
  split
  · next h => exact congrArg some (Keyword.text_of_ofText? h)
  · rfl

theorem ofWord_text (k : Keyword) : ofWord k.text = keyword k := by
  simp [ofWord, Keyword.ofText?_text]

end Lexeme
end SchemaLang
