/-
# Walking over a settings text

A cursor is the rest of a text together with the line and the column where the rest starts and
the number of characters in front of it, all counted from zero.  Columns matter, because blocks
are told apart by their indentation.

There are six line breaks: the line feed, the carriage return, the two together, the next-line
control, and the line and paragraph separators.  The last two are kept as they are when lines
are joined, and the others all count as a line feed.
-/

namespace SchemaLang.Yaml

/-! ## 1. Classes of characters -/

/-- The characters that end a line. -/
def isBreak (c : Char) : Bool :=
  c == '\n' || c == '\r' || c == '\u0085' || c == '\u2028' || c == '\u2029'

/-- The characters that a text may hold at all. -/
def isPrintable (c : Char) : Bool :=
  let n := c.toNat
  n == 0x09 || n == 0x0A || n == 0x0D || (0x20 ≤ n && n ≤ 0x7E) || n == 0x85
    || (0xA0 ≤ n && n ≤ 0xD7FF) || (0xE000 ≤ n && n ≤ 0xFFFD) || 0x10000 ≤ n

/-- The end of the text or of a line. -/
def endsLine : Option Char → Bool
  | none => true
  | some c => isBreak c

/-- The end of the text or of a line, or a space. -/
def endsWord (c : Option Char) : Bool := c == some ' ' || endsLine c

/-- The end of the text or of a line, a space or a tab. -/
def endsMark (c : Option Char) : Bool := c == some '\t' || endsWord c

/-- The characters of names. -/
def isNameChar (c : Char) : Bool := c.isAlphanum || c == '-' || c == '_'

/-! ## 2. Cursors -/

/-- The rest of a text and where it starts. -/
structure Cursor where
  rest : List Char
  index : Nat
  line : Nat
  column : Nat
  deriving DecidableEq, Repr

namespace Cursor

/-- The start of a text. -/
def start (cs : List Char) : Cursor := ⟨cs, 0, 0, 0⟩

/-- The character some way ahead, if the text is long enough. -/
def peek (c : Cursor) (ahead : Nat) : Option Char := c.rest[ahead]?

/-- Behind the next character.  A carriage return in front of a line feed does not end the line
by itself, and a byte order mark has no width. -/
def next (c : Cursor) : Cursor :=
  match c.rest with
  | [] => c
  | d :: rest =>
    if isBreak d && !(d == '\r' && rest.head? == some '\n') then ⟨rest, c.index + 1, c.line + 1, 0⟩
    else if d == '\uFEFF' then ⟨rest, c.index + 1, c.line, c.column⟩
    else ⟨rest, c.index + 1, c.line, c.column + 1⟩

/-- Behind a number of characters. -/
def skip (c : Cursor) : Nat → Cursor
  | 0 => c
  | n + 1 => c.next.skip n

/-- The characters of a class at the cursor, and the cursor behind them. -/
def span (c : Cursor) (p : Char → Bool) : List Char × Cursor :=
  let run := c.rest.takeWhile p
  (run, c.skip run.length)

/-- Behind the characters of a class. -/
def skipWhile (c : Cursor) (p : Char → Bool) : Cursor := (c.span p).2

/-- The line break at the cursor, and the cursor behind it. -/
def lineBreak? (c : Cursor) : Option (Char × Cursor) :=
  match c.rest with
  | '\r' :: '\n' :: _ => some ('\n', c.skip 2)
  | d :: _ =>
    if d == '\u2028' || d == '\u2029' then some (d, c.next)
    else if isBreak d then some ('\n', c.next)
    else none
  | [] => none

/-- Behind a comment, if one starts here, and in front of the end of its line. -/
def skipComment (c : Cursor) : Cursor :=
  if c.peek 0 == some '#' then c.skipWhile (!isBreak ·) else c

/-- A mark of three equal characters that stands by itself. -/
def atTriple (c : Cursor) (d : Char) : Bool :=
  c.peek 0 == some d && c.peek 1 == some d && c.peek 2 == some d && endsMark (c.peek 3)

/-- The start or the end of a document, if the cursor is at the start of a line. -/
def atDocumentMark (c : Cursor) : Bool := c.atTriple '-' || c.atTriple '.'

/-- Behind the rest of a line that may hold blanks and a comment, and nothing else. -/
def skipLineRest? (c : Cursor) : Option Cursor :=
  let c := (c.skipWhile (· == ' ')).skipComment
  match c.lineBreak? with
  | some (_, behind) => some behind
  | none => if c.rest.isEmpty then some c else none

/-- How much text is left. -/
def left (c : Cursor) : Nat := c.rest.length

end Cursor
end SchemaLang.Yaml
