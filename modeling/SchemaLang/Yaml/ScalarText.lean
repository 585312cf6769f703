/-
# The texts of scalars

A scalar is written in one of three ways.  A plain one has no marks around it and ends where
something else must start; a quoted one runs to its closing quote; a block one is made of the
indented lines below its header.  In all three a line break between two words becomes one space,
more of them stay one less than there were, and a block may also keep all of its lines.

The loops below go on while they take something; none of them can do otherwise, so the branch for
that case is never used.
-/
import SchemaLang.Json.Read
import SchemaLang.Yaml.Cursor
import SchemaLang.Yaml.Problem

namespace SchemaLang.Yaml

/-! ## 1. Joined lines -/

/-- What stands for a line break and the empty lines behind it. -/
def foldBreaks (first : Char) (more : List Char) : List Char :=
  (if first != '\n' then [first] else if more.isEmpty then [' '] else []) ++ more

/-! ## 2. Plain scalars -/

/-- A character, with the one behind it, that a plain scalar cannot hold. -/
def endsPlain (inFlow : Bool) (c : Char) (behind : Option Char) : Bool :=
  endsMark (some c)
    || (c == ':' && (endsMark behind || (inFlow && behind.any ",[]\x7b\x7d".toList.contains)))
    || (inFlow && ",?[]\x7b\x7d".toList.contains c)

/-- The part of a plain scalar at the front of a text that holds no space. -/
def plainWord (inFlow : Bool) : List Char → List Char
  | [] => []
  | c :: cs => if endsPlain inFlow c cs.head? then [] else c :: plainWord inFlow cs

/-- Empty lines and the spaces in front of the next word; none if a document starts or ends
there. -/
def emptyLines (c : Cursor) (breaks : List Char) : Option (List Char) × Cursor :=
  let c' := c.skipWhile (· == ' ')
  match c'.lineBreak? with
  | none => (some breaks, c')
  | some (b, behind) =>
    if behind.atDocumentMark then (none, behind)
    else if _h : behind.left < c.left then emptyLines behind (breaks ++ [b])
    else (none, behind)
termination_by c.left

/-- What separates two words of a plain scalar, nothing if the scalar ends here; whether a line
ended; and the cursor behind it. -/
def plainSpaces (c : Cursor) : List Char × Bool × Cursor :=
  let (spaces, c') := c.span (· == ' ')
  match c'.lineBreak? with
  | none => (spaces, false, c')
  | some (b, behind) =>
    if behind.atDocumentMark then ([], true, behind)
    else match emptyLines behind [] with
    | (none, c'') => ([], true, c'')
    | (some breaks, c'') => (foldBreaks b breaks, true, c'')

/-- A scalar: its text, the cursor behind it, and whether the last thing taken was a line break.
-/
structure PlainText where
  text : List Char
  behind : Cursor
  endedLine : Bool

/-- A plain scalar in a block indented by less than `indent`, with the text found so far and what
separates it from the next word. -/
def plainFrom (inFlow : Bool) (indent : Int) (c : Cursor) (text spaces : List Char)
    (endedLine : Bool) : PlainText :=
  let word := plainWord inFlow c.rest
  if c.peek 0 == some '#' || word.isEmpty then ⟨text, c, endedLine⟩
  else
    let (spaces', ended, c') := plainSpaces (c.skip word.length)
    let text' := text ++ spaces ++ word
    if spaces'.isEmpty || c'.peek 0 == some '#' || (!inFlow && (c'.column : Int) < indent) then
      ⟨text', c', ended⟩
    else if _h : c'.left < c.left then plainFrom inFlow indent c' text' spaces' ended
    else ⟨text', c', ended⟩
termination_by c.left

/-! ## 3. Quoted scalars -/

/-- The empty lines behind a line break in a quoted scalar, and the blanks in front of the next
word.  A document may neither start nor end there. -/
def quotedBreaks (c : Cursor) (breaks : List Char) : Result (List Char × Cursor) :=
  if c.atDocumentMark then malformed
  else
    let c' := c.skipWhile fun d => d == ' ' || d == '\t'
    match c'.lineBreak? with
    | none => .ok (breaks, c')
    | some (b, behind) =>
      if _h : behind.left < c.left then quotedBreaks behind (breaks ++ [b]) else malformed
termination_by c.left

/-- Blanks in a quoted scalar, or the line break that they stand in front of. -/
def quotedSpaces (c : Cursor) : Result (List Char × Cursor) :=
  let (blanks, c') := c.span fun d => d == ' ' || d == '\t'
  match c'.lineBreak? with
  | some (b, behind) =>
    (quotedBreaks behind []).map fun (breaks, c'') => (foldBreaks b breaks, c'')
  | none => if c'.rest.isEmpty then malformed else .ok (blanks, c')

/-- The character that a letter stands for behind a backslash. -/
def escapedChar? : Char → Option Char
  | '0' => some '\x00'
  | 'a' => some '\x07'
  | 'b' => some '\x08'
  | 't' => some '\t'
  | '\t' => some '\t'
  | 'n' => some '\n'
  | 'v' => some '\x0b'
  | 'f' => some '\x0c'
  | 'r' => some '\r'
  | 'e' => some '\x1b'
  | ' ' => some ' '
  | '"' => some '"'
  | '\\' => some '\\'
  | '/' => some '/'
  | 'N' => some '\u0085'
  | '_' => some '\u00a0'
  | 'L' => some '\u2028'
  | 'P' => some '\u2029'
  | _ => none

/-- How many hexadecimal digits follow a letter behind a backslash. -/
def codeLength? : Char → Option Nat
  | 'x' => some 2
  | 'u' => some 4
  | 'U' => some 8
  | _ => none

/-- The number that hexadecimal digits denote. -/
def hexNumber? (cs : List Char) : Option Nat :=
  cs.foldlM (fun n c => (Json.hexValue? c).map (16 * n + ·)) 0

/-- The character of a code point.  Half of a surrogate pair is no character, and is read as the
replacement character. -/
def charOfCode (n : Nat) : Result Char :=
  if 0x80000000 ≤ n then .error (.badScalar .codeTooLarge)
  else if 0x110000 ≤ n then .error (.badScalar .noSuchCharacter)
  else if n < 0x10000 then .ok (Json.charOfUnit n)
  else .ok (Char.ofNat n)

/-- What a backslash and the characters behind it stand for; the backslash was just taken. -/
def escape (c : Cursor) : Result (List Char × Cursor) :=
  match c.lineBreak? with
  | some (_, behind) => quotedBreaks behind []
  | none =>
    match c.peek 0 with
    | none => malformed
    | some letter =>
      match escapedChar? letter, codeLength? letter with
      | some d, _ => .ok ([d], c.next)
      | none, some length =>
        let digits := c.next.rest.take length
        match hexNumber? digits with
        | some n =>
          if digits.length < length then malformed
          else (charOfCode n).map fun d => ([d], c.next.skip length)
        | none => malformed
      | none, none => malformed

/-- A piece of a quoted scalar, none at its end, and the cursor behind it. -/
def quotedPiece (quote : Char) (c : Cursor) : Result (Option (List Char) × Cursor) :=
  match c.peek 0 with
  | none => malformed
  | some d =>
    if d == quote then
      if quote == '\'' && c.peek 1 == some '\'' then .ok (some ['\''], c.skip 2)
      else .ok (none, c.next)
    else if quote == '"' && d == '\\' then
      (escape c.next).map fun (text, c') => (some text, c')
    else if d == ' ' || d == '\t' || isBreak d then
      (quotedSpaces c).map fun (text, c') => (some text, c')
    else .ok (some [d], c.next)

/-- A quoted scalar whose opening quote was just taken, with the text found so far. -/
def quotedFrom (quote : Char) (c : Cursor) (text : List Char) : Result (List Char × Cursor) :=
  match quotedPiece quote c with
  | .error e => .error e
  | .ok (none, c') => .ok (text, c')
  | .ok (some piece, c') =>
    if _h : c'.left < c.left then quotedFrom quote c' (text ++ piece) else malformed
termination_by c.left

/-! ## 4. Block scalars -/

/-- What becomes of the line breaks at the end of a block. -/
inductive Chomping
  | strip | clip | keep
  deriving DecidableEq, Repr

/-- The sign that asks for a way to end a block. -/
def chomping? : Option Char → Option Chomping
  | some '-' => some .strip
  | some '+' => some .keep
  | _ => none

/-- The digit that states an indentation. -/
def indentDigit? : Option Char → Option Nat
  | some c => if c.isDigit then some (c.toNat - '0'.toNat) else none
  | none => none

/-- The signs in the header of a block, in either order. -/
def blockHeader (c : Cursor) : Result (Chomping × Option Nat × Cursor) := do
  let (chomp, increment, c) :=
    match chomping? (c.peek 0), indentDigit? (c.peek 0) with
    | some chomp, _ =>
      match indentDigit? (c.peek 1) with
      | some d => (chomp, some d, c.skip 2)
      | none => (chomp, none, c.next)
    | none, some d =>
      match chomping? (c.peek 1) with
      | some chomp => (chomp, some d, c.skip 2)
      | none => (.clip, some d, c.next)
    | none, none => (.clip, none, c)
  if increment == some 0 || !endsWord (c.peek 0) then malformed
  else match c.skipLineRest? with
  | some c => return (chomp, increment, c)
  | none => malformed

/-- The empty lines in front of a block, the widest of them, and the cursor behind them. -/
def blockIndentation (c : Cursor) (breaks : List Char) (widest : Nat) : List Char × Nat × Cursor :=
  let c' := c.skipWhile (· == ' ')
  let widest' := max widest c'.column
  match c'.lineBreak? with
  | none => (breaks, widest', c')
  | some (b, behind) =>
    if _h : behind.left < c.left then blockIndentation behind (breaks ++ [b]) widest'
    else (breaks, widest', c')
termination_by c.left

/-- Over spaces, but not beyond a column. -/
def skipIndent (indent : Int) (c : Cursor) : Cursor :=
  let spaces := (c.rest.takeWhile (· == ' ')).length
  c.skip (min spaces (indent - c.column).toNat)

/-- The empty lines in front of the next line of a block. -/
def blockBreaks (indent : Int) (c : Cursor) (breaks : List Char) : List Char × Cursor :=
  let c' := skipIndent indent c
  match c'.lineBreak? with
  | none => (breaks, c')
  | some (b, behind) =>
    if _h : behind.left < c.left then blockBreaks indent behind (breaks ++ [b]) else (breaks, c')
termination_by c.left

/-- The cursor is at a line that belongs to the block. -/
def inBlock (indent : Int) (c : Cursor) : Bool := (c.column : Int) == indent && !c.rest.isEmpty

/-- A line starts with a blank. -/
def startsBlank (c : Cursor) : Bool := c.peek 0 == some ' ' || c.peek 0 == some '\t'

/-- The lines of a block: its text without the last line break, that line break, the empty lines
behind it, and the cursor. -/
def blockLines (folded : Bool) (indent : Int) (c : Cursor) (text lastBreak breaks : List Char) :
    List Char × List Char × List Char × Cursor :=
  if inBlock indent c then
    let (line, c') := c.span (!isBreak ·)
    let text := text ++ breaks ++ line
    let (ending, behind) := match c'.lineBreak? with
      | some (b, behind) => ([b], behind)
      | none => ([], c')
    let (breaks, c'') := blockBreaks indent behind []
    if inBlock indent c'' then
      let joint :=
        if folded && ending == ['\n'] && !startsBlank c && !startsBlank c'' then
          if breaks.isEmpty then [' '] else []
        else ending
      if _h : c''.left < c.left then blockLines folded indent c'' (text ++ joint) ending breaks
      else (text, ending, breaks, c'')
    else (text, ending, breaks, c'')
  else (text, lastBreak, breaks, c)
termination_by c.left

/-- A block scalar whose first sign was just taken, in a block of the given indentation. -/
def blockScalar (folded : Bool) (outer : Int) (c : Cursor) : Result (List Char × Cursor) := do
  let (chomp, increment, c) ← blockHeader c
  let least := max 1 (outer + 1)
  let (indent, breaks, c) := match increment with
    | none =>
      let (breaks, widest, c) := blockIndentation c [] 0
      (max least widest, breaks, c)
    | some n =>
      let indent := least + n - 1
      let (breaks, c) := blockBreaks indent c []
      (indent, breaks, c)
  let (text, lastBreak, breaks, c) := blockLines folded indent c [] [] breaks
  let tail := match chomp with
    | .strip => []
    | .clip => lastBreak
    | .keep => lastBreak ++ breaks
  return (text ++ tail, c)

end SchemaLang.Yaml
