/-
# The marks of a settings text

The structure of a settings text is given by marks: some are written (brackets, commas, colons),
others follow from indentation (the start and end of a block) or from a colon that turns up behind
what was then a key.  This module reads the written marks that have a text of their own: names of
anchors, tags, and directives.
-/
import SchemaLang.Text.Utf8
import SchemaLang.Yaml.ScalarText

namespace SchemaLang.Yaml

/-- A mark. -/
inductive Token
  /-- A directive with the number of the language version. -/
  | version (major : Nat)
  /-- A directive that gives a handle of tags its meaning. -/
  | tagHandle (handle meaning : String)
  /-- A directive that says nothing. -/
  | reserved
  | documentStart
  | documentEnd
  | blockSequence
  | blockMapping
  | blockEnd
  | flowSequence
  | flowSequenceEnd
  | flowMapping
  | flowMappingEnd
  | blockEntry
  | flowEntry
  | key
  | value
  | reference (name : String)
  | anchor (name : String)
  | tag (handle : Option String) (suffix : String)
  | scalar (text : String) (plain : Bool)
  deriving DecidableEq, Repr

/-! ## 1. Names -/

/-- The name of an anchor or a reference, whose sign was just taken. -/
def anchorName (c : Cursor) : Result (String × Cursor) :=
  let (name, c') := c.span isNameChar
  if name.isEmpty then malformed
  else if endsMark (c'.peek 0) || (c'.peek 0).any "?:,]\x7d%@`".toList.contains then
    .ok (String.ofList name, c')
  else malformed

/-! ## 2. Tags -/

/-- A handle: one exclamation mark, or two with a name between them that may be empty. -/
def tagHandle (c : Cursor) : Result (String × Cursor) :=
  if c.peek 0 != some '!' then malformed
  else if c.peek 1 == some ' ' then .ok ("!", c.next)
  else
    let (name, c') := c.next.span isNameChar
    if c'.peek 0 == some '!' then .ok (String.ofList ('!' :: name ++ ['!']), c'.next)
    else malformed

/-- The characters of tags, besides escaped ones. -/
def isTagChar (c : Char) : Bool :=
  c.isAlphanum || "-;/?:@&=+$,_.!~*'()[]".toList.contains c

/-- A byte written as a percent sign and two hexadecimal digits, and the text behind it. -/
def escapedByte? : List Char → Option (UInt8 × List Char)
  | '%' :: a :: b :: rest => (hexNumber? [a, b]).map fun n => (n.toUInt8, rest)
  | _ => none

/-- The escaped bytes at the cursor, and the cursor behind them. -/
def escapedBytes (c : Cursor) (bytes : List UInt8) : Result (List UInt8 × Cursor) :=
  if c.peek 0 == some '%' then
    match escapedByte? c.rest with
    | none => malformed
    | some (byte, _) =>
      if _h : (c.skip 3).left < c.left then escapedBytes (c.skip 3) (bytes ++ [byte])
      else malformed
  else .ok (bytes, c)
termination_by c.left

/-- The text of a tag.  Escaped bytes in a row must be the encoding of some text. -/
def tagText (c : Cursor) (text : List Char) : Result (String × Cursor) :=
  let (run, c') := c.span isTagChar
  let text := text ++ run
  if c'.peek 0 == some '%' then
    match escapedBytes c' [] with
    | .error e => .error e
    | .ok (bytes, c'') =>
      match Text.decodeUtf8 bytes with
      | .error _ => malformed
      | .ok decoded =>
        if _h : c''.left < c.left then tagText c'' (text ++ decoded) else malformed
  else if text.isEmpty then malformed
  else .ok (String.ofList text, c')
termination_by c.left

/-- An exclamation mark comes up before the next space or line break. -/
def handleAhead (c : Cursor) : Bool :=
  (c.rest.takeWhile fun d => d != ' ' && !isBreak d).contains '!'

/-- A tag whose exclamation mark is at the cursor. -/
def tagMark (c : Cursor) : Result (Token × Cursor) := do
  let (token, c) ←
    if c.peek 1 == some '<' then do
      let (suffix, c) ← tagText (c.skip 2) []
      if c.peek 0 == some '>' then pure (Token.tag none suffix, c.next) else malformed
    else if endsMark (c.peek 1) then pure (Token.tag none "!", c.next)
    else if handleAhead c.next then do
      let (handle, c) ← tagHandle c
      let (suffix, c) ← tagText c []
      pure (Token.tag (some handle) suffix, c)
    else do
      let (suffix, c) ← tagText c.next []
      pure (Token.tag (some "!") suffix, c)
  if endsWord (c.peek 0) then return (token, c) else malformed

/-! ## 3. Directives -/

/-- The number of a run of digits. -/
def digitRun (c : Cursor) : Result (Nat × Cursor) :=
  let (digits, c') := c.span Char.isDigit
  if digits.isEmpty then malformed
  else match Text.readNumeral digits with
    | .ok n => .ok (n, c')
    | .error e => .error (.badScalar (.longNumeral e))

/-- The number of a version and the cursor behind it: two runs of digits around a point. -/
def versionNumber (c : Cursor) : Result (Token × Cursor) := do
  let (major, c) ← digitRun (c.skipWhile (· == ' '))
  if c.peek 0 != some '.' then malformed
  let (_, c) ← digitRun c.next
  if endsWord (c.peek 0) then return (.version major, c) else malformed

/-- The handle and the meaning in a directive about tags. -/
def tagDirective (c : Cursor) : Result (Token × Cursor) := do
  let (handle, c) ← tagHandle (c.skipWhile (· == ' '))
  if c.peek 0 != some ' ' then malformed
  let (meaning, c) ← tagText (c.skipWhile (· == ' ')) []
  if endsWord (c.peek 0) then return (.tagHandle handle meaning, c) else malformed

/-- A directive, whose percent sign was just taken, to the end of its line. -/
def directive (c : Cursor) : Result (Token × Cursor) := do
  let (name, c) := c.span isNameChar
  if name.isEmpty || !endsWord (c.peek 0) then malformed
  let (token, c) ←
    if name == "YAML".toList then versionNumber c
    else if name == "TAG".toList then tagDirective c
    else pure (.reserved, c.skipWhile (!isBreak ·))
  match c.skipLineRest? with
  | some c => return (token, c)
  | none => malformed

end SchemaLang.Yaml
