/-
# The marks that a text lays out

Marks are taken off the front of the text one after the other.  Three things have to be
remembered on the way.

* **Indentation.**  A block is open for as long as lines are not indented less than its first
  one.  A line that is indented less ends all the blocks that it leaves (`unwind`).
* **Brackets.**  Between brackets indentation means nothing.
* **Possible keys.**  Nothing tells in advance that a scalar is a key; only the colon behind it
  does.  So the place of whatever might be a key is kept, and when a colon follows, the mark of a
  key, and if need be that of a block around it, is put in at that place (`takeValue`).  A key
  has to be on one line and may not be longer than 1024 characters.  What stands where only a key
  of the block can stand must turn out to be one.

Something can be wrong further down in a text while the marks in front of it are good.  Those are
kept (`Marks`), as they may be wrong in a way of their own, which then comes first.
-/
import SchemaLang.Yaml.Token

namespace SchemaLang.Yaml

/-! ## 1. State -/

/-- A place where a key may have started. -/
structure PossibleKey where
  /-- How many marks there were in front of it. -/
  position : Nat
  /-- Nothing but a key can stand there. -/
  required : Bool
  index : Nat
  line : Nat
  column : Nat
  deriving DecidableEq, Repr

/-- What is known at a place of the text. -/
structure Layout where
  cursor : Cursor
  /-- The marks so far, last one first. -/
  marks : List Token
  /-- The column of the innermost open block, -1 outside of all of them. -/
  indent : Int
  /-- The columns of the blocks around it. -/
  outer : List Int
  /-- How many brackets are open. -/
  depth : Nat
  /-- A key may start here. -/
  keyAllowed : Bool
  /-- The possible keys, each with the number of brackets around it. -/
  keys : List (Nat × PossibleKey)
  deriving Repr

namespace Layout

/-- The start of a text. -/
def start (cs : List Char) : Layout :=
  { cursor := .start cs, marks := [], indent := -1, outer := [], depth := 0, keyAllowed := true,
    keys := [] }

/-- One more mark. -/
def push (s : Layout) (t : Token) : Layout := { s with marks := t :: s.marks }

/-- Past a number of characters. -/
def move (s : Layout) (n : Nat) : Layout := { s with cursor := s.cursor.skip n }

/-- Whether keys may start from here on. -/
def allowKey (s : Layout) (b : Bool) : Layout := { s with keyAllowed := b }

/-! ## 2. Blocks -/

/-- Ends the blocks that are indented more than a column. -/
def unwindFrom (column : Int) (marks : List Token) :
    (indent : Int) → (outer : List Int) → List Token × Int × List Int
  | indent, [] => (marks, indent, [])
  | indent, next :: outer =>
    if column < indent then unwindFrom column (.blockEnd :: marks) next outer
    else (marks, indent, next :: outer)

/-- Ends the blocks that are indented more than a column, unless brackets are open. -/
def unwind (s : Layout) (column : Int) : Layout :=
  if s.depth = 0 then
    let (marks, indent, outer) := unwindFrom column s.marks s.indent s.outer
    { s with marks, indent, outer }
  else s

/-- Opens a block at a column that is indented more than the open ones. -/
def openBlock (s : Layout) (column : Nat) : Option Layout :=
  if s.indent < column then some { s with indent := column, outer := s.indent :: s.outer }
  else none

/-- Opens a block at the cursor, with its mark. -/
def pushBlock (s : Layout) (t : Token) : Layout :=
  match s.openBlock s.cursor.column with
  | some s' => s'.push t
  | none => s

/-! ## 3. Possible keys -/

/-- Forgets the keys that can no longer turn out to be ones. -/
def dropStale (s : Layout) : Result Layout :=
  let stale (k : PossibleKey) : Bool := k.line != s.cursor.line || k.index + 1024 < s.cursor.index
  if s.keys.any fun k => stale k.2 && k.2.required then malformed
  else .ok { s with keys := s.keys.filter fun k => !stale k.2 }

/-- Forgets the key between the current brackets. -/
def dropKey (s : Layout) : Result Layout :=
  if s.keys.any fun k => k.1 == s.depth && k.2.required then malformed
  else .ok { s with keys := s.keys.filter fun k => k.1 != s.depth }

/-- Keeps the cursor as the place of a possible key, where keys are allowed. -/
def keepKey (s : Layout) : Result Layout :=
  if s.keyAllowed then do
    let s ← s.dropKey
    let key : PossibleKey :=
      { position := s.marks.length
        required := s.depth == 0 && s.indent == s.cursor.column
        index := s.cursor.index
        line := s.cursor.line
        column := s.cursor.column }
    return { s with keys := (s.depth, key) :: s.keys }
  else .ok s

/-- Puts a mark in behind the first `position` marks. -/
def insertMark (s : Layout) (position : Nat) (t : Token) : Layout :=
  let behind := s.marks.length - position
  { s with marks := s.marks.take behind ++ t :: s.marks.drop behind }

/-! ## 4. Single marks -/

/-- A mark of one character. -/
def single (s : Layout) (t : Token) : Layout := (s.move 1).push t

/-- The start or the end of a document. -/
def takeDocumentMark (s : Layout) (t : Token) : Result Layout := do
  let s ← (s.unwind (-1)).dropKey
  return ((s.allowKey false).move 3).push t

/-- A directive. -/
def takeDirective (s : Layout) : Result Layout := do
  let s ← (s.unwind (-1)).dropKey
  let (t, cursor) ← directive s.cursor.next
  return { (s.allowKey false).push t with cursor }

/-- An opening bracket. -/
def takeOpening (s : Layout) (t : Token) : Result Layout := do
  let s ← s.keepKey
  return ({ s with depth := s.depth + 1 }.allowKey true).single t

/-- A closing bracket; one must be open. -/
def takeClosing (s : Layout) (t : Token) : Result Layout := do
  let s ← s.dropKey
  if s.depth = 0 then malformed
  else return ({ s with depth := s.depth - 1 }.allowKey false).single t

/-- A comma between brackets. -/
def takeComma (s : Layout) : Result Layout := do
  let s ← (s.allowKey true).dropKey
  return s.single .flowEntry

/-- A dash in front of an item. -/
def takeDash (s : Layout) : Result Layout := do
  if s.depth = 0 && !s.keyAllowed then malformed
  let s := if s.depth = 0 then s.pushBlock .blockSequence else s
  let s ← (s.allowKey true).dropKey
  return s.single .blockEntry

/-- A question mark in front of a key. -/
def takeQuestion (s : Layout) : Result Layout := do
  if s.depth = 0 && !s.keyAllowed then malformed
  let s := if s.depth = 0 then s.pushBlock .blockMapping else s
  let s ← (s.allowKey (s.depth == 0)).dropKey
  return s.single .key

/-- A colon in front of a value.  What was a possible key before it is one now. -/
def takeValue (s : Layout) : Result Layout := do
  match s.keys.find? fun k => k.1 == s.depth with
  | some (_, key) =>
    let s := { s with keys := s.keys.filter fun k => k.1 != s.depth }
    let s := s.insertMark key.position .key
    let s := if s.depth = 0 then
        match s.openBlock key.column with
        | some s' => s'.insertMark key.position .blockMapping
        | none => s
      else s
    return (s.allowKey false).single .value
  | none =>
    if s.depth = 0 && !s.keyAllowed then malformed
    let s := if s.depth = 0 then s.pushBlock .blockMapping else s
    let s ← (s.allowKey (s.depth == 0)).dropKey
    return s.single .value

/-- A name behind a sign. -/
def takeName (s : Layout) (mark : String → Token) : Result Layout := do
  let s ← s.keepKey
  let (name, cursor) ← anchorName s.cursor.next
  return { (s.allowKey false).push (mark name) with cursor }

/-- A tag. -/
def takeTag (s : Layout) : Result Layout := do
  let s ← s.keepKey
  let (t, cursor) ← tagMark s.cursor
  return { (s.allowKey false).push t with cursor }

/-- A block scalar. -/
def takeBlockScalar (s : Layout) (folded : Bool) : Result Layout := do
  let s ← (s.allowKey true).dropKey
  let (text, cursor) ← blockScalar folded s.indent s.cursor.next
  return { s.push (.scalar (String.ofList text) false) with cursor }

/-- A quoted scalar. -/
def takeQuoted (s : Layout) (quote : Char) : Result Layout := do
  let s ← s.keepKey
  let (text, cursor) ← quotedFrom quote s.cursor.next []
  return { (s.allowKey false).push (.scalar (String.ofList text) false) with cursor }

/-- A plain scalar.  Behind a line break that it took along a key may start. -/
def takePlain (s : Layout) : Result Layout := do
  let s ← s.keepKey
  let plain := plainFrom (s.depth != 0) (s.indent + 1) s.cursor [] [] false
  return { (s.allowKey plain.endedLine).push (.scalar (String.ofList plain.text) true) with
    cursor := plain.behind }

/-! ## 5. The next mark -/

/-- Over spaces, comments and line breaks.  Behind a line break a key may start, unless brackets
are open. -/
def skipGap (s : Layout) : Layout :=
  let c := (s.cursor.skipWhile (· == ' ')).skipComment
  match c.lineBreak? with
  | none => { s with cursor := c }
  | some (_, behind) =>
    if _h : behind.left < s.cursor.left then
      skipGap { s with cursor := behind, keyAllowed := s.depth == 0 || s.keyAllowed }
    else { s with cursor := behind }
termination_by s.cursor.left

/-- The characters that no plain scalar starts with. -/
def indicators : List Char := "-?:,[]\x7b\x7d#&*!|>'\"%@`".toList

/-- A plain scalar may start with this character in front of that one. -/
def startsPlain (inFlow : Bool) (d : Char) (behind : Option Char) : Bool :=
  !(endsMark (some d) || indicators.contains d)
    || (!endsMark behind && (d == '-' || (!inFlow && (d == '?' || d == ':'))))

/-- The mark that starts with the character `d` at the cursor. -/
def takeMark (s : Layout) (d : Char) : Result Layout :=
  let inFlow := s.depth != 0
  let behind := s.cursor.peek 1
  let atStart := s.cursor.column == 0
  if d == '%' && atStart then s.takeDirective
  else if atStart && s.cursor.atTriple '-' then s.takeDocumentMark .documentStart
  else if atStart && s.cursor.atTriple '.' then s.takeDocumentMark .documentEnd
  else if d == '[' then s.takeOpening .flowSequence
  else if d == '\x7b' then s.takeOpening .flowMapping
  else if d == ']' then s.takeClosing .flowSequenceEnd
  else if d == '\x7d' then s.takeClosing .flowMappingEnd
  else if d == ',' then s.takeComma
  else if d == '-' && endsMark behind then s.takeDash
  else if d == '?' && (inFlow || endsMark behind) then s.takeQuestion
  else if d == ':' && (inFlow || endsMark behind) then s.takeValue
  else if d == '*' then s.takeName .reference
  else if d == '&' then s.takeName .anchor
  else if d == '!' then s.takeTag
  else if d == '|' && !inFlow then s.takeBlockScalar false
  else if d == '>' && !inFlow then s.takeBlockScalar true
  else if d == '\'' || d == '"' then s.takeQuoted d
  else if startsPlain inFlow d behind then s.takePlain
  else malformed

/-- The layout behind the next mark and the marks that come with it, and whether the text goes on
there.  At its end every block ends. -/
def step (s : Layout) : Result (Layout × Bool) := do
  let s ← s.skipGap.dropStale
  let s := s.unwind s.cursor.column
  match s.cursor.peek 0 with
  | none => return (← (s.unwind (-1)).dropKey, false)
  | some d => return (← s.takeMark d, true)

/-- The marks that stay as they are, whatever follows: those in front of the first place where a
key may have started. -/
def settled (s : Layout) : List Token :=
  match s.dropStale with
  | .ok s =>
    s.marks.reverse.take (s.keys.foldl (fun least k => min least k.2.position) s.marks.length)
  | .error _ => []

end Layout

/-- The marks of a text, in front of the first thing that is wrong with it. -/
structure Marks where
  list : List Token
  /-- What is wrong there; nothing if the text ends there. -/
  fault : Option Problem
  deriving DecidableEq, Repr

/-- The marks of a text from a place on. -/
def Layout.run (s : Layout) : Marks :=
  match s.step with
  | .error p => ⟨s.settled, some p⟩
  | .ok (next, false) => ⟨next.marks.reverse, none⟩
  | .ok (next, true) =>
    if _h : next.cursor.left < s.cursor.left then next.run else ⟨s.settled, some .malformed⟩
termination_by s.cursor.left

/-- The marks of a text.  A byte order mark may stand in front of it, and characters without a
place in a text may not occur. -/
def Marks.ofText (text : List Char) : Marks :=
  if text.all isPrintable then
    let s := Layout.start text
    (if text.head? == some '\uFEFF' then s.move 1 else s).run
  else ⟨[], some .malformed⟩

end SchemaLang.Yaml
