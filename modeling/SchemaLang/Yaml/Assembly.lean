/-
# The content of a text

The marks of a text are put together to nodes.  A reference stands for the node that has its name,
which must have started further in front, so it may be to a node that it is part of.  For that a
sequence or a mapping gets its number before its parts are read (`collection`).

Where a node is missing (behind a colon, a dash or a question mark) there is an empty scalar.
What is wrong behind the marks is met when the mark after the last one is asked for (`peek`).
Every rule below reads a mark before it calls itself, or calls a rule that does; the allowance
that they pass on is large enough for every text (`document`).
-/
import SchemaLang.Yaml.Content
import SchemaLang.Yaml.Layout
import SchemaLang.Yaml.Problem

namespace SchemaLang.Yaml

/-! ## 1. State -/

/-- What is known while nodes are put together. -/
structure Assembly where
  marks : List Token
  /-- What is wrong behind these marks; nothing if the text ends there. -/
  fault : Option Problem
  nodes : Nodes
  /-- The numbers of the nodes that have a name. -/
  names : List (String × Nat)
  /-- The handles of tags and their meanings. -/
  handles : List (String × String)
  deriving Repr

/-- A rule for nodes. -/
abbrev Assemble (α : Type) : Type := StateT Assembly (Except Problem) α

namespace Assemble

/-- The next mark, which stays; none at the end of the text. -/
def peek : Assemble (Option Token) := do
  let s ← get
  match s.marks, s.fault with
  | t :: _, _ => return some t
  | [], none => return none
  | [], some p => throw p

/-- Takes the next mark. -/
def take : Assemble Unit := modify fun s => { s with marks := s.marks.tail }

/-- The text is not well formed. -/
def fail {α : Type} : Assemble α := throw .malformed

/-- Takes the next mark if it is this one. -/
def accept (t : Token) : Assemble Bool := do
  if (← peek) == some t then
    take
    return true
  else return false

/-- Takes the next mark, which must be this one. -/
def expect (t : Token) : Assemble Unit := do
  unless ← accept t do fail

/-! ## 2. Names and tags -/

/-- The name in front of a node, if one is there. -/
def anchorName? : Assemble (Option String) := do
  match ← peek with
  | some (.anchor name) =>
    take
    return some name
  | _ => return none

/-- The handle and the suffix of the tag in front of a node, if one is there. -/
def tagParts? : Assemble (Option (Option String × String)) := do
  match ← peek with
  | some (.tag handle suffix) =>
    take
    return some (handle, suffix)
  | _ => return none

/-- The full text of a tag, whose handle must have a meaning. -/
def fullTag : Option String × String → Assemble String
  | (none, suffix) => return suffix
  | (some handle, suffix) => do
    match (← get).handles.lookup handle with
    | some meaning => return meaning ++ suffix
    | none => fail

/-- The name and the tag in front of a node, in either order. -/
def properties : Assemble (Option String × Option String) := do
  let (name, parts) ← match ← anchorName? with
    | some name => do pure (some name, ← tagParts?)
    | none =>
      match ← tagParts? with
      | some parts => do pure (← anchorName?, some parts)
      | none => pure (none, none)
  match parts with
  | some parts => return (name, some (← fullTag parts))
  | none => return (name, none)

/-- The type of a scalar with this tag, or without one. -/
def scalarTag (tag : Option String) (text : String) (plain : Bool) : Tag :=
  match tag with
  | none => if plain then .ofPlain text else .string
  | some "!" => .ofPlain text
  | some full => .ofText full

/-- The type of a sequence or a mapping with this tag, or without one. -/
def collectionTag (tag : Option String) (implied : Tag) : Tag :=
  match tag with
  | none => implied
  | some "!" => implied
  | some full => .ofText full

/-- A new node, under its name if it has one; no two nodes share a name.  The answer is its
number. -/
def add (name : Option String) (n : Node) : Assemble Nat := do
  let s ← get
  let number := s.nodes.size
  match name with
  | none => set { s with nodes := s.nodes.push n }
  | some name =>
    if (s.names.lookup name).isSome then fail
    set { s with nodes := s.nodes.push n, names := (name, number) :: s.names }
  return number

/-- A new node whose parts are read when it has its number. -/
def collection (name : Option String) (tag : Tag) (parts : Assemble Shape) : Assemble Nat := do
  let number ← add name ⟨tag, .sequence []⟩
  let shape ← parts
  modify fun s => { s with nodes := s.nodes.setNode number ⟨tag, shape⟩ }
  return number

/-- The node that has a name. -/
def named (name : String) : Assemble Nat := do
  match (← get).names.lookup name with
  | some number => return number
  | none => fail

/-! ## 3. Nodes -/

/-- A node that is missing. -/
def empty : Assemble Nat := add none .empty

/-- The next mark ends what it stands behind, so that a node is missing there. -/
def missing (ends : List Token) : Assemble Bool := do
  match ← peek with
  | some t => return ends.contains t
  | none => return false

/-- A node, or an empty scalar in front of these marks. -/
def orEmpty (ends : List Token) (node : Assemble Nat) : Assemble Nat := do
  if ← missing ends then empty else node

/-- The value of a key, if a colon is there. -/
def valueOr (ends : List Token) (node : Assemble Nat) : Assemble Nat := do
  if ← accept .value then orEmpty ends node else empty

mutual

/-- A node; blocks may start in it only if `block`, and a sequence that is not indented only if
`unindented`. -/
def node : (budget : Nat) → (block unindented : Bool) → Assemble Nat
  | 0, _, _ => fail
  | budget + 1, block, unindented => do
    if let some (.reference name) ← peek then
      take
      named name
    else
      let (name, tag) ← properties
      let sequence (items : Assemble (List Nat)) : Assemble Nat :=
        collection name (collectionTag tag .sequence) (return .sequence (← items))
      let mapping (entries : Assemble (List Entry)) : Assemble Nat :=
        collection name (collectionTag tag .mapping) (return .mapping (← entries))
      match ← peek, block, unindented with
      | some .blockEntry, _, true => sequence (unindentedItems budget)
      | some (.scalar text plain), _, _ =>
        take
        add name ⟨scalarTag tag text plain, .scalar text⟩
      | some .flowSequence, _, _ =>
        take
        sequence (flowItems budget true)
      | some .flowMapping, _, _ =>
        take
        mapping (flowEntries budget true)
      | some .blockSequence, true, _ =>
        take
        sequence (blockItems budget)
      | some .blockMapping, true, _ =>
        take
        mapping (blockEntries budget)
      | _, _, _ =>
        if name.isSome || tag.isSome then add name ⟨scalarTag tag "" true, .scalar ""⟩ else fail

/-- The items of a sequence, each behind a dash. -/
def blockItems : (budget : Nat) → Assemble (List Nat)
  | 0 => fail
  | budget + 1 => do
    if ← accept .blockEntry then
      let item ← orEmpty [.blockEntry, .blockEnd] (node budget true false)
      return item :: (← blockItems budget)
    else
      expect .blockEnd
      return []

/-- The items of a sequence that is not indented below its key. -/
def unindentedItems : (budget : Nat) → Assemble (List Nat)
  | 0 => fail
  | budget + 1 => do
    if ← accept .blockEntry then
      let item ← orEmpty [.blockEntry, .key, .value, .blockEnd] (node budget true false)
      return item :: (← unindentedItems budget)
    else return []

/-- The entries of a block mapping. -/
def blockEntries : (budget : Nat) → Assemble (List Entry)
  | 0 => fail
  | budget + 1 => do
    let ends := [.key, .value, .blockEnd]
    if ← accept .key then
      let key ← orEmpty ends (node budget true true)
      let value ← valueOr ends (node budget true true)
      return (key, value) :: (← blockEntries budget)
    else
      expect .blockEnd
      return []

/-- The items of a sequence in brackets; a key and its value there are a mapping of their own. -/
def flowItems : (budget : Nat) → (first : Bool) → Assemble (List Nat)
  | 0, _ => fail
  | budget + 1, first => do
    if ← accept .flowSequenceEnd then return []
    unless first do expect .flowEntry
    if ← accept .key then
      let item ← collection none .mapping do
        let key ← orEmpty [.value, .flowEntry, .flowSequenceEnd] (node budget false false)
        let value ← valueOr [.flowEntry, .flowSequenceEnd] (node budget false false)
        return .mapping [(key, value)]
      return item :: (← flowItems budget false)
    else if ← accept .flowSequenceEnd then return []
    else
      let item ← node budget false false
      return item :: (← flowItems budget false)

/-- The entries of a mapping in braces; a node without a key mark is a key without a value. -/
def flowEntries : (budget : Nat) → (first : Bool) → Assemble (List Entry)
  | 0, _ => fail
  | budget + 1, first => do
    if ← accept .flowMappingEnd then return []
    unless first do expect .flowEntry
    if ← accept .key then
      let key ← orEmpty [.value, .flowEntry, .flowMappingEnd] (node budget false false)
      let value ← valueOr [.flowEntry, .flowMappingEnd] (node budget false false)
      return (key, value) :: (← flowEntries budget false)
    else if ← accept .flowMappingEnd then return []
    else
      let key ← node budget false false
      let value ← empty
      return (key, value) :: (← flowEntries budget false)

end

/-! ## 4. Documents -/

/-- The directives in front of a document: at most one version, which must be one of the first
language, and no handle twice. -/
def directives : List Token → (version : Bool) → List (String × String) →
    Result (List (String × String) × List Token)
  | .version major :: ts, version, handles =>
    if version || major != 1 then malformed else directives ts true handles
  | .tagHandle handle meaning :: ts, version, handles =>
    if (handles.lookup handle).isSome then malformed
    else directives ts version ((handle, meaning) :: handles)
  | .reserved :: ts, version, handles => directives ts version handles
  | ts, _, handles => .ok (handles, ts)

/-- The handles that have a meaning without a directive. -/
def commonHandles : List (String × String) := [("!", "!"), ("!!", tagNamespace)]

/-- Takes the directives in front of a document. -/
def takeDirectives : Assemble Unit := do
  let (handles, marks) ← directives (← get).marks false []
  modify fun s => { s with marks, handles := handles ++ commonHandles }

/-- A mark that starts a document, or may stand in front of one. -/
def startsDocument : Token → Bool
  | .documentStart | .version _ | .tagHandle _ _ | .reserved => true
  | _ => false

/-- The node of a document whose start is marked; nothing need follow. -/
def explicitRoot (node : Assemble Nat) : Assemble Nat := do
  match ← peek with
  | none | some .documentEnd => empty
  | some t => if startsDocument t then empty else node

/-- The text ends here, behind any marks for the end of its document. -/
def finish : Assemble Unit := do
  modify fun s => { s with marks := s.marks.dropWhile (· == .documentEnd) }
  if (← peek).isSome then
    takeDirectives
    let _ ← peek
    fail

/-- The node of a text, which is a single document or nothing at all. -/
def document : Assemble (Option Nat) := do
  let node := node (4 * (← get).marks.length + 4) true false
  match ← peek with
  | none => return none
  | some t =>
    let root ←
      if startsDocument t then do
        takeDirectives
        expect .documentStart
        explicitRoot node
      else node
    finish
    return some root

end Assemble

/-- The content of a text with the given marks. -/
def Content.ofMarks (marks : Marks) : Result Content := do
  let (root, s) ← Assemble.document.run
    { marks := marks.list, fault := marks.fault, nodes := #[], names := [],
      handles := Assemble.commonHandles }
  return ⟨root, s.nodes⟩

/-- The content of a text. -/
def Content.ofText (text : List Char) : Result Content := ofMarks (Marks.ofText text)

end SchemaLang.Yaml
