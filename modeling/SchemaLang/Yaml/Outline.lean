/-
# What a text says

The nodes of a text get their values level by level.  A scalar has its value at once; a sequence or
a mapping is met first, and its parts get their values when everything that was met before it has
got them (`fill`, `settle`).  So a fault further out comes before one further in, and every node
must have a value, whether or not anything asks for it.

A mapping is merged with others before its entries count.  Then a later entry replaces an earlier
one with the same key (`put`), so what a mapping says itself wins over what it was merged with.
-/
import SchemaLang.Number.Power
import SchemaLang.Yaml.Assembly
import SchemaLang.Yaml.Merge
import SchemaLang.Yaml.Value

namespace SchemaLang.Yaml

open Text

/-! ## 1. Values of nodes -/

/-- The text of a node.  The text of a mapping is that of the value which is marked as such. -/
def Nodes.text? (nodes : Nodes) : (budget : Nat) → (n : Nat) → Option String
  | 0, _ => none
  | budget + 1, n =>
    match (nodes.node n).shape with
    | .scalar text => some text
    | .sequence _ => none
    | .mapping entries =>
      match entries.find? fun e => (nodes.node e.1).tag == .valueKey with
      | some (_, value) => nodes.text? budget value
      | none => none

/-- The value of a node by its type.  A date cannot be taken from a mapping. -/
def Nodes.value (nodes : Nodes) (n : Nat) : Result Value :=
  let node := nodes.node n
  if node.tag.isCollection then .ok .collection
  else match nodes.text? (nodes.size + 1) n, node.tag, node.shape with
    | some _, .timestamp, .mapping _ => .error (.badScalar .mappingForDate)
    | some text, tag, _ => scalarValue n tag text
    | none, _, _ => malformed

/-- How far the nodes of a text have got their values. -/
structure Valuation where
  nodes : Nodes
  /-- The values so far, at the places of their nodes. -/
  values : Array (Option Value)
  /-- The sequences and mappings whose parts have no values yet, last one first. -/
  waiting : List Nat
  deriving Repr

/-- A step that gives values to nodes. -/
abbrev Evaluate (α : Type) : Type := StateT Valuation (Except Problem) α

/-- The value of a node, which is kept. -/
def valueOf (n : Nat) : Evaluate Value := do
  let s ← get
  match s.values.getD n none with
  | some v => return v
  | none =>
    let v ← s.nodes.value n
    let waiting := if v = .collection then n :: s.waiting else s.waiting
    set { s with values := s.values.setIfInBounds n (some v), waiting }
    return v

/-! ## 2. Parts -/

/-- Gives a key a value.  The first of several equal keys is kept, and the last value. -/
def put (key value : Value) : List (Value × Value) → List (Value × Value)
  | [] => [(key, value)]
  | (k, v) :: rest => if k.sameKey key then (k, value) :: rest else (k, v) :: put key value rest

/-- The keys and values of entries.  Sequences and mappings are no keys. -/
def valuesOf (entries : List Entry) : Evaluate (List (Value × Value)) :=
  entries.foldlM (fun sofar (k, v) => do
    let key ← valueOf k
    if key = .collection then malformed
    return put key (← valueOf v) sofar) []

/-- Gives values to the nodes of a mapping with a single entry. -/
def fillPair (n : Nat) : Evaluate Unit := do
  match ((← get).nodes.node n).shape with
  | .mapping [(k, v)] =>
    let _ ← valueOf k
    let _ ← valueOf v
  | _ => malformed

/-- Gives values to the parts of a node, which must be what its type asks for.  The answer is what
a mapping says. -/
def fill (n : Nat) : Evaluate (List (Value × Value)) := do
  let s ← get
  let node := s.nodes.node n
  match node.tag, node.shape with
  | .sequence, .sequence items =>
    items.forM fun item => do let _ ← valueOf item
    return []
  | .pairs, .sequence items =>
    items.forM fillPair
    return []
  | .mapping, .mapping _ | .set, .mapping _ =>
    let nodes ← s.nodes.flatten n
    set { s with nodes }
    valuesOf (nodes.entries n)
  | _, _ => malformed

/-- Gives values to the parts of all that waits, and of what is met on the way. -/
def settle : (budget : Nat) → Evaluate Unit
  | 0 => malformed
  | budget + 1 => do
    let s ← get
    unless s.waiting.isEmpty do
      set { s with waiting := [] }
      s.waiting.reverse.forM fun n => do let _ ← fill n
      settle budget

/-! ## 3. The content of a text -/

/-- What a settings text says at its outermost level. -/
inductive Outline
  /-- The text says nothing. -/
  | nothing
  | mapping (entries : List (Value × Value))
  /-- Something that is no mapping. -/
  | other
  deriving DecidableEq, Repr

/-- The outermost level of content with that root, once all its nodes have values. -/
def outlineOf (root : Nat) : Evaluate Outline := do
  match ← valueOf root with
  | .null => return .nothing
  | .collection =>
    modify fun s => { s with waiting := [] }
    let entries ← fill root
    let nodes := (← get).nodes
    settle (nodes.size + 1)
    return if (nodes.node root).tag = .mapping then .mapping entries else .other
  | _ => return .other

/-- A key that is an integer which is too long to be written. -/
def isLongKey : Value → Bool
  | .int n => tenTo maxDigits ≤ n.natAbs
  | _ => false

/-- The outline, unless a key of it is too long to be written. -/
def Outline.withShortKeys : Outline → Result Outline
  | .mapping entries =>
    if entries.any fun e => isLongKey e.1 then .error (.badScalar .longInteger)
    else .ok (.mapping entries)
  | o => .ok o

/-- The outermost level of content. -/
def Content.outline (c : Content) : Result Outline :=
  match c.root with
  | none => .ok .nothing
  | some root => do
    let s : Valuation :=
      { nodes := c.nodes, values := Array.replicate c.nodes.size none, waiting := [] }
    (← (outlineOf root).run' s).withShortKeys

/-- What a settings text says at its outermost level. -/
def outline (text : List Char) : Result Outline := do (← Content.ofText text).outline

end SchemaLang.Yaml
