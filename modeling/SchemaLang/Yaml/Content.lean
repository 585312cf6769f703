/-
# Content

The content of a settings text is a table of nodes: scalars, sequences and mappings, each with its
type.  A node is known by its number, which is its place in the table, and the parts of a sequence
or a mapping are given by their numbers.  So one node may stand at several places of a text, and a
node may even be part of itself.
-/
import SchemaLang.Yaml.Tag

namespace SchemaLang.Yaml

/-- A key and its value, by their numbers. -/
abbrev Entry := Nat × Nat

/-- What a node is made of. -/
inductive Shape
  | scalar (text : String)
  | sequence (items : List Nat)
  | mapping (entries : List Entry)
  deriving DecidableEq, Repr

/-- A piece of content. -/
structure Node where
  tag : Tag
  shape : Shape
  deriving DecidableEq, Repr

/-- The node of a missing one. -/
def Node.empty : Node := ⟨.null, .scalar ""⟩

/-- The nodes of a text, each at the place of its number. -/
abbrev Nodes := Array Node

namespace Nodes

/-- The node of a number. -/
def node (nodes : Nodes) (n : Nat) : Node := nodes.getD n .empty

/-- The entries of a mapping; other nodes have none. -/
def entries (nodes : Nodes) (n : Nat) : List Entry :=
  match (nodes.node n).shape with
  | .mapping entries => entries
  | _ => []

/-- The table with another node of that number. -/
def setNode (nodes : Nodes) (n : Nat) (node : Node) : Nodes := nodes.setIfInBounds n node

/-- The table with other entries of a mapping. -/
def setEntries (nodes : Nodes) (n : Nat) (entries : List Entry) : Nodes :=
  nodes.setNode n ⟨(nodes.node n).tag, .mapping entries⟩

/-- The table with another type of a node. -/
def setTag (nodes : Nodes) (n : Nat) (tag : Tag) : Nodes :=
  nodes.setNode n ⟨tag, (nodes.node n).shape⟩

/-- A node that is set is found, and the others stay as they are. -/
theorem node_setNode (nodes : Nodes) (m n : Nat) (new : Node) :
    (nodes.setNode m new).node n =
      if m = n ∧ n < nodes.size then new else nodes.node n := by
  unfold setNode node
  rw [Array.getD_eq_getD_getElem?, Array.getD_eq_getD_getElem?, Array.getElem?_setIfInBounds]
  by_cases h : m = n
  · subst h
    by_cases hm : m < nodes.size
    · simp [hm]
    · simp [hm]
  · simp [h]

end Nodes

/-- The content of a text: the number of its node, if it has one, and the table. -/
structure Content where
  root : Option Nat
  nodes : Nodes
  deriving DecidableEq, Repr

end SchemaLang.Yaml
