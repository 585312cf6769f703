/-
# Merged mappings

A mapping may take over the entries of others: the value of the key `<<` is a mapping, or a
sequence of mappings, and their entries go in front of those of the mapping that has the key, the
entries of a later mapping of a sequence in front of those of an earlier one.  What is merged is
merged with its own `<<` first, and keeps the entries that it gained (`Nodes.flatten`).

A mapping may be reached again while it is being merged.  So a key `<<` is taken out before its
value is looked at; each step takes one out, and no entries but those of the text ever hold one,
which bounds the depth of the steps.
-/
import SchemaLang.Yaml.Content
import SchemaLang.Yaml.Problem

namespace SchemaLang.Yaml.Nodes

/-- The entry of a key that merges. -/
def isMerge (nodes : Nodes) (e : Entry) : Bool := (nodes.node e.1).tag == .merge

/-- The sign for the value of a mapping is ordinary text where a mapping has been merged. -/
def plainKeys (nodes : Nodes) (entries : List Entry) : Nodes :=
  entries.foldl (fun nodes e =>
    if (nodes.node e.1).tag = .valueKey then nodes.setTag e.1 .string else nodes) nodes

/-- Carries out the merges of a mapping that are left; `gained` are the entries so far. -/
def flattenFrom : (budget : Nat) → Nodes → (n : Nat) → (gained : List Entry) → Result Nodes
  | 0, _, _, _ => malformed
  | budget + 1, nodes, n, gained =>
    match (nodes.entries n).find? nodes.isMerge with
    | none =>
      let entries := gained ++ nodes.entries n
      .ok ((nodes.setEntries n entries).plainKeys entries)
    | some (_, value) =>
      let nodes := nodes.setEntries n ((nodes.entries n).eraseP nodes.isMerge)
      match (nodes.node value).shape with
      | .mapping _ => do
        let nodes ← flattenFrom budget nodes value []
        flattenFrom budget nodes n (gained ++ nodes.entries value)
      | .sequence items => do
        let (nodes, part) ← items.foldlM (fun (nodes, part) item =>
          match (nodes.node item).shape with
          | .mapping _ => do
            let nodes ← flattenFrom budget nodes item []
            return (nodes, nodes.entries item ++ part)
          | _ => malformed) (nodes, [])
        flattenFrom budget nodes n (gained ++ part)
      | .scalar _ => malformed

/-- How many entries there are in all. -/
def countEntries (nodes : Nodes) : Nat :=
  nodes.foldl (fun count node =>
    match node.shape with
    | .mapping entries => count + entries.length
    | _ => count) 0

/-- Carries out the merges of a mapping. -/
def flatten (nodes : Nodes) (n : Nat) : Result Nodes :=
  flattenFrom (nodes.countEntries + 1) nodes n []

end SchemaLang.Yaml.Nodes
