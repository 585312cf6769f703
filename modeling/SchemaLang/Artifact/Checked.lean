/-
# Checking with all issues

Loading a value against a model does not stop at the first thing that is wrong: it goes on and
lists all of them, each with its place inside the value (`Issue`).  `Checked` is a result or such
a list, and joining two checks joins their lists in order (`Checked.seq`).

A model of an object names its keys one by one.  A key is required or has a default, keys that no
one asked for are issues of their own, and they come last.  The loaders of parts are told that
the part is smaller than the whole, so that models may nest.
-/
import SchemaLang.Document.Kind
import SchemaLang.Json

namespace SchemaLang

/-! ## 1. Issues -/

/-- What is wrong with a value. -/
inductive IssueKind
  /-- An object of one kind was asked for. -/
  | notAnObject
  /-- An object of one of several kinds was asked for. -/
  | notATaggedObject
  | missing
  | unknownKey
  | wrongKind
  | noKind
  | unknownKind
  | notAList
  | notAString
  | notAChoice
  | notFinite
  | notWhole
  | tooLarge
  | notANumeral
  | notAnInteger
  | notATruthWord
  | notATruthValue
  deriving DecidableEq, Repr

/-- One step into a value. -/
inductive PlaceStep
  | key (name : String)
  | index (i : Nat)
  deriving DecidableEq, Repr

/-- Something wrong at a place. -/
structure Issue where
  kind : IssueKind
  place : List PlaceStep
  deriving DecidableEq, Repr

/-- The same issue, seen from one step further out. -/
def Issue.inside (step : PlaceStep) (i : Issue) : Issue := { i with place := step :: i.place }

/-! ## 2. Checks -/

/-- A value, or everything that is wrong. -/
inductive Checked (α : Type)
  | valid (value : α)
  | invalid (issues : List Issue)
  deriving Repr

namespace Checked

variable {α β : Type}

/-- A single issue at the place of the check itself. -/
def issue (kind : IssueKind) : Checked α := invalid [⟨kind, []⟩]

/-- Applies a function to a value. -/
def map (f : α → β) : Checked α → Checked β
  | valid a => valid (f a)
  | invalid is => invalid is

/-- Both checks; the issues of the first come first. -/
def seq : Checked (α → β) → Checked α → Checked β
  | valid f, valid a => valid (f a)
  | valid _, invalid is => invalid is
  | invalid is, valid _ => invalid is
  | invalid is, invalid js => invalid (is ++ js)

instance : Applicative Checked where
  pure := valid
  seq f x := seq f (x ())

/-- The check as part of a larger one. -/
def inside (step : PlaceStep) : Checked α → Checked α
  | valid a => valid a
  | invalid is => invalid (is.map (Issue.inside step))

theorem seq_eq_valid_iff {f : Checked (α → β)} {x : Checked α} {b : β} :
    f.seq x = valid b ↔ ∃ g a, f = valid g ∧ x = valid a ∧ g a = b := by
  cases f <;> cases x <;> simp [seq]

theorem inside_eq_valid_iff {step : PlaceStep} {x : Checked α} {a : α} :
    x.inside step = valid a ↔ x = valid a := by
  cases x <;> simp [inside]

theorem map_eq_valid_iff {f : α → β} {x : Checked α} {b : β} :
    x.map f = valid b ↔ ∃ a, x = valid a ∧ f a = b := by
  cases x <;> simp [map]

end Checked

/-! ## 3. Parts of a value -/

namespace Json

variable {α : Type}

/-- The members of an object. -/
abbrev Members := List (String × Json)

/-- The check of every item from index `i` on. -/
def eachFrom : (i : Nat) → (items : List Json) →
    ((v : Json) → sizeOf v < sizeOf items → Checked α) → Checked (List α)
  | _, [], _ => .valid []
  | i, v :: vs, load =>
    (((load v (by simp only [List.cons.sizeOf_spec]; omega)).inside (.index i)).map List.cons).seq
      (eachFrom (i + 1) vs fun w h => load w (by simp only [List.cons.sizeOf_spec]; omega))

/-- A list whose items are loaded one by one. -/
def asList (v : Json) (load : (w : Json) → sizeOf w < sizeOf v → Checked α) : Checked (List α) :=
  match v, load with
  | .array items, load =>
    eachFrom 0 items fun w h => load w (by simp only [Json.array.sizeOf_spec]; omega)
  | _, _ => .issue .notAList

/-- An object that a model reads. -/
def asObject (v : Json) (load : Members → Checked α) : Checked α :=
  match v with
  | .object ms => load ms
  | _ => .issue .notAnObject

/-- The choice whose tag is that text. -/
def select (tag : String) : List (Kind × (Unit → Checked α)) → Checked α
  | [] => .issue .unknownKind
  | (kind, load) :: rest =>
    if kind.tag = tag then (load ()).inside (.key tag) else select tag rest

/-- An object of one of several kinds; its kind decides which model reads it. -/
def asTagged (v : Json)
    (models : (ms : Members) → sizeOf ms < sizeOf v → List (Kind × (Unit → Checked α))) :
    Checked α :=
  match v, models with
  | .object ms, models =>
    match find? "kind" ms with
    | none => .issue .noKind
    | some (.string tag) => select tag (models ms (by simp only [Json.object.sizeOf_spec]; omega))
    | some _ => .issue .unknownKind
  | _, _ => .issue .notATaggedObject

/-! ## 4. Keys of an object -/

/-- The value of a key that must be there. -/
def required (ms : Members) (key : String) (load : (v : Json) → sizeOf v < sizeOf ms → Checked α) :
    Checked α :=
  match h : find? key ms with
  | none => (Checked.issue .missing).inside (.key key)
  | some v => (load v (sizeOf_lt_of_find? h)).inside (.key key)

/-- The value of a key that may be left out. -/
def defaulted (ms : Members) (key : String) (default : α)
    (load : (v : Json) → sizeOf v < sizeOf ms → Checked α) : Checked α :=
  match h : find? key ms with
  | none => .valid default
  | some v => (load v (sizeOf_lt_of_find? h)).inside (.key key)

section

variable {ms : Members} {key : String} {v : Json} {default : α}
  {load : (v : Json) → sizeOf v < sizeOf ms → Checked α}

/-- What is found under a key is loaded, and seen from one step further out. -/
theorem required_of_find? (h : find? key ms = some v) :
    required ms key load = (load v (sizeOf_lt_of_find? h)).inside (.key key) := by
  unfold required
  split
  · next hnone => exact absurd (hnone.symm.trans h) (by simp)
  · next u hu =>
    obtain rfl := Option.some.inj (hu.symm.trans h)
    rfl

theorem required_of_not_find? (h : find? key ms = none) :
    required ms key load = (Checked.issue .missing).inside (.key key) := by
  unfold required
  split
  · rfl
  · next u hu => exact absurd (h.symm.trans hu) (by simp)

theorem defaulted_of_find? (h : find? key ms = some v) :
    defaulted ms key default load = required ms key load := by
  rw [required_of_find? h]
  unfold defaulted
  split
  · next hnone => exact absurd (hnone.symm.trans h) (by simp)
  · next u hu =>
    obtain rfl := Option.some.inj (hu.symm.trans h)
    rfl

theorem defaulted_of_not_find? (h : find? key ms = none) :
    defaulted ms key default load = .valid default := by
  unfold defaulted
  split
  · rfl
  · next u hu => exact absurd (h.symm.trans hu) (by simp)

end

/-- The kind may be left out, and otherwise must be this one. -/
def ofThisKind (ms : Members) (kind : Kind) : Checked Unit :=
  defaulted ms "kind" () fun v _ =>
    match v with
    | .string tag => if tag = kind.tag then .valid () else .issue .wrongKind
    | _ => .issue .wrongKind

/-- No keys but these. -/
def onlyKeys (ms : Members) (known : List String) : Checked Unit :=
  match (ms.map Prod.fst).filter (fun key => !known.contains key) with
  | [] => .valid ()
  | unknown => .invalid (unknown.map fun key => ⟨.unknownKey, [.key key]⟩)

/-- An object of a kind: the kind, its parts, and no other keys. -/
def model (ms : Members) (kind : Kind) (keys : List String) (parts : Checked α) : Checked α :=
  (((ofThisKind ms kind).map fun _ a _ => a).seq parts).seq (onlyKeys ms ("kind" :: keys))

end Json
end SchemaLang
