/-
# The names in a syntax tree

A leaf of a tree stands as a name, or it stands for something else.  `leaves` reads the leaves off
like `lexemes` does, and keeps the two apart.  The names are those of messages, enumerations,
fields, entries and options, the words of the path behind an option, those of a package, and those
of a path that stands for a type but for the first.  The first word of a type is not counted among
the names, as the keywords of modifiers, built-in types and items are looked for there.

Leaves are alike where they differ in the words of names only.
-/
import Mathlib.Data.List.Forall2
import SchemaLang.Proofs.Grammar.Tree

namespace SchemaLang.Grammar

/-! ## 1. Leaves -/

/-- A word that stands as a name, or any other lexeme. -/
inductive Leaf
  | name (w : Word)
  | other (l : Lexeme)
  deriving DecidableEq

namespace Leaf

def lexeme : Leaf → Lexeme
  | name w => w.lexeme
  | other l => l

def name? : Leaf → Option String
  | name w => some w.text
  | other _ => none

/-- The leaves are equal, or both of them stand as names. -/
inductive Alike : Leaf → Leaf → Prop
  | name (v w : Word) : Alike (name v) (name w)
  | other (l : Lexeme) : Alike (other l) (other l)

end Leaf

/-- The names among some leaves. -/
def namesOf (ls : List Leaf) : List String := ls.filterMap Leaf.name?

@[simp] theorem namesOf_nil : namesOf [] = [] := rfl

@[simp] theorem namesOf_name (w : Word) (ls : List Leaf) :
    namesOf (.name w :: ls) = w.text :: namesOf ls := rfl

@[simp] theorem namesOf_other (l : Lexeme) (ls : List Leaf) :
    namesOf (.other l :: ls) = namesOf ls := rfl

@[simp] theorem namesOf_append (ls ms : List Leaf) :
    namesOf (ls ++ ms) = namesOf ls ++ namesOf ms := List.filterMap_append

theorem namesOf_others (ks : List Lexeme) : namesOf (ks.map .other) = [] := by
  induction ks with
  | nil => rfl
  | cons l ks ih => exact ih

/-! ## 2. Leaves that are alike -/

/-- The leaves are alike one by one. -/
abbrev AlikeAll (ls ms : List Leaf) : Prop := List.Forall₂ Leaf.Alike ls ms

variable {ls ms as bs : List Leaf}

@[simp] theorem alikeAll_nil : AlikeAll [] ms ↔ ms = [] := List.forall₂_nil_left_iff

@[simp] theorem alikeAll_name {v : Word} :
    AlikeAll (.name v :: ls) ms ↔ ∃ w ms', AlikeAll ls ms' ∧ ms = .name w :: ms' := by
  constructor
  · rintro (_ | ⟨⟨_, w⟩, htail⟩)
    exact ⟨w, _, htail, rfl⟩
  · rintro ⟨w, ms', htail, rfl⟩
    exact .cons (.name v w) htail

@[simp] theorem alikeAll_other {l : Lexeme} :
    AlikeAll (.other l :: ls) ms ↔ ∃ ms', AlikeAll ls ms' ∧ ms = .other l :: ms' := by
  constructor
  · rintro (_ | ⟨_ | _, htail⟩)
    exact ⟨_, htail, rfl⟩
  · rintro ⟨ms', htail, rfl⟩
    exact .cons (.other l) htail

@[simp] theorem alikeAll_append :
    AlikeAll (ls ++ ms) as ↔ ∃ ls' ms', AlikeAll ls ls' ∧ AlikeAll ms ms' ∧ as = ls' ++ ms' := by
  constructor
  · intro h
    induction ls generalizing as with
    | nil => exact ⟨[], as, .nil, h, rfl⟩
    | cons l ls ih =>
      cases h with
      | cons hhead htail =>
        obtain ⟨ls', ms', hls, hms, rfl⟩ := ih htail
        exact ⟨_ :: ls', ms', .cons hhead hls, hms, rfl⟩
  · rintro ⟨ls', ms', hls, hms, rfl⟩
    exact List.rel_append hls hms

/-- Where nothing is a name, only the leaves themselves are alike. -/
theorem eq_of_alikeAll_others {ks : List Lexeme} (h : AlikeAll (ks.map .other) ms) :
    ms = ks.map .other := by
  induction ks generalizing ms with
  | nil => exact alikeAll_nil.mp h
  | cons l ks ih =>
    obtain ⟨ms', htail, rfl⟩ := alikeAll_other.mp h
    exact congrArg (_ :: ·) (ih htail)

theorem alikeAll_refl (ls : List Leaf) : AlikeAll ls ls := by
  refine List.forall₂_same.mpr fun l _ => ?_
  cases l with
  | name w => exact .name w w
  | other l => exact .other l

/-! ## 3. The leaves of trees -/

/-- Words with a dot in front of each, as names. -/
def dottedLeaves (ws : List Word) : List Leaf := ws.flatMap fun w => [.other (.punct .dot), .name w]

theorem map_lexeme_dottedLeaves (ws : List Word) :
    (dottedLeaves ws).map Leaf.lexeme = dotted ws := by
  rw [dottedLeaves, dotted, List.map_flatMap]
  rfl

/-- The words of a path, all of them as names. -/
def Path.leaves (p : Path) : List Leaf := .name p.head :: dottedLeaves p.tail

@[simp] theorem Path.map_lexeme_leaves (p : Path) : p.leaves.map Leaf.lexeme = p.lexemes :=
  congrArg (p.head.lexeme :: ·) (map_lexeme_dottedLeaves p.tail)

/-- The first word of a path that stands for a type is no name. -/
def TypeTree.leaves : TypeTree → List Leaf
  | primitive p => [.other (.keyword (primitiveKeyword p))]
  | map key value =>
    .other (.keyword .kwMap) :: .other (.punct .langle) :: (key.leaves ++
      .other (.punct .comma) :: (value.leaves ++ [.other (.punct .rangle)]))
  | named path _ => .other path.head.lexeme :: dottedLeaves path.tail

@[simp] theorem TypeTree.map_lexeme_leaves (t : TypeTree) :
    t.leaves.map Leaf.lexeme = t.lexemes := by
  induction t with
  | primitive p => rfl
  | map key value hkey hvalue =>
    simp only [leaves, lexemes, List.map_cons, List.map_append, hkey, hvalue]
    rfl
  | named path free =>
    exact congrArg (path.head.lexeme :: ·) (map_lexeme_dottedLeaves path.tail)

def KeyTree.leaves : KeyTree → List Leaf
  | plain name => [.name name]
  | extension name suffix =>
    .other (.punct .lparen) :: .name name :: .other (.punct .rparen) :: dottedLeaves suffix

@[simp] theorem KeyTree.map_lexeme_leaves (k : KeyTree) :
    k.leaves.map Leaf.lexeme = k.lexemes := by
  cases k with
  | plain name => rfl
  | extension name suffix =>
    simp only [leaves, lexemes, List.map_cons, map_lexeme_dottedLeaves]
    rfl

namespace SettingTree

def leaves (o : SettingTree) : List Leaf :=
  o.key.leaves ++ [.other (.punct .equals), .other o.value.lexeme]

def statementLeaves (o : SettingTree) : List Leaf :=
  .other (.keyword .kwOption) :: (o.leaves ++ [.other (.punct .semicolon)])

def bracketLeaves (o : SettingTree) : List Leaf :=
  .other (.punct .lbracket) :: (o.leaves ++ [.other (.punct .rbracket)])

@[simp] theorem map_lexeme_statementLeaves (o : SettingTree) :
    o.statementLeaves.map Leaf.lexeme = o.statement := by
  simp [statementLeaves, leaves, statement, lexemes, Leaf.lexeme]

theorem map_lexeme_bracketLeaves (o : SettingTree) :
    o.bracketLeaves.map Leaf.lexeme = o.bracket := by
  simp [bracketLeaves, leaves, bracket, lexemes, Leaf.lexeme]

end SettingTree

/-- A name, its number and its bracketed options. -/
def taggedLeaves (name : Word) (tag : Numeral) (options : List SettingTree) : List Leaf :=
  .name name :: .other (.punct .equals) :: .other tag.lexeme ::
    (options.flatMap SettingTree.bracketLeaves ++ [.other (.punct .semicolon)])

@[simp] theorem map_lexeme_taggedLeaves (name : Word) (tag : Numeral)
    (options : List SettingTree) : (taggedLeaves name tag options).map Leaf.lexeme =
      name.lexeme :: .punct .equals :: tag.lexeme ::
        (bracketRow options ++ [Lexeme.punct .semicolon]) := by
  simp [taggedLeaves, bracketRow, Leaf.lexeme, List.map_flatMap,
    SettingTree.map_lexeme_bracketLeaves]

def EnumLine.leaves : EnumLine → List Leaf
  | newline => [.other .newline]
  | setting o => o.statementLeaves
  | entry e => taggedLeaves e.name e.tag e.options

@[simp] theorem EnumLine.map_lexeme_leaves (l : EnumLine) :
    l.leaves.map Leaf.lexeme = l.lexemes := by
  cases l with
  | newline => rfl
  | setting o => exact o.map_lexeme_statementLeaves
  | entry e => exact map_lexeme_taggedLeaves e.name e.tag e.options

def EnumTree.leaves (e : EnumTree) : List Leaf :=
  .other (.keyword .kwEnum) :: .name e.name :: .other (.punct .lbrace) ::
    (e.body.flatMap EnumLine.leaves ++ [.other (.punct .rbrace)])

@[simp] theorem EnumTree.map_lexeme_leaves (e : EnumTree) :
    e.leaves.map Leaf.lexeme = e.lexemes := by
  simp [leaves, lexemes, Leaf.lexeme, List.map_flatMap]

def FieldTree.leaves (f : FieldTree) : List Leaf :=
  f.modifier.toList.map (fun m => .other (.keyword (modifierKeyword m))) ++
    (f.type.leaves ++ taggedLeaves f.name f.tag f.options)

@[simp] theorem FieldTree.map_lexeme_leaves (f : FieldTree) :
    f.leaves.map Leaf.lexeme = f.lexemes := by
  simp [leaves, lexemes, Leaf.lexeme, Function.comp_def]

namespace MessageLine

mutual

def leaves : MessageLine → List Leaf
  | newline => [.other .newline]
  | setting o => o.statementLeaves
  | message name body =>
    .other (.keyword .kwMessage) :: .name name :: .other (.punct .lbrace) ::
      (allLeaves body ++ [.other (.punct .rbrace)])
  | enumeration e => e.leaves
  | field f => f.leaves

def allLeaves : List MessageLine → List Leaf
  | [] => []
  | l :: ls => leaves l ++ allLeaves ls

end

mutual

@[simp] theorem map_lexeme_leaves (l : MessageLine) : l.leaves.map Leaf.lexeme = l.lexemes := by
  cases l with
  | newline => simp [leaves, lexemes, Leaf.lexeme]
  | setting o => simp [leaves, lexemes]
  | message name body => simp [leaves, lexemes, Leaf.lexeme, map_lexeme_allLeaves body]
  | enumeration e => simp [leaves, lexemes]
  | field f => simp [leaves, lexemes]

theorem map_lexeme_allLeaves (ls : List MessageLine) :
    (allLeaves ls).map Leaf.lexeme = allLexemes ls := by
  cases ls with
  | nil => simp [allLeaves, allLexemes]
  | cons l ls => simp [allLeaves, allLexemes, map_lexeme_leaves l, map_lexeme_allLeaves ls]

end

end MessageLine

def DocumentLine.leaves : DocumentLine → List Leaf
  | packageDecl path =>
    .other (.keyword .kwPackage) :: (path.leaves ++ [.other (.punct .semicolon)])
  | setting o => o.statementLeaves
  | message name body => (MessageLine.message name body).leaves
  | enumeration e => e.leaves
  | line => line.lexemes.map .other

@[simp] theorem DocumentLine.map_lexeme_leaves (l : DocumentLine) :
    l.leaves.map Leaf.lexeme = l.lexemes := by
  cases l with
  | newline => rfl
  | syntaxDecl value => rfl
  | packageDecl path => simp [leaves, lexemes, Leaf.lexeme]
  | importDecl publics path => simp [leaves, Function.comp_def, Leaf.lexeme]
  | setting o => simp [leaves, lexemes]
  | message name body => exact MessageLine.map_lexeme_leaves _
  | enumeration e => simp [leaves, lexemes]

/-- All leaves of a text. -/
def DocumentTree.leaves (t : DocumentTree) : List Leaf := t.lines.flatMap DocumentLine.leaves

/-- The leaves are those that the tree derives. -/
theorem DocumentTree.map_lexeme_leaves (t : DocumentTree) :
    t.leaves.map Leaf.lexeme = t.lexemes := by
  simp [leaves, lexemes, List.map_flatMap]

end SchemaLang.Grammar
