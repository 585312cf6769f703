/-
# The languages of the rules

Every kind of syntax tree has a language, the lexeme lists that its trees derive, and every
language is put together from smaller ones in the way in which the rule for it is put together
from smaller rules.  These equations are what joins statements about rules, which are made step
by step, to statements about trees.

Two languages are not simply put together.  A path is no type where its first word names a
built-in type, and a field without a modifier has no type that starts with the word of one.
`without` takes such words out.
-/
import SchemaLang.Proofs.Grammar.Following
import SchemaLang.Proofs.Grammar.Unambiguous

namespace SchemaLang.Grammar

open Computability

variable {α : Type} {L M : Language Lexeme} {rules : Rules}

/-! ## 1. Languages of trees -/

/-- What the trees with a property derive. -/
def yields (P : α → Prop) (f : α → List Lexeme) : Language Lexeme := {w | ∃ a, P a ∧ f a = w}

/-- The word of one given lexeme. -/
def the (l : Lexeme) : Language Lexeme := one (· = l)

theorem mem_the_iff {l : Lexeme} {w : List Lexeme} : w ∈ the l ↔ w = [l] := by
  constructor
  · rintro ⟨_, rfl, rfl⟩
    rfl
  · rintro rfl
    exact ⟨l, rfl, rfl⟩

theorem mem_the (l : Lexeme) : [l] ∈ the l := ⟨l, rfl, rfl⟩

/-- Trees in a row derive what one tree derives, any number of times. -/
theorem kstar_yields (P : α → Prop) (f : α → List Lexeme) :
    (yields P f)∗ = yields (fun as => ∀ a ∈ as, P a) (List.flatMap f) := by
  ext w
  rw [Language.mem_kstar]
  constructor
  · rintro ⟨ws, rfl, hws⟩
    induction ws with
    | nil => exact ⟨[], by simp, rfl⟩
    | cons w ws ih =>
      obtain ⟨a, ha, rfl⟩ := hws _ List.mem_cons_self
      obtain ⟨as, has, e⟩ := ih fun y hy => hws y (List.mem_cons_of_mem _ hy)
      refine ⟨a :: as, ?_, by rw [List.flatMap_cons, List.flatten_cons, e]⟩
      intro b hb
      rcases List.mem_cons.mp hb with rfl | hb
      · exact ha
      · exact has b hb
  · rintro ⟨as, has, rfl⟩
    refine ⟨as.map f, (List.flatMap_def ..), fun y hy => ?_⟩
    obtain ⟨a, ha, rfl⟩ := List.mem_map.mp hy
    exact ⟨a, has a ha, rfl⟩

/-! ## 2. Leaves, paths and types -/

def words : Language Lexeme := one fun l => ∃ w : Word, w.lexeme = l

def numerals : Language Lexeme := one fun l => ∃ n : Numeral, n.lexeme = l

def literals : Language Lexeme := one fun l => ∃ x : Literal, x.lexeme = l

def importPaths : Language Lexeme := one fun l => ∃ p : ImportPath, p.lexeme = l

/-- A lexeme that names a built-in type. -/
def IsPrimitive (l : Lexeme) : Prop := (primitive? l).isSome

/-- A lexeme that is a modifier. -/
def IsModifier (l : Lexeme) : Prop := (modifier? l).isSome

def paths : Language Lexeme := yields (fun _ => True) Path.lexemes

def types : Language Lexeme := yields (fun _ => True) TypeTree.lexemes

/-- Names with a dot in front of each. -/
def dottedWords : Language Lexeme := (the (.punct .dot) * words)∗

theorem mem_dottedWords {w : List Lexeme} : w ∈ dottedWords ↔ ∃ vs, dotted vs = w := by
  have hstep : the (.punct .dot) * words =
      yields (fun _ : Word => True) fun v => [.punct .dot, v.lexeme] := by
    ext w
    constructor
    · rintro ⟨_, ⟨_, rfl, rfl⟩, _, ⟨_, ⟨v, rfl⟩, rfl⟩, rfl⟩
      exact ⟨v, trivial, rfl⟩
    · rintro ⟨v, -, rfl⟩
      exact ⟨_, mem_the _, _, ⟨_, ⟨v, rfl⟩, rfl⟩, rfl⟩
  rw [dottedWords, hstep, kstar_yields]
  constructor
  · rintro ⟨vs, -, rfl⟩
    exact ⟨vs, rfl⟩
  · rintro ⟨vs, rfl⟩
    exact ⟨vs, fun _ _ => trivial, rfl⟩

theorem paths_eq : paths = words * dottedWords := by
  ext w
  constructor
  · rintro ⟨p, -, rfl⟩
    exact ⟨_, ⟨_, ⟨p.head, rfl⟩, rfl⟩, _, mem_dottedWords.mpr ⟨p.tail, rfl⟩, rfl⟩
  · rintro ⟨_, ⟨_, ⟨v, rfl⟩, rfl⟩, _, hvs, rfl⟩
    obtain ⟨vs, rfl⟩ := mem_dottedWords.mp hvs
    exact ⟨⟨v, vs⟩, trivial, rfl⟩

def mapTypes : Language Lexeme :=
  the (.keyword .kwMap) * (the (.punct .langle) * (types * (the (.punct .comma) *
    (types * the (.punct .rangle)))))

theorem mem_mapTypes {w : List Lexeme} :
    w ∈ mapTypes ↔ ∃ k v : TypeTree, (TypeTree.map k v).lexemes = w := by
  constructor
  · rintro ⟨_, ⟨_, rfl, rfl⟩, _, ⟨_, ⟨_, rfl, rfl⟩, _, ⟨_, ⟨k, -, rfl⟩, _, ⟨_, ⟨_, rfl, rfl⟩, _,
      ⟨_, ⟨v, -, rfl⟩, _, ⟨_, rfl, rfl⟩, rfl⟩, rfl⟩, rfl⟩, rfl⟩, rfl⟩
    exact ⟨k, v, rfl⟩
  · rintro ⟨k, v, rfl⟩
    exact ⟨_, mem_the _, _, ⟨_, mem_the _, _, ⟨_, ⟨k, trivial, rfl⟩, _, ⟨_, mem_the _, _,
      ⟨_, ⟨v, trivial, rfl⟩, _, mem_the _, rfl⟩, rfl⟩, rfl⟩, rfl⟩, rfl⟩

theorem isPrimitive_iff {l : Lexeme} :
    IsPrimitive l ↔ ∃ p, l = .keyword (primitiveKeyword p) := by
  constructor
  · intro h
    unfold IsPrimitive primitive? at h
    split at h
    · exact ⟨.int32, rfl⟩
    · exact ⟨.int64, rfl⟩
    · exact ⟨.string, rfl⟩
    · exact ⟨.boolean, rfl⟩
    · exact absurd h (by simp)
  · rintro ⟨p, rfl⟩
    cases p <;> rfl

/-- A path is a type where its first word names no built-in one. -/
theorem types_eq : types = one IsPrimitive + without (mapTypes + paths) IsPrimitive := by
  ext w
  constructor
  · rintro ⟨t, -, rfl⟩
    cases t with
    | primitive p => exact .inl ⟨_, isPrimitive_iff.mpr ⟨p, rfl⟩, rfl⟩
    | map k v =>
      refine .inr ⟨.inl (mem_mapTypes.mpr ⟨k, v, rfl⟩), fun l hl => ?_⟩
      obtain rfl : .keyword .kwMap = l := by simpa [TypeTree.lexemes] using hl
      simp [IsPrimitive, primitive?]
    | named path free =>
      refine .inr ⟨.inr ⟨path, trivial, rfl⟩, fun l hl => ?_⟩
      obtain rfl : path.head.lexeme = l := by simpa [TypeTree.lexemes, Path.lexemes] using hl
      simp [IsPrimitive, free]
  · rintro (⟨l, hl, rfl⟩ | ⟨hmap | ⟨path, -, rfl⟩, hfree⟩)
    · obtain ⟨p, rfl⟩ := isPrimitive_iff.mp hl
      exact ⟨.primitive p, trivial, rfl⟩
    · obtain ⟨k, v, rfl⟩ := mem_mapTypes.mp hmap
      exact ⟨.map k v, trivial, rfl⟩
    · have free : primitive? path.head.lexeme = none := by
        simpa [IsPrimitive] using hfree path.head.lexeme rfl
      exact ⟨.named path free, trivial, rfl⟩

/-! ## 3. Options -/

def keys : Language Lexeme := yields (fun _ => True) KeyTree.lexemes

def settings : Language Lexeme := yields (fun _ => True) SettingTree.lexemes

def optionStatements : Language Lexeme := yields (fun _ => True) SettingTree.statement

/-- Bracketed options in a row, none where they are not enabled. -/
def bracketRows (enabled : Bool) : Language Lexeme :=
  yields (fun os => enabled = false → os = []) bracketRow

theorem keys_eq :
    keys = the (.punct .lparen) * (words * (the (.punct .rparen) * dottedWords)) + words := by
  ext w
  constructor
  · rintro ⟨k, -, rfl⟩
    cases k with
    | plain v => exact .inr ⟨_, ⟨v, rfl⟩, rfl⟩
    | extension v vs =>
      exact .inl ⟨_, mem_the _, _, ⟨_, ⟨_, ⟨v, rfl⟩, rfl⟩, _, ⟨_, mem_the _, _,
        mem_dottedWords.mpr ⟨vs, rfl⟩, rfl⟩, rfl⟩, rfl⟩
  · rintro (⟨_, ⟨_, rfl, rfl⟩, _, ⟨_, ⟨_, ⟨v, rfl⟩, rfl⟩, _, ⟨_, ⟨_, rfl, rfl⟩, _, hvs, rfl⟩,
      rfl⟩, rfl⟩ | ⟨_, ⟨v, rfl⟩, rfl⟩)
    · obtain ⟨vs, rfl⟩ := mem_dottedWords.mp hvs
      exact ⟨.extension v vs, trivial, rfl⟩
    · exact ⟨.plain v, trivial, rfl⟩

theorem settings_eq : settings = keys * (the (.punct .equals) * literals) := by
  ext w
  constructor
  · rintro ⟨o, -, rfl⟩
    exact ⟨_, ⟨o.key, trivial, rfl⟩, _, ⟨_, mem_the _, _, ⟨_, ⟨o.value, rfl⟩, rfl⟩, rfl⟩, rfl⟩
  · rintro ⟨_, ⟨k, -, rfl⟩, _, ⟨_, ⟨_, rfl, rfl⟩, _, ⟨_, ⟨x, rfl⟩, rfl⟩, rfl⟩, rfl⟩
    exact ⟨⟨k, x⟩, trivial, rfl⟩

theorem optionStatements_eq :
    optionStatements = the (.keyword .kwOption) * (settings * the (.punct .semicolon)) := by
  ext w
  constructor
  · rintro ⟨o, -, rfl⟩
    exact ⟨_, mem_the _, _, ⟨_, ⟨o, trivial, rfl⟩, _, mem_the _, rfl⟩, rfl⟩
  · rintro ⟨_, ⟨_, rfl, rfl⟩, _, ⟨_, ⟨o, -, rfl⟩, _, ⟨_, rfl, rfl⟩, rfl⟩, rfl⟩
    exact ⟨o, trivial, rfl⟩

theorem bracketRows_true :
    bracketRows true = (the (.punct .lbracket) * (settings * the (.punct .rbracket)))∗ := by
  have hstep : the (.punct .lbracket) * (settings * the (.punct .rbracket)) =
      yields (fun _ => True) SettingTree.bracket := by
    ext w
    constructor
    · rintro ⟨_, ⟨_, rfl, rfl⟩, _, ⟨_, ⟨o, -, rfl⟩, _, ⟨_, rfl, rfl⟩, rfl⟩, rfl⟩
      exact ⟨o, trivial, rfl⟩
    · rintro ⟨o, -, rfl⟩
      exact ⟨_, mem_the _, _, ⟨_, ⟨o, trivial, rfl⟩, _, mem_the _, rfl⟩, rfl⟩
  rw [hstep, kstar_yields]
  ext w
  constructor
  · rintro ⟨os, -, rfl⟩
    exact ⟨os, fun _ _ => trivial, rfl⟩
  · rintro ⟨os, -, rfl⟩
    exact ⟨os, nofun, rfl⟩

theorem bracketRows_false : bracketRows false = 1 := by
  ext w
  constructor
  · rintro ⟨os, hos, rfl⟩
    rw [hos rfl]
    rfl
  · rintro rfl
    exact ⟨[], fun _ => rfl, rfl⟩

/-! ## 4. Enumerations -/

/-- Items and line breaks in any order between braces. -/
def bodies (lines : Language Lexeme) : Language Lexeme :=
  the (.punct .lbrace) * (lines∗ * the (.punct .rbrace))

/-- A body holds trees in a row. -/
theorem mem_bodies {P : α → Prop} {f : α → List Lexeme} {w : List Lexeme} :
    w ∈ bodies (yields P f) ↔
      ∃ as : List α, (∀ a ∈ as, P a) ∧
        .punct .lbrace :: (as.flatMap f ++ [Lexeme.punct .rbrace]) = w := by
  rw [bodies, kstar_yields]
  constructor
  · rintro ⟨_, ⟨_, rfl, rfl⟩, _, ⟨_, ⟨as, has, rfl⟩, _, ⟨_, rfl, rfl⟩, rfl⟩, rfl⟩
    exact ⟨as, has, rfl⟩
  · rintro ⟨as, has, rfl⟩
    exact ⟨_, mem_the _, _, ⟨_, ⟨as, has, rfl⟩, _, mem_the _, rfl⟩, rfl⟩

/-- A name, and a number behind it with bracketed options. -/
def tagged (enabled : Bool) : Language Lexeme :=
  words * (the (.punct .equals) * (numerals * (bracketRows enabled * the (.punct .semicolon))))

theorem mem_tagged {enabled : Bool} {w : List Lexeme} :
    w ∈ tagged enabled ↔ ∃ (v : Word) (n : Numeral) (os : List SettingTree),
      (enabled = false → os = []) ∧
        v.lexeme :: .punct .equals :: n.lexeme ::
          (bracketRow os ++ [Lexeme.punct .semicolon]) = w := by
  constructor
  · rintro ⟨_, ⟨_, ⟨v, rfl⟩, rfl⟩, _, ⟨_, ⟨_, rfl, rfl⟩, _, ⟨_, ⟨_, ⟨n, rfl⟩, rfl⟩, _,
      ⟨_, ⟨os, hos, rfl⟩, _, ⟨_, rfl, rfl⟩, rfl⟩, rfl⟩, rfl⟩, rfl⟩
    exact ⟨v, n, os, hos, rfl⟩
  · rintro ⟨v, n, os, hos, rfl⟩
    exact ⟨_, ⟨_, ⟨v, rfl⟩, rfl⟩, _, ⟨_, mem_the _, _, ⟨_, ⟨_, ⟨n, rfl⟩, rfl⟩, _,
      ⟨_, ⟨os, hos, rfl⟩, _, mem_the _, rfl⟩, rfl⟩, rfl⟩, rfl⟩

def enumItems (rules : Rules) : Language Lexeme := optionStatements + tagged rules.entryOptions

def enumLines (rules : Rules) : Language Lexeme := yields (EnumLine.Allowed rules) EnumLine.lexemes

def enumerations (rules : Rules) : Language Lexeme :=
  yields (EnumTree.Allowed rules) EnumTree.lexemes

theorem enumLines_eq (rules : Rules) : enumLines rules = the .newline + enumItems rules := by
  ext w
  constructor
  · rintro ⟨l, hl, rfl⟩
    cases l with
    | newline => exact .inl (mem_the _)
    | setting o => exact .inr (.inl ⟨o, trivial, rfl⟩)
    | entry e => exact .inr (.inr (mem_tagged.mpr ⟨e.name, e.tag, e.options, hl, rfl⟩))
  · rintro (⟨_, rfl, rfl⟩ | ⟨o, -, rfl⟩ | hw)
    · exact ⟨.newline, trivial, rfl⟩
    · exact ⟨.setting o, trivial, rfl⟩
    · obtain ⟨v, n, os, hos, rfl⟩ := mem_tagged.mp hw
      exact ⟨.entry ⟨v, n, os⟩, hos, rfl⟩

theorem enumerations_eq (rules : Rules) :
    enumerations rules = the (.keyword .kwEnum) * (words * bodies (enumLines rules)) := by
  ext w
  constructor
  · rintro ⟨e, he, rfl⟩
    exact ⟨_, mem_the _, _, ⟨_, ⟨_, ⟨e.name, rfl⟩, rfl⟩, _,
      mem_bodies.mpr ⟨e.body, he, rfl⟩, rfl⟩, rfl⟩
  · rintro ⟨_, ⟨_, rfl, rfl⟩, _, ⟨_, ⟨_, ⟨v, rfl⟩, rfl⟩, _, hbody, rfl⟩, rfl⟩
    obtain ⟨ls, hls, rfl⟩ := mem_bodies.mp hbody
    exact ⟨⟨v, ls⟩, hls, rfl⟩

/-! ## 5. Messages -/

/-- A field without its modifier. -/
def bareFields (rules : Rules) : Language Lexeme := types * tagged rules.fieldOptions

def fields (rules : Rules) : Language Lexeme :=
  yields (fun f => rules.fieldOptions = false → f.options = []) FieldTree.lexemes

def messages (rules : Rules) : Language Lexeme :=
  yields (fun m : Word × List MessageLine => MessageLine.AllAllowed rules m.2)
    fun m => (MessageLine.message m.1 m.2).lexemes

/-- What stands in the body of a message, besides line breaks. -/
def messageItems (rules : Rules) : Language Lexeme :=
  if rules.nestsEnumerations then
    optionStatements + (messages rules + (enumerations rules + fields rules))
  else optionStatements + (messages rules + fields rules)

def messageLines (rules : Rules) : Language Lexeme :=
  yields (MessageLine.Allowed rules) MessageLine.lexemes

theorem isModifier_iff {l : Lexeme} : IsModifier l ↔ ∃ m, l = .keyword (modifierKeyword m) := by
  constructor
  · intro h
    unfold IsModifier modifier? at h
    split at h
    · exact ⟨.required, rfl⟩
    · exact ⟨.optional, rfl⟩
    · exact ⟨.repeated, rfl⟩
    · exact absurd h (by simp)
  · rintro ⟨m, rfl⟩
    cases m <;> rfl

theorem fields_eq (rules : Rules) :
    fields rules = one IsModifier * bareFields rules + without (bareFields rules) IsModifier := by
  have bare : ∀ (t : TypeTree) (v : Word) (n : Numeral) (os : List SettingTree),
      (rules.fieldOptions = false → os = []) → t.lexemes ++ (v.lexeme :: .punct .equals ::
        n.lexeme :: (bracketRow os ++ [Lexeme.punct .semicolon])) ∈ bareFields rules :=
    fun t v n os hos => ⟨_, ⟨t, trivial, rfl⟩, _, mem_tagged.mpr ⟨v, n, os, hos, rfl⟩, rfl⟩
  ext w
  constructor
  · rintro ⟨f, hf, rfl⟩
    cases hm : f.modifier with
    | some m =>
      rw [FieldTree.lexemes_of_some hm]
      exact .inl ⟨_, ⟨_, isModifier_iff.mpr ⟨m, rfl⟩, rfl⟩, _, bare _ _ _ _ hf, rfl⟩
    | none =>
      rw [FieldTree.lexemes_of_none hm]
      refine .inr ⟨bare _ _ _ _ hf, fun l hl => ?_⟩
      rw [List.head?_append_of_ne_nil _ f.type.lexemes_ne_nil] at hl
      simp [IsModifier, f.free hm l hl]
  · rintro (⟨_, ⟨l, hl, rfl⟩, _, ⟨_, ⟨t, -, rfl⟩, _, htag, rfl⟩, rfl⟩ |
      ⟨⟨_, ⟨t, -, rfl⟩, _, htag, rfl⟩, hfree⟩)
    · obtain ⟨m, rfl⟩ := isModifier_iff.mp hl
      obtain ⟨v, n, os, hos, rfl⟩ := mem_tagged.mp htag
      exact ⟨⟨some m, t, v, n, os, nofun⟩, hos, FieldTree.lexemes_of_some rfl⟩
    · obtain ⟨v, n, os, hos, rfl⟩ := mem_tagged.mp htag
      rw [List.head?_append_of_ne_nil _ t.lexemes_ne_nil] at hfree
      have free : ∀ l ∈ t.lexemes.head?, modifier? l = none := fun l hl => by
        simpa [IsModifier] using hfree l hl
      exact ⟨⟨none, t, v, n, os, fun _ => free⟩, hos, FieldTree.lexemes_of_none rfl⟩

theorem messages_eq (rules : Rules) :
    messages rules = the (.keyword .kwMessage) * (words * bodies (messageLines rules)) := by
  ext w
  constructor
  · rintro ⟨⟨v, ls⟩, hls, rfl⟩
    refine ⟨_, mem_the _, _, ⟨_, ⟨_, ⟨v, rfl⟩, rfl⟩, _,
      mem_bodies.mpr ⟨ls, MessageLine.allAllowed_iff.mp hls, rfl⟩, rfl⟩, ?_⟩
    simp only [MessageLine.lexemes, MessageLine.allLexemes_eq]
    rfl
  · rintro ⟨_, ⟨_, rfl, rfl⟩, _, ⟨_, ⟨_, ⟨v, rfl⟩, rfl⟩, _, hbody, rfl⟩, rfl⟩
    obtain ⟨ls, hls, rfl⟩ := mem_bodies.mp hbody
    refine ⟨⟨v, ls⟩, MessageLine.allAllowed_iff.mpr hls, ?_⟩
    simp only [MessageLine.lexemes, MessageLine.allLexemes_eq]
    rfl

/-- An item is an option, a message, a field, or an enumeration where those may stand. -/
theorem mem_messageItems {w : List Lexeme} : w ∈ messageItems rules ↔
    w ∈ optionStatements ∨ w ∈ messages rules ∨
      (rules.nestsEnumerations = true ∧ w ∈ enumerations rules) ∨ w ∈ fields rules := by
  unfold messageItems
  split
  · next h => simp only [Language.mem_add, h, true_and]
  · next h => simp only [Language.mem_add, h, Bool.false_eq_true, false_and, false_or]

theorem messageLines_eq (rules : Rules) :
    messageLines rules = the .newline + messageItems rules := by
  ext w
  rw [Language.mem_add, mem_messageItems]
  constructor
  · rintro ⟨l, hl, rfl⟩
    cases l with
    | newline => exact .inl (by simpa [MessageLine.lexemes] using mem_the _)
    | setting o => exact .inr (.inl ⟨o, trivial, by rw [MessageLine.lexemes]⟩)
    | message v body =>
      rw [MessageLine.Allowed] at hl
      exact .inr (.inr (.inl ⟨⟨v, body⟩, hl, rfl⟩))
    | enumeration e =>
      rw [MessageLine.Allowed] at hl
      exact .inr (.inr (.inr (.inl ⟨hl.1, e, hl.2, by rw [MessageLine.lexemes]⟩)))
    | field f =>
      rw [MessageLine.Allowed] at hl
      exact .inr (.inr (.inr (.inr ⟨f, hl, by rw [MessageLine.lexemes]⟩)))
  · rintro (⟨_, rfl, rfl⟩ | ⟨o, -, rfl⟩ | ⟨m, hm, rfl⟩ | ⟨hn, e, he, rfl⟩ | ⟨f, hf, rfl⟩)
    · exact ⟨.newline, by simp [MessageLine.Allowed], by rw [MessageLine.lexemes]⟩
    · exact ⟨.setting o, by simp [MessageLine.Allowed], by rw [MessageLine.lexemes]⟩
    · exact ⟨.message m.1 m.2, by simpa [MessageLine.Allowed] using hm, rfl⟩
    · exact ⟨.enumeration e, by rw [MessageLine.Allowed]; exact ⟨hn, he⟩, by
        rw [MessageLine.lexemes]⟩
    · exact ⟨.field f, by rw [MessageLine.Allowed]; exact hf, by rw [MessageLine.lexemes]⟩

/-! ## 6. Statements and documents -/

/-- A string that a syntax statement may name. -/
def IsSyntaxValue (rules : Rules) (l : Lexeme) : Prop :=
  ∃ v : Word, l = .string v.text ∧ ∀ values ∈ rules.syntaxValues, v.text ∈ values

def syntaxStatements (rules : Rules) : Language Lexeme :=
  the (.keyword .kwSyntax) * (the (.punct .equals) * (one (IsSyntaxValue rules) *
    the (.punct .semicolon)))

def packageStatements : Language Lexeme :=
  the (.keyword .kwPackage) * (paths * the (.punct .semicolon))

/-- `public` in a row: once at the most, where the dialect does not let it be repeated. -/
def importModifiers (rules : Rules) : Language Lexeme :=
  the (.keyword .kwPublic) *
    (if rules.repeatsImportModifier then (the (.keyword .kwPublic))∗ else 1) + 1

def importStatements (rules : Rules) : Language Lexeme :=
  the (.keyword .kwImport) * (importModifiers rules * (importPaths * the (.punct .semicolon)))

def statements (rules : Rules) : Language Lexeme :=
  syntaxStatements rules + (packageStatements + (importStatements rules +
    (optionStatements + (messages rules + enumerations rules))))

def documentLines (rules : Rules) : Language Lexeme :=
  yields (DocumentLine.Allowed rules) DocumentLine.lexemes

def documents (rules : Rules) : Language Lexeme :=
  yields (DocumentTree.Allowed rules) DocumentTree.lexemes

theorem flatMap_public (us : List Unit) :
    (us.flatMap fun _ => [Lexeme.keyword .kwPublic]) =
      List.replicate us.length (.keyword .kwPublic) := by
  induction us with
  | nil => rfl
  | cons u us ih => exact congrArg (_ :: ·) ih

theorem mem_kstar_public {w : List Lexeme} :
    w ∈ (the (.keyword .kwPublic))∗ ↔ ∃ n, List.replicate n (.keyword .kwPublic) = w := by
  have hstep : the (.keyword .kwPublic) =
      yields (fun _ : Unit => True) fun _ => [.keyword .kwPublic] := by
    ext w
    rw [mem_the_iff]
    exact ⟨fun h => ⟨(), trivial, h.symm⟩, fun ⟨_, _, h⟩ => h.symm⟩
  rw [hstep, kstar_yields]
  constructor
  · rintro ⟨us, -, rfl⟩
    exact ⟨us.length, (flatMap_public us).symm⟩
  · rintro ⟨n, rfl⟩
    refine ⟨List.replicate n (), fun _ _ => trivial, ?_⟩
    rw [flatMap_public, List.length_replicate]

theorem mem_importModifiers {w : List Lexeme} : w ∈ importModifiers rules ↔
    ∃ n, (rules.repeatsImportModifier = false → n ≤ 1) ∧
      List.replicate n (.keyword .kwPublic) = w := by
  unfold importModifiers
  constructor
  · rintro (⟨_, ⟨_, rfl, rfl⟩, u, hu, rfl⟩ | rfl)
    · split at hu
      · next h =>
        obtain ⟨n, rfl⟩ := mem_kstar_public.mp hu
        exact ⟨n + 1, by simp [h], rfl⟩
      · obtain rfl := hu
        exact ⟨1, fun _ => Nat.le_refl 1, rfl⟩
    · exact ⟨0, by simp, rfl⟩
  · rintro ⟨n, hn, rfl⟩
    cases n with
    | zero => exact .inr rfl
    | succ n =>
      refine .inl ⟨_, mem_the _, List.replicate n (.keyword .kwPublic), ?_, rfl⟩
      split
      · exact mem_kstar_public.mpr ⟨n, rfl⟩
      · next h =>
        obtain rfl : n = 0 := by simpa using hn (by simpa using h)
        rfl

theorem documentLines_eq (rules : Rules) :
    documentLines rules = the .newline + statements rules := by
  ext w
  constructor
  · rintro ⟨l, hl, rfl⟩
    cases l with
    | newline => exact .inl (mem_the _)
    | syntaxDecl v =>
      exact .inr (.inl ⟨_, mem_the _, _, ⟨_, mem_the _, _, ⟨_, ⟨_, ⟨v, rfl, hl⟩, rfl⟩, _,
        mem_the _, rfl⟩, rfl⟩, rfl⟩)
    | packageDecl path =>
      exact .inr (.inr (.inl ⟨_, mem_the _, _, ⟨_, ⟨path, trivial, rfl⟩, _, mem_the _, rfl⟩,
        rfl⟩))
    | importDecl n path =>
      exact .inr (.inr (.inr (.inl ⟨_, mem_the _, _, ⟨_, mem_importModifiers.mpr ⟨n, hl, rfl⟩, _,
        ⟨_, ⟨_, ⟨path, rfl⟩, rfl⟩, _, mem_the _, rfl⟩, rfl⟩, rfl⟩)))
    | setting o => exact .inr (.inr (.inr (.inr (.inl ⟨o, trivial, rfl⟩))))
    | message v body => exact .inr (.inr (.inr (.inr (.inr (.inl ⟨⟨v, body⟩, hl, rfl⟩)))))
    | enumeration e => exact .inr (.inr (.inr (.inr (.inr (.inr ⟨e, hl, rfl⟩)))))
  · rintro (⟨_, rfl, rfl⟩ | hsyntax | hpackage | himport | ⟨o, -, rfl⟩ | ⟨m, hm, rfl⟩ |
      ⟨e, he, rfl⟩)
    · exact ⟨.newline, trivial, rfl⟩
    · obtain ⟨_, ⟨_, rfl, rfl⟩, _, ⟨_, ⟨_, rfl, rfl⟩, _, ⟨_, ⟨_, ⟨v, rfl, hv⟩, rfl⟩, _,
        ⟨_, rfl, rfl⟩, rfl⟩, rfl⟩, rfl⟩ := hsyntax
      exact ⟨.syntaxDecl v, hv, rfl⟩
    · obtain ⟨_, ⟨_, rfl, rfl⟩, _, ⟨_, ⟨path, -, rfl⟩, _, ⟨_, rfl, rfl⟩, rfl⟩, rfl⟩ := hpackage
      exact ⟨.packageDecl path, trivial, rfl⟩
    · obtain ⟨_, ⟨_, rfl, rfl⟩, _, ⟨_, hpublic, _, ⟨_, ⟨_, ⟨path, rfl⟩, rfl⟩, _,
        ⟨_, rfl, rfl⟩, rfl⟩, rfl⟩, rfl⟩ := himport
      obtain ⟨n, hn, rfl⟩ := mem_importModifiers.mp hpublic
      exact ⟨.importDecl n path, hn, rfl⟩
    · exact ⟨.setting o, trivial, rfl⟩
    · exact ⟨.message m.1 m.2, hm, rfl⟩
    · exact ⟨.enumeration e, he, rfl⟩

/-- Where an empty document is allowed, a document is any number of lines. -/
theorem documents_eq_kstar (h : rules.allowsEmptyDocument = true) :
    documents rules = (documentLines rules)∗ := by
  rw [documentLines, kstar_yields]
  ext w
  constructor
  · rintro ⟨t, ht, rfl⟩
    exact ⟨t.lines, ht.lines, rfl⟩
  · rintro ⟨ls, hls, rfl⟩
    exact ⟨⟨ls⟩, ⟨hls, by simp [h]⟩, rfl⟩

/-- Where it is not, there is a first line. -/
theorem documents_eq_mul (h : rules.allowsEmptyDocument = false) :
    documents rules = documentLines rules * (documentLines rules)∗ := by
  rw [documentLines, kstar_yields]
  ext w
  constructor
  · rintro ⟨⟨ls⟩, ⟨hls, hne⟩, rfl⟩
    cases ls with
    | nil => exact absurd rfl (hne h)
    | cons l ls =>
      exact ⟨_, ⟨l, hls l List.mem_cons_self, rfl⟩, _,
        ⟨ls, fun m hm => hls m (List.mem_cons_of_mem _ hm), rfl⟩, rfl⟩
  · rintro ⟨_, ⟨l, hl, rfl⟩, _, ⟨ls, hls, rfl⟩, rfl⟩
    refine ⟨⟨l :: ls⟩, ⟨fun m hm => ?_, by simp⟩, rfl⟩
    rcases List.mem_cons.mp hm with rfl | hm
    · exact hl
    · exact hls m hm

end SchemaLang.Grammar
