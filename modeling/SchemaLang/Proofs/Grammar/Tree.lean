/-
# Syntax trees

A syntax tree is a derivation in the grammar, kept as data: one node for every use of a rule, and
at the leaves what the text has there.  `lexemes` reads the leaves off from left to right, and
the tree derives exactly that list.  `document` forgets what has no meaning: line breaks, leading
zeros, and how often `public` was written.

Choice in the grammar is unordered here, and repetition takes any number of rounds.  Two side
conditions are part of the trees, as proofs in their nodes.

* No path that stands for a type starts with the name of a built-in type.
* No field without a modifier has a type that starts with the word of a modifier.

What the dialects allow is a predicate on top (`DocumentTree.Allowed`), so that trees of both
dialects can be compared.
-/
import SchemaLang.Grammar.Productions
import SchemaLang.Proofs.Scanner.Shape

namespace SchemaLang.Grammar

open Text

/-! ## 1. Leaves -/

/-- A word in the place of a name.  Whether it is also a keyword is seen from its spelling. -/
structure Word where
  text : String
  spelled : isName text.toList
  deriving DecidableEq

def Word.lexeme (w : Word) : Lexeme := .ofWord w.text

/-- An integer that is short enough to be read. -/
structure Numeral where
  digits : String
  nonempty : digits.toList ≠ []
  decimal : ∀ c ∈ digits.toList, c.isDigit
  short : digits.toList.length ≤ maxDigits
  deriving DecidableEq

namespace Numeral

def lexeme (n : Numeral) : Lexeme := .integer n.digits

def value (n : Numeral) : Nat := digitsValue n.digits.toList

end Numeral

/-- A text that can stand between quotes. -/
structure Quotation where
  text : String
  inside : ∀ c ∈ text.toList, isStringPart c
  deriving DecidableEq

def Quotation.lexeme (q : Quotation) : Lexeme := .string q.text

/-- The path of an import. -/
structure ImportPath where
  text : String
  joined : isImportPath text.toList
  deriving DecidableEq

def ImportPath.lexeme (p : ImportPath) : Lexeme := .string p.text

/-- The value of an option, as written. -/
inductive Literal
  | number (n : Numeral)
  | text (q : Quotation)
  | boolean (b : Bool)
  deriving DecidableEq

namespace Literal

def lexeme : Literal → Lexeme
  | number n => n.lexeme
  | text q => q.lexeme
  | boolean true => .keyword .kwTrue
  | boolean false => .keyword .kwFalse

def constant : Literal → Constant
  | number n => .numeric n.value
  | text q => .string q.text
  | boolean b => .boolean b

end Literal

/-! ## 2. Paths and types -/

/-- Words with a dot in front of each. -/
def dotted (ws : List Word) : List Lexeme := ws.flatMap fun w => [.punct .dot, w.lexeme]

/-- One or more words with dots between them. -/
structure Path where
  head : Word
  tail : List Word
  deriving DecidableEq

namespace Path

def lexemes (p : Path) : List Lexeme := p.head.lexeme :: dotted p.tail

def text (p : Path) : String := joinDots (p.head.text :: p.tail.map Word.text)

end Path

/-- The keyword of a built-in type. -/
def primitiveKeyword : PrimitiveType → Keyword
  | .int32 => .kwInt32
  | .int64 => .kwInt64
  | .string => .kwString
  | .boolean => .kwBoolean

/-- A type.  A path is no type where its first word names a built-in one. -/
inductive TypeTree
  | primitive (p : PrimitiveType)
  | map (key value : TypeTree)
  | named (path : Path) (free : primitive? path.head.lexeme = none)
  deriving DecidableEq

namespace TypeTree

def lexemes : TypeTree → List Lexeme
  | primitive p => [.keyword (primitiveKeyword p)]
  | map key value =>
    .keyword .kwMap :: .punct .langle :: (key.lexemes ++ .punct .comma ::
      (value.lexemes ++ [.punct .rangle]))
  | named path _ => path.lexemes

def type : TypeTree → TypeRef
  | primitive p => .primitive p
  | map key value => .map key.type value.type
  | named path _ => .named path.text

end TypeTree

/-! ## 3. Options -/

/-- The left side of an option. -/
inductive KeyTree
  | plain (name : Word)
  | extension (name : Word) (suffix : List Word)
  deriving DecidableEq

def KeyTree.lexemes : KeyTree → List Lexeme
  | plain name => [name.lexeme]
  | extension name suffix => .punct .lparen :: name.lexeme :: .punct .rparen :: dotted suffix

/-- An option without the words and marks around it. -/
structure SettingTree where
  key : KeyTree
  value : Literal
  deriving DecidableEq

namespace SettingTree

def lexemes (o : SettingTree) : List Lexeme :=
  o.key.lexemes ++ [.punct .equals, o.value.lexeme]

/-- The option as a statement. -/
def statement (o : SettingTree) : List Lexeme :=
  .keyword .kwOption :: (o.lexemes ++ [.punct .semicolon])

/-- The option in brackets. -/
def bracket (o : SettingTree) : List Lexeme :=
  .punct .lbracket :: (o.lexemes ++ [.punct .rbracket])

def setting (o : SettingTree) : OptionSetting :=
  match o.key with
  | .plain name => ⟨name.text, false, none, o.value.constant⟩
  | .extension name [] => ⟨name.text, true, none, o.value.constant⟩
  | .extension name (w :: ws) =>
    ⟨name.text, true, some (joinDots (w.text :: ws.map Word.text)), o.value.constant⟩

end SettingTree

/-- Bracketed options in a row. -/
def bracketRow (os : List SettingTree) : List Lexeme := os.flatMap SettingTree.bracket

/-! ## 4. Enumerations -/

/-- An entry of an enumeration. -/
structure EntryTree where
  name : Word
  tag : Numeral
  options : List SettingTree
  deriving DecidableEq

namespace EntryTree

def lexemes (e : EntryTree) : List Lexeme :=
  e.name.lexeme :: .punct .equals :: e.tag.lexeme :: (bracketRow e.options ++ [.punct .semicolon])

def entry (e : EntryTree) : EnumEntry :=
  ⟨e.name.text, e.tag.value, e.options.map SettingTree.setting⟩

end EntryTree

/-- A line of the body of an enumeration. -/
inductive EnumLine
  | newline
  | setting (o : SettingTree)
  | entry (e : EntryTree)
  deriving DecidableEq

namespace EnumLine

def lexemes : EnumLine → List Lexeme
  | newline => [.newline]
  | setting o => o.statement
  | entry e => e.lexemes

def item? : EnumLine → Option EnumItem
  | newline => none
  | setting o => some (.setting o.setting)
  | entry e => some (.entry e.entry)

/-- Entries carry options where the dialect lets them. -/
def Allowed (rules : Rules) : EnumLine → Prop
  | newline => True
  | setting _ => True
  | entry e => rules.entryOptions = false → e.options = []

end EnumLine

/-- An enumeration. -/
structure EnumTree where
  name : Word
  body : List EnumLine
  deriving DecidableEq

namespace EnumTree

def lexemes (e : EnumTree) : List Lexeme :=
  .keyword .kwEnum :: e.name.lexeme :: .punct .lbrace ::
    (e.body.flatMap EnumLine.lexemes ++ [.punct .rbrace])

def enumeration (e : EnumTree) : Enumeration := ⟨e.name.text, e.body.filterMap EnumLine.item?⟩

def Allowed (rules : Rules) (e : EnumTree) : Prop := ∀ l ∈ e.body, l.Allowed rules

end EnumTree

/-! ## 5. Messages -/

/-- The keyword of a modifier. -/
def modifierKeyword : FieldModifier → Keyword
  | .required => .kwRequired
  | .optional => .kwOptional
  | .repeated => .kwRepeated

/-- A field.  Where it has no modifier its type does not start with the word of one. -/
structure FieldTree where
  modifier : Option FieldModifier
  type : TypeTree
  name : Word
  tag : Numeral
  options : List SettingTree
  free : modifier = none → ∀ l ∈ type.lexemes.head?, modifier? l = none
  deriving DecidableEq

namespace FieldTree

def lexemes (f : FieldTree) : List Lexeme :=
  f.modifier.toList.map (fun m => .keyword (modifierKeyword m)) ++
    (f.type.lexemes ++ f.name.lexeme :: .punct .equals :: f.tag.lexeme ::
      (bracketRow f.options ++ [.punct .semicolon]))

def field (f : FieldTree) : Field :=
  ⟨f.modifier, f.type.type, f.name.text, f.tag.value, f.options.map SettingTree.setting⟩

/-- The option that reads exactly like the field: `option x = 1 ;` is a field of type `option`,
and it is an option. -/
def asSetting? (f : FieldTree) : Option SettingTree :=
  if f.modifier = none ∧ f.type.lexemes = [.keyword .kwOption] ∧ f.options = [] then
    some ⟨.plain f.name, .number f.tag⟩
  else none

end FieldTree

/-- A line of the body of a message. -/
inductive MessageLine
  | newline
  | setting (o : SettingTree)
  | message (name : Word) (body : List MessageLine)
  | enumeration (e : EnumTree)
  | field (f : FieldTree)

namespace MessageLine

mutual

def lexemes : MessageLine → List Lexeme
  | newline => [.newline]
  | setting o => o.statement
  | message name body =>
    .keyword .kwMessage :: name.lexeme :: .punct .lbrace :: (allLexemes body ++ [.punct .rbrace])
  | enumeration e => e.lexemes
  | field f => f.lexemes

def allLexemes : List MessageLine → List Lexeme
  | [] => []
  | l :: ls => lexemes l ++ allLexemes ls

end

mutual

def item? : MessageLine → Option MessageItem
  | newline => none
  | setting o => some (.setting o.setting)
  | message name body => some (.message name.text (items body))
  | enumeration e => some (.enumeration e.enumeration)
  | field f => some (.field f.field)

def items : List MessageLine → List MessageItem
  | [] => []
  | l :: ls => (item? l).toList ++ items ls

end

mutual

/-- Enumerations stand inside messages, and fields and entries carry options, where the dialect
lets them. -/
def Allowed (rules : Rules) : MessageLine → Prop
  | newline => True
  | setting _ => True
  | message _ body => AllAllowed rules body
  | enumeration e => rules.nestsEnumerations = true ∧ e.Allowed rules
  | field f => rules.fieldOptions = false → f.options = []

def AllAllowed (rules : Rules) : List MessageLine → Prop
  | [] => True
  | l :: ls => Allowed rules l ∧ AllAllowed rules ls

end

mutual

/-- The same line with every field that reads like an option made the option. -/
def preferred : MessageLine → MessageLine
  | newline => newline
  | setting o => setting o
  | message name body => message name (allPreferred body)
  | enumeration e => enumeration e
  | field f => f.asSetting?.elim (field f) setting

def allPreferred : List MessageLine → List MessageLine
  | [] => []
  | l :: ls => preferred l :: allPreferred ls

end

theorem allLexemes_eq : ∀ ls : List MessageLine, allLexemes ls = ls.flatMap lexemes
  | [] => rfl
  | l :: ls => by rw [allLexemes, allLexemes_eq ls, List.flatMap_cons]

theorem items_eq : ∀ ls : List MessageLine, items ls = ls.filterMap item?
  | [] => rfl
  | l :: ls => by
    rw [items, items_eq ls, List.filterMap_cons]
    cases item? l <;> rfl

theorem allAllowed_iff {rules : Rules} :
    ∀ {ls : List MessageLine}, AllAllowed rules ls ↔ ∀ l ∈ ls, l.Allowed rules
  | [] => by simp [AllAllowed]
  | l :: ls => by simp [AllAllowed, @allAllowed_iff rules ls]

theorem allPreferred_eq : ∀ ls : List MessageLine, allPreferred ls = ls.map preferred
  | [] => rfl
  | l :: ls => by rw [allPreferred, allPreferred_eq ls, List.map_cons]

end MessageLine

/-! ## 6. Statements and documents -/

/-- A line of a document. -/
inductive DocumentLine
  | newline
  | syntaxDecl (value : Word)
  | packageDecl (path : Path)
  /-- `public` may have been written any number of times. -/
  | importDecl (publics : Nat) (path : ImportPath)
  | setting (o : SettingTree)
  | message (name : Word) (body : List MessageLine)
  | enumeration (e : EnumTree)

namespace DocumentLine

def lexemes : DocumentLine → List Lexeme
  | newline => [.newline]
  | syntaxDecl value =>
    [.keyword .kwSyntax, .punct .equals, .string value.text, .punct .semicolon]
  | packageDecl path => .keyword .kwPackage :: (path.lexemes ++ [.punct .semicolon])
  | importDecl publics path =>
    .keyword .kwImport :: (List.replicate publics (.keyword .kwPublic) ++
      [path.lexeme, .punct .semicolon])
  | setting o => o.statement
  | message name body => (MessageLine.message name body).lexemes
  | enumeration e => e.lexemes

def statement? : DocumentLine → Option Statement
  | newline => none
  | syntaxDecl value => some (.syntaxDecl value.text)
  | packageDecl path => some (.packageDecl path.text)
  | importDecl publics path => some (.importDecl ⟨path.text, decide (0 < publics)⟩)
  | setting o => some (.setting o.setting)
  | message name body => some (.message ⟨name.text, MessageLine.items body⟩)
  | enumeration e => some (.enumeration e.enumeration)

/-- A syntax statement names a value of the dialect, and `public` is written more than once where
the dialect lets it. -/
def Allowed (rules : Rules) : DocumentLine → Prop
  | newline => True
  | syntaxDecl value => ∀ values ∈ rules.syntaxValues, value.text ∈ values
  | packageDecl _ => True
  | importDecl publics _ => rules.repeatsImportModifier = false → publics ≤ 1
  | setting _ => True
  | message _ body => MessageLine.AllAllowed rules body
  | enumeration e => e.Allowed rules

/-- The same line with every field that reads like an option made the option. -/
def preferred : DocumentLine → DocumentLine
  | message name body => message name (MessageLine.allPreferred body)
  | line => line

end DocumentLine

/-- A whole text. -/
structure DocumentTree where
  lines : List DocumentLine

namespace DocumentTree

def lexemes (t : DocumentTree) : List Lexeme := t.lines.flatMap DocumentLine.lexemes

/-- The document that the derivation builds. -/
def document (t : DocumentTree) : Document := ⟨t.lines.filterMap DocumentLine.statement?⟩

/-- The derivation is one of the dialect with these rules. -/
structure Allowed (rules : Rules) (t : DocumentTree) : Prop where
  lines : ∀ l ∈ t.lines, l.Allowed rules
  nonempty : rules.allowsEmptyDocument = false → t.lines ≠ []

/-- The same derivation with every field that reads like an option made the option. -/
def preferred (t : DocumentTree) : DocumentTree := ⟨t.lines.map DocumentLine.preferred⟩

end DocumentTree

end SchemaLang.Grammar
