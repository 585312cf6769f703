/-
# Documents as they are written

`Document.lexemes` writes a document down: what it says, in order, and nothing else.  There are no
line breaks, numbers have no leading zeros, and `public` is written once.  A path is kept as one
text, and is written as its names with dots between them.

`Document.Conforming` says which documents a text of a dialect can mean.  The type of documents is
wider, as names are any text there and numbers any integer.
-/
import SchemaLang.Dialect
import SchemaLang.Grammar.Productions
import SchemaLang.Proofs.Grammar.Tree
import SchemaLang.Token.Scan

namespace SchemaLang

open Text Grammar

/-! ## 1. Writing -/

/-- The names that a dotted text joins. -/
def segments (path : String) : List String := (pieces (· == '.') path.toList).map String.ofList

/-- Names with a dot in front of each. -/
def dottedNames (names : List String) : List Lexeme :=
  names.flatMap fun s => [.punct .dot, .ofWord s]

/-- Names with dots between them. -/
def pathLexemes (path : String) : List Lexeme :=
  match segments path with
  | [] => []
  | s :: ss => .ofWord s :: dottedNames ss

/-- A number without leading zeros. -/
def numberLexeme (n : Int) : Lexeme := .integer n.toNat.repr

def Constant.lexeme : Constant → Lexeme
  | numeric n => numberLexeme n
  | string text => .string text
  | boolean true => .keyword .kwTrue
  | boolean false => .keyword .kwFalse

def TypeRef.lexemes : TypeRef → List Lexeme
  | primitive p => [.keyword (primitiveKeyword p)]
  | map key value =>
    .keyword .kwMap :: .punct .langle :: (key.lexemes ++ .punct .comma ::
      (value.lexemes ++ [.punct .rangle]))
  | named path => pathLexemes path

namespace OptionSetting

/-- The left side of an option. -/
def keyLexemes (o : OptionSetting) : List Lexeme :=
  if o.isExtension then
    .punct .lparen :: .ofWord o.name :: .punct .rparen ::
      (o.fieldPath.elim [] fun path => dottedNames (segments path))
  else [.ofWord o.name]

def lexemes (o : OptionSetting) : List Lexeme := o.keyLexemes ++ [.punct .equals, o.value.lexeme]

/-- The option as a statement. -/
def statement (o : OptionSetting) : List Lexeme :=
  .keyword .kwOption :: (o.lexemes ++ [.punct .semicolon])

/-- The option in brackets. -/
def bracket (o : OptionSetting) : List Lexeme :=
  .punct .lbracket :: (o.lexemes ++ [.punct .rbracket])

end OptionSetting

/-- A name, its number and its bracketed options. -/
def taggedLexemes (name : String) (tag : Int) (options : List OptionSetting) : List Lexeme :=
  .ofWord name :: .punct .equals :: numberLexeme tag ::
    (options.flatMap OptionSetting.bracket ++ [.punct .semicolon])

def EnumItem.lexemes : EnumItem → List Lexeme
  | setting o => o.statement
  | entry e => taggedLexemes e.name e.tag e.options

def Enumeration.lexemes (e : Enumeration) : List Lexeme :=
  .keyword .kwEnum :: .ofWord e.name :: .punct .lbrace ::
    (e.body.flatMap EnumItem.lexemes ++ [.punct .rbrace])

def Field.lexemes (f : Field) : List Lexeme :=
  f.modifier.toList.map (fun m => .keyword (modifierKeyword m)) ++
    (f.type.lexemes ++ taggedLexemes f.name f.tag f.options)

namespace MessageItem

mutual

def lexemes : MessageItem → List Lexeme
  | setting o => o.statement
  | message name body =>
    .keyword .kwMessage :: .ofWord name :: .punct .lbrace :: (allLexemes body ++ [.punct .rbrace])
  | enumeration e => e.lexemes
  | field f => f.lexemes

def allLexemes : List MessageItem → List Lexeme
  | [] => []
  | i :: is => lexemes i ++ allLexemes is

end

end MessageItem

def Import.lexemes (i : Import) : List Lexeme :=
  .keyword .kwImport :: ((if i.isPublic then [.keyword .kwPublic] else []) ++
    [.string i.path, .punct .semicolon])

def Statement.lexemes : Statement → List Lexeme
  | syntaxDecl value => [.keyword .kwSyntax, .punct .equals, .string value, .punct .semicolon]
  | packageDecl name => .keyword .kwPackage :: (pathLexemes name ++ [.punct .semicolon])
  | importDecl i => i.lexemes
  | setting o => o.statement
  | message m => (MessageItem.ofMessage m).lexemes
  | enumeration e => e.lexemes

/-- All that a document says, in order. -/
def Document.lexemes (d : Document) : List Lexeme := d.statements.flatMap Statement.lexemes

/-! ## 2. Documents that a text can mean -/

/-- A number that can be written with the digits a numeral may have. -/
structure NumberFits (n : Int) : Prop where
  nonneg : 0 ≤ n
  short : (Nat.toDigits 10 n.toNat).length ≤ maxDigits

/-- A number is not negative and fits a numeral, a text can stand between quotes. -/
def Constant.Conforming : Constant → Prop
  | numeric n => NumberFits n
  | string text => ∀ c ∈ text.toList, isStringPart c
  | boolean _ => True

/-- A path is names joined by dots, the first of which names no built-in type. -/
def TypeRef.Conforming : TypeRef → Prop
  | primitive _ => True
  | map key value => key.Conforming ∧ value.Conforming
  | named path => isDottedName path.toList ∧
      ∀ s ∈ (segments path).head?, primitive? (.ofWord s) = none

/-- Only an extension has a path behind its name. -/
structure OptionSetting.Conforming (o : OptionSetting) : Prop where
  name : isName o.name.toList
  plain : o.isExtension = false → o.fieldPath = none
  fieldPath : ∀ path ∈ o.fieldPath, isDottedName path.toList
  value : o.value.Conforming

/-- Entries carry no options in the strict dialect. -/
structure EnumEntry.Conforming (d : Dialect) (e : EnumEntry) : Prop where
  name : isName e.name.toList
  tag : NumberFits e.tag
  options : ∀ o ∈ e.options, o.Conforming
  strict : d = .strict → e.options = []

def EnumItem.Conforming (d : Dialect) : EnumItem → Prop
  | setting o => o.Conforming
  | entry e => e.Conforming d

structure Enumeration.Conforming (d : Dialect) (e : Enumeration) : Prop where
  name : isName e.name.toList
  body : ∀ i ∈ e.body, i.Conforming d

/-- A field without a modifier has no type that starts with the word of one, and it does not read
like an option.  Fields carry no options in the strict dialect. -/
structure Field.Conforming (d : Dialect) (f : Field) : Prop where
  type : f.type.Conforming
  name : isName f.name.toList
  tag : NumberFits f.tag
  options : ∀ o ∈ f.options, o.Conforming
  unmodified : f.modifier = none → ∀ path, f.type = .named path →
    ∀ s ∈ (segments path).head?, modifier? (.ofWord s) = none
  noOption : f.modifier = none → f.type = .named "option" → f.options ≠ []
  strict : d = .strict → f.options = []

namespace MessageItem

mutual

/-- No enumeration stands inside a message in the strict dialect. -/
def Conforming (d : Dialect) : MessageItem → Prop
  | setting o => o.Conforming
  | message name body => isName name.toList ∧ AllConforming d body
  | enumeration e => d ≠ .strict ∧ e.Conforming d
  | field f => f.Conforming d

def AllConforming (d : Dialect) : List MessageItem → Prop
  | [] => True
  | i :: is => Conforming d i ∧ AllConforming d is

end

end MessageItem

/-- The legacy dialect takes any name for a syntax, the strict one knows two. -/
def Statement.Conforming (d : Dialect) : Statement → Prop
  | syntaxDecl value =>
    match d with
    | .legacy => isName value.toList
    | .strict => value ∈ ["proto2", "proto3"]
  | packageDecl name => isDottedName name.toList
  | importDecl i => isImportPath i.path.toList
  | setting o => o.Conforming
  | message m => (MessageItem.ofMessage m).Conforming d
  | enumeration e => e.Conforming d

/-- The documents that a text of the dialect can mean. -/
def Document.Conforming (d : Dialect) (doc : Document) : Prop :=
  ∀ s ∈ doc.statements, s.Conforming d

end SchemaLang
