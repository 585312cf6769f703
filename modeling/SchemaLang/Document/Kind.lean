/-
# Kinds and the names of choices

In an interchange text every part of a document is an object that tells under the key `kind` what
it is.  This module gives the kinds their names, and does the same for the other closed choices
that are written as strings: built-in types, field modifiers, and the modifier of an import.
-/
import SchemaLang.Document

namespace SchemaLang

/-- What a part of a document can be. -/
inductive Kind
  | primitive | map | named
  | numeric | string | boolean
  | option | field | enumValue | enum | message
  | importDecl | syntaxDecl | packageDecl | document
  deriving DecidableEq, Repr

/-- The tag of a kind. -/
def Kind.tag : Kind → String
  | primitive => "primitive"
  | map => "map"
  | named => "named"
  | numeric => "numeric"
  | string => "string"
  | boolean => "boolean"
  | option => "option"
  | field => "field"
  | enumValue => "enum_value"
  | enum => "enum"
  | message => "message"
  | importDecl => "import"
  | syntaxDecl => "syntax"
  | packageDecl => "package"
  | document => "document"

/-- No two kinds share a tag. -/
theorem Kind.tag_injective {j k : Kind} (h : j.tag = k.tag) : j = k := by
  revert h
  cases j <;> cases k <;> decide

/-! ## Choices -/

/-- The name of a built-in type. -/
def PrimitiveType.name : PrimitiveType → String
  | int32 => "int32"
  | int64 => "int64"
  | string => "string"
  | boolean => "boolean"

/-- The built-in types. -/
def PrimitiveType.all : List PrimitiveType := [int32, int64, string, boolean]

/-- The built-in type of that name. -/
def PrimitiveType.ofName? (s : String) : Option PrimitiveType := all.find? (·.name == s)

theorem PrimitiveType.ofName?_name (p : PrimitiveType) : ofName? p.name = some p := by
  cases p <;> decide

theorem PrimitiveType.name_of_ofName? {s : String} {p : PrimitiveType} (h : ofName? s = some p) :
    p.name = s := by
  simpa using List.find?_some h

/-- The name of a modifier. -/
def FieldModifier.name : FieldModifier → String
  | required => "required"
  | optional => "optional"
  | repeated => "repeated"

/-- The modifiers of a field. -/
def FieldModifier.all : List FieldModifier := [required, optional, repeated]

/-- The modifier of that name. -/
def FieldModifier.ofName? (s : String) : Option FieldModifier := all.find? (·.name == s)

theorem FieldModifier.ofName?_name (m : FieldModifier) : ofName? m.name = some m := by
  cases m <;> decide

theorem FieldModifier.name_of_ofName? {s : String} {m : FieldModifier} (h : ofName? s = some m) :
    m.name = s := by
  simpa using List.find?_some h

/-- The word for an import that is public. -/
def Import.publicWord : String := "public"

end SchemaLang
