/-
# Parts of documents by themselves

A part of a document can be loaded without the rest of it.  A `Model` says what the part has to
be: an object of one kind, whose tag may then be left out, or one of several kinds, which the tag
tells apart.  What comes out is a `Part`; parts of different kinds are never equal.
-/
import SchemaLang.Artifact.Load

namespace SchemaLang

open Json

/-- A part of a document of any kind. -/
inductive Part
  | type (t : TypeRef)
  | constant (c : Constant)
  | setting (o : OptionSetting)
  | field (f : Field)
  | entry (e : EnumEntry)
  | enumeration (e : Enumeration)
  | message (m : Message)
  | importDecl (i : Import)
  | syntaxDecl (value : String)
  | packageDecl (name : String)
  | document (d : Document)
  deriving DecidableEq, Repr

namespace Part

/-- A part as an interchange value. -/
def dump : Part → Json
  | type t => t.dump
  | constant c => c.dump
  | setting o => o.dump
  | field f => f.dump
  | entry e => e.dump
  | enumeration e => e.dump
  | message m => m.dump
  | importDecl i => i.dump
  | syntaxDecl value => dumpSyntax value
  | packageDecl name => dumpPackage name
  | document d => d.dump

/-- The part that an item of an enumeration is. -/
def ofEnumItem : EnumItem → Part
  | .setting o => setting o
  | .entry e => entry e

/-- The part that an item of a message is. -/
def ofMessageItem : MessageItem → Part
  | .setting o => setting o
  | .message name body => message ⟨name, body⟩
  | .enumeration e => enumeration e
  | .field f => field f

/-- The part that a statement is. -/
def ofStatement : Statement → Part
  | .syntaxDecl value => syntaxDecl value
  | .packageDecl name => packageDecl name
  | .importDecl i => importDecl i
  | .setting o => setting o
  | .message m => message m
  | .enumeration e => enumeration e

end Part

/-- What a part has to be. -/
inductive Model
  /-- One kind, whose tag may be left out. -/
  | primitiveType | mapType | namedType
  | numeric | string | boolean
  | option | field | entry | enumeration | message
  | importDecl | syntaxDecl | packageDecl | document
  /-- One of several kinds, told apart by the tag. -/
  | anyType | anyConstant | anyEnumItem | anyMessageItem | anyStatement
  deriving DecidableEq, Repr

/-- The part that a value describes. -/
def Model.load (m : Model) (v : Json) : Checked Part :=
  match m with
  | primitiveType => (asObject v TypeRef.loadPrimitive).map .type
  | mapType => (asObject v TypeRef.loadMap).map .type
  | namedType => (asObject v TypeRef.loadNamed).map .type
  | numeric => (asObject v Constant.loadNumeric).map .constant
  | string => (asObject v Constant.loadString).map .constant
  | boolean => (asObject v Constant.loadBoolean).map .constant
  | option => (asObject v OptionSetting.loadMembers).map .setting
  | field => (asObject v Field.loadMembers).map .field
  | entry => (asObject v EnumEntry.loadMembers).map .entry
  | enumeration => (asObject v Enumeration.loadMembers).map .enumeration
  | message => (asObject v Message.loadMembers).map .message
  | importDecl => (asObject v Import.loadMembers).map .importDecl
  | syntaxDecl => (asObject v loadSyntax).map .syntaxDecl
  | packageDecl => (asObject v loadPackage).map .packageDecl
  | document => (asObject v Document.loadMembers).map .document
  | anyType => (TypeRef.load v).map .type
  | anyConstant => (Constant.load v).map .constant
  | anyEnumItem => (EnumItem.load v).map .ofEnumItem
  | anyMessageItem => (MessageItem.load v).map .ofMessageItem
  | anyStatement => (Statement.load v).map .ofStatement

end SchemaLang
