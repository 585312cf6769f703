/-
# Documents as interchange values

Each part of a document becomes an object: its kind first, then its parts under fixed keys in a
fixed order, whether or not a text would have said them.  Bodies become arrays in the same order,
and absent parts become null.
-/
import SchemaLang.Document.Kind
import SchemaLang.Json

namespace SchemaLang

/-- An object of a kind with these members. -/
def Json.ofKind (kind : Kind) (members : List (String × Json)) : Json :=
  .object (("kind", .string kind.tag) :: members)

/-- A string, or null where there is none. -/
def Json.ofOption (s : Option String) : Json := s.elim .null .string

/-! ## 1. Types, constants and options -/

/-- A type as an interchange value. -/
def TypeRef.dump : TypeRef → Json
  | primitive p => .ofKind .primitive [("primitive", .string p.name)]
  | map key value => .ofKind .map [("key_type", key.dump), ("value_type", value.dump)]
  | named path => .ofKind .named [("name", .string path)]

/-- A constant as an interchange value. -/
def Constant.dump : Constant → Json
  | numeric n => .ofKind .numeric [("value", .int n)]
  | string text => .ofKind .string [("value", .string text)]
  | boolean b => .ofKind .boolean [("value", .bool b)]

/-- An option as an interchange value. -/
def OptionSetting.dump (o : OptionSetting) : Json :=
  .ofKind .option [
    ("name", .string o.name),
    ("is_extension", .bool o.isExtension),
    ("field_path", .ofOption o.fieldPath),
    ("value", o.value.dump)]

/-- A list of options as an interchange value. -/
def OptionSetting.dumpAll (os : List OptionSetting) : Json := .array (os.map dump)

/-! ## 2. Enumerations -/

/-- An entry as an interchange value. -/
def EnumEntry.dump (e : EnumEntry) : Json :=
  .ofKind .enumValue [
    ("name", .string e.name),
    ("tag", .int e.tag),
    ("options", OptionSetting.dumpAll e.options)]

/-- What stands in an enumeration as an interchange value. -/
def EnumItem.dump : EnumItem → Json
  | setting o => o.dump
  | entry e => e.dump

/-- An enumeration as an interchange value. -/
def Enumeration.dump (e : Enumeration) : Json :=
  .ofKind .enum [("name", .string e.name), ("body", .array (e.body.map EnumItem.dump))]

/-! ## 3. Messages -/

/-- A field as an interchange value. -/
def Field.dump (f : Field) : Json :=
  .ofKind .field [
    ("modifier", .ofOption (f.modifier.map FieldModifier.name)),
    ("type", f.type.dump),
    ("name", .string f.name),
    ("tag", .int f.tag),
    ("options", OptionSetting.dumpAll f.options)]

mutual

/-- What stands in a message as an interchange value. -/
def MessageItem.dump : MessageItem → Json
  | setting o => o.dump
  | message name body =>
    .ofKind .message [("name", .string name), ("body", .array (MessageItem.dumpAll body))]
  | enumeration e => e.dump
  | field f => f.dump
termination_by structural i => i

/-- The body of a message item by item. -/
def MessageItem.dumpAll : List MessageItem → List Json
  | [] => []
  | i :: is => i.dump :: MessageItem.dumpAll is
termination_by structural is => is

end

theorem MessageItem.dumpAll_eq_map (is : List MessageItem) : dumpAll is = is.map dump := by
  induction is with
  | nil => rfl
  | cons i is ih => simp [dumpAll, ih]

/-- A message as an interchange value. -/
def Message.dump (m : Message) : Json := (MessageItem.ofMessage m).dump

/-! ## 4. Statements and documents -/

/-- An import as an interchange value. -/
def Import.dump (i : Import) : Json :=
  .ofKind .importDecl [
    ("path", .string i.path),
    ("modifier", if i.isPublic then .string publicWord else .null)]

/-- The value of a syntax statement as an interchange value. -/
def dumpSyntax (value : String) : Json := .ofKind .syntaxDecl [("value", .string value)]

/-- The name in a package statement as an interchange value. -/
def dumpPackage (name : String) : Json := .ofKind .packageDecl [("name", .string name)]

/-- A statement as an interchange value. -/
def Statement.dump : Statement → Json
  | syntaxDecl value => dumpSyntax value
  | packageDecl name => dumpPackage name
  | importDecl i => i.dump
  | setting o => o.dump
  | message m => m.dump
  | enumeration e => e.dump

/-- A document as an interchange value. -/
def Document.dump (d : Document) : Json :=
  .ofKind .document [("statements", .array (d.statements.map Statement.dump))]

end SchemaLang
