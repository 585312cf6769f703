/-
# Loading documents

Every part of a document has a model: the keys it is written under, which of them may be left
out, and how their values are loaded.  The models are the counterpart of `Artifact.Dump`, with
the same keys in the same order.

Types and messages nest.  Their loaders call themselves on parts of the value, which are smaller
than the value.
-/
import SchemaLang.Artifact.Dump
import SchemaLang.Artifact.Scalar

namespace SchemaLang

open Json

/-! ## 1. Types -/

/-- The keys of a built-in type. -/
def TypeRef.loadPrimitive (ms : Members) : Checked TypeRef :=
  model ms .primitive ["primitive"]
    ((required ms "primitive" fun v _ => asChoice PrimitiveType.ofName? v).map primitive)

/-- The keys of a type that is named by a path. -/
def TypeRef.loadNamed (ms : Members) : Checked TypeRef :=
  model ms .named ["name"] ((required ms "name" fun v _ => asString v).map named)

/-- The keys of a map type. -/
def TypeRef.loadMap (ms : Members) : Checked TypeRef :=
  let part (v : Json) (_hv : sizeOf v < sizeOf ms) : Checked TypeRef :=
    asTagged v fun ms' _hms => [
      (.primitive, fun _ => loadPrimitive ms'),
      (.map, fun _ => loadMap ms'),
      (.named, fun _ => loadNamed ms')]
  model ms .map ["key_type", "value_type"]
    (((required ms "key_type" part).map map).seq (required ms "value_type" part))
termination_by sizeOf ms
decreasing_by omega

/-- A type of any kind. -/
def TypeRef.load (v : Json) : Checked TypeRef :=
  asTagged v fun ms _ => [
    (.primitive, fun _ => loadPrimitive ms),
    (.map, fun _ => loadMap ms),
    (.named, fun _ => loadNamed ms)]

/-! ## 2. Constants and options -/

/-- The keys of a number. -/
def Constant.loadNumeric (ms : Members) : Checked Constant :=
  model ms .numeric ["value"] ((required ms "value" fun v _ => asInteger v).map numeric)

/-- The keys of a string. -/
def Constant.loadString (ms : Members) : Checked Constant :=
  model ms .string ["value"] ((required ms "value" fun v _ => asString v).map string)

/-- The keys of a truth value. -/
def Constant.loadBoolean (ms : Members) : Checked Constant :=
  model ms .boolean ["value"] ((required ms "value" fun v _ => asBoolean v).map boolean)

/-- A constant of any kind. -/
def Constant.load (v : Json) : Checked Constant :=
  asTagged v fun ms _ => [
    (.numeric, fun _ => loadNumeric ms),
    (.string, fun _ => loadString ms),
    (.boolean, fun _ => loadBoolean ms)]

/-- The keys of an option. -/
def OptionSetting.loadMembers (ms : Members) : Checked OptionSetting :=
  model ms .option ["name", "is_extension", "field_path", "value"]
    (((((required ms "name" fun v _ => asString v).map OptionSetting.mk).seq
      (defaulted ms "is_extension" false fun v _ => asBoolean v)).seq
      (defaulted ms "field_path" none fun v _ => asStringOrNull v)).seq
      (required ms "value" fun v _ => Constant.load v))

/-- A list of options, empty where nothing is said. -/
def OptionSetting.loadAll (ms : Members) : Checked (List OptionSetting) :=
  defaulted ms "options" [] fun v _ => asList v fun w _ => asObject w loadMembers

/-! ## 3. Enumerations -/

/-- The keys of an entry. -/
def EnumEntry.loadMembers (ms : Members) : Checked EnumEntry :=
  model ms .enumValue ["name", "tag", "options"]
    ((((required ms "name" fun v _ => asString v).map EnumEntry.mk).seq
      (required ms "tag" fun v _ => asInteger v)).seq
      (OptionSetting.loadAll ms))

/-- What stands in an enumeration. -/
def EnumItem.load (v : Json) : Checked EnumItem :=
  asTagged v fun ms _ => [
    (.option, fun _ => (OptionSetting.loadMembers ms).map setting),
    (.enumValue, fun _ => (EnumEntry.loadMembers ms).map entry)]

/-- The keys of an enumeration. -/
def Enumeration.loadMembers (ms : Members) : Checked Enumeration :=
  model ms .enum ["name", "body"]
    (((required ms "name" fun v _ => asString v).map Enumeration.mk).seq
      (defaulted ms "body" [] fun v _ => asList v fun w _ => EnumItem.load w))

/-! ## 4. Messages -/

/-- A modifier, or null for none. -/
def FieldModifier.load : Json → Checked (Option FieldModifier)
  | .null => .valid none
  | v => (asChoice ofName? v).map some

/-- The keys of a field. -/
def Field.loadMembers (ms : Members) : Checked Field :=
  model ms .field ["modifier", "type", "name", "tag", "options"]
    ((((((defaulted ms "modifier" none fun v _ => FieldModifier.load v).map Field.mk).seq
      (required ms "type" fun v _ => TypeRef.load v)).seq
      (required ms "name" fun v _ => asString v)).seq
      (required ms "tag" fun v _ => asInteger v)).seq
      (OptionSetting.loadAll ms))

/-- The keys of a message. -/
def Message.loadMembers (ms : Members) : Checked Message :=
  let item (w : Json) (_hw : sizeOf w < sizeOf ms) : Checked MessageItem :=
    asTagged w fun ms' _hms => [
      (.option, fun _ => (OptionSetting.loadMembers ms').map .setting),
      (.message, fun _ => (loadMembers ms').map .ofMessage),
      (.enum, fun _ => (Enumeration.loadMembers ms').map .enumeration),
      (.field, fun _ => (Field.loadMembers ms').map .field)]
  model ms .message ["name", "body"]
    (((required ms "name" fun v _ => asString v).map Message.mk).seq
      (defaulted ms "body" [] fun v hv => asList v fun w hw => item w (Nat.lt_trans hw hv)))
termination_by sizeOf ms
decreasing_by omega

/-- What stands in a message. -/
def MessageItem.load (v : Json) : Checked MessageItem :=
  asTagged v fun ms _ => [
    (.option, fun _ => (OptionSetting.loadMembers ms).map setting),
    (.message, fun _ => (Message.loadMembers ms).map ofMessage),
    (.enum, fun _ => (Enumeration.loadMembers ms).map enumeration),
    (.field, fun _ => (Field.loadMembers ms).map field)]

/-! ## 5. Statements and documents -/

/-- The modifier of an import: its one word, or null for none. -/
def Import.loadModifier : Json → Checked Bool
  | .null => .valid false
  | v => asChoice (fun s => if s = publicWord then some true else none) v

/-- The keys of an import. -/
def Import.loadMembers (ms : Members) : Checked Import :=
  model ms .importDecl ["path", "modifier"]
    (((required ms "path" fun v _ => asString v).map Import.mk).seq
      (defaulted ms "modifier" false fun v _ => loadModifier v))

/-- The keys of a syntax statement. -/
def loadSyntax (ms : Members) : Checked String :=
  model ms .syntaxDecl ["value"] (required ms "value" fun v _ => asString v)

/-- The keys of a package statement. -/
def loadPackage (ms : Members) : Checked String :=
  model ms .packageDecl ["name"] (required ms "name" fun v _ => asString v)

/-- A statement of any kind. -/
def Statement.load (v : Json) : Checked Statement :=
  asTagged v fun ms _ => [
    (.syntaxDecl, fun _ => (loadSyntax ms).map syntaxDecl),
    (.packageDecl, fun _ => (loadPackage ms).map packageDecl),
    (.importDecl, fun _ => (Import.loadMembers ms).map importDecl),
    (.option, fun _ => (OptionSetting.loadMembers ms).map setting),
    (.message, fun _ => (Message.loadMembers ms).map message),
    (.enum, fun _ => (Enumeration.loadMembers ms).map enumeration)]

/-- The keys of a document. -/
def Document.loadMembers (ms : Members) : Checked Document :=
  model ms .document ["statements"]
    ((defaulted ms "statements" [] fun v _ => asList v fun w _ => Statement.load w).map Document.mk)

/-- A document. -/
def Document.load (v : Json) : Checked Document := asObject v loadMembers

end SchemaLang
