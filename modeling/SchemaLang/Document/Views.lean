/-
# Views of a document

A body lists unlike items in the order of the text.  A view picks one kind of item from it and
keeps their order.  The views of a message (options, fields, messages, enumerations) share its
items out among them, and so do those of an enumeration (options, entries); `definitions` takes
messages and enumerations together.  A document may state its syntax and its package more than
once, and the last statement is the one that counts.
-/
import SchemaLang.Document

namespace SchemaLang

/-- A message or an enumeration. -/
inductive Definition
  | message (m : Message)
  | enumeration (e : Enumeration)
  deriving DecidableEq, Repr

/-! ## 1. Kinds of items -/

namespace EnumItem

/-- The option that an item is. -/
def setting? : EnumItem → Option OptionSetting
  | setting o => some o
  | entry _ => none

/-- The entry that an item is. -/
def entry? : EnumItem → Option EnumEntry
  | setting _ => none
  | entry e => some e

end EnumItem

namespace MessageItem

/-- The option that an item is. -/
def setting? : MessageItem → Option OptionSetting
  | setting o => some o
  | _ => none

/-- The field that an item is. -/
def field? : MessageItem → Option Field
  | field f => some f
  | _ => none

/-- The message that an item is. -/
def message? : MessageItem → Option Message
  | message name body => some ⟨name, body⟩
  | _ => none

/-- The enumeration that an item is. -/
def enumeration? : MessageItem → Option Enumeration
  | enumeration e => some e
  | _ => none

/-- The message or enumeration that an item is. -/
def definition? : MessageItem → Option Definition
  | message name body => some (.message ⟨name, body⟩)
  | enumeration e => some (.enumeration e)
  | _ => none

end MessageItem

namespace Statement

/-- The value a syntax statement names. -/
def syntaxValue? : Statement → Option String
  | syntaxDecl v => some v
  | _ => none

/-- The name a package statement gives. -/
def packageName? : Statement → Option String
  | packageDecl n => some n
  | _ => none

/-- The import that a statement is. -/
def import? : Statement → Option Import
  | importDecl i => some i
  | _ => none

/-- The option that a statement is. -/
def setting? : Statement → Option OptionSetting
  | setting o => some o
  | _ => none

/-- The message or enumeration that a statement is. -/
def definition? : Statement → Option Definition
  | message m => some (.message m)
  | enumeration e => some (.enumeration e)
  | _ => none

end Statement

/-! ## 2. Views of enumerations -/

namespace Enumeration

/-- The options of an enumeration. -/
def options (e : Enumeration) : List OptionSetting := e.body.filterMap EnumItem.setting?

/-- The entries of an enumeration. -/
def entries (e : Enumeration) : List EnumEntry := e.body.filterMap EnumItem.entry?

end Enumeration

/-! ## 3. Views of messages -/

namespace Message

/-- The options of a message. -/
def options (m : Message) : List OptionSetting := m.body.filterMap MessageItem.setting?

/-- The fields of a message. -/
def fields (m : Message) : List Field := m.body.filterMap MessageItem.field?

/-- The messages inside a message. -/
def messages (m : Message) : List Message := m.body.filterMap MessageItem.message?

/-- The enumerations inside a message. -/
def enumerations (m : Message) : List Enumeration := m.body.filterMap MessageItem.enumeration?

/-- The messages and enumerations inside a message, in their common order. -/
def definitions (m : Message) : List Definition := m.body.filterMap MessageItem.definition?

end Message

/-! ## 4. Views of documents -/

namespace Document

/-- The value of the last syntax statement. -/
def syntaxValue? (d : Document) : Option String :=
  (d.statements.filterMap Statement.syntaxValue?).getLast?

/-- The name in the last package statement. -/
def packageName? (d : Document) : Option String :=
  (d.statements.filterMap Statement.packageName?).getLast?

/-- The imports of a document; one that occurs twice is listed twice. -/
def imports (d : Document) : List Import := d.statements.filterMap Statement.import?

/-- The options of a document. -/
def options (d : Document) : List OptionSetting := d.statements.filterMap Statement.setting?

/-- The messages and enumerations of a document, in their common order. -/
def definitions (d : Document) : List Definition := d.statements.filterMap Statement.definition?

end Document
end SchemaLang
