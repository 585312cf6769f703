/-
# Schema documents

A document is what a schema text says: its statements in the order in which they were written.
Messages hold fields, options, enumerations and further messages; enumerations hold entries and
options.  Every body is one list of unlike items, so the order among them is kept, and the views
that pick one kind of item are functions on that list (`SchemaLang.Document.Views`).

The types say what a document can hold, not what the grammar lets a text say.  Names are any
text and numbers any integer, because documents also come from interchange texts, where nothing
checks them.
-/

namespace SchemaLang

/-! ## 1. Types and constants -/

/-- The types that are built into the language. -/
inductive PrimitiveType
  | int32 | int64 | string | boolean
  deriving DecidableEq, Repr

/-- The type of a field. -/
inductive TypeRef
  | primitive (p : PrimitiveType)
  | map (key value : TypeRef)
  /-- A message or an enumeration by its dotted path, which nothing has looked up. -/
  | named (path : String)
  deriving DecidableEq, Repr

/-- The value of an option. -/
inductive Constant
  | numeric (n : Int)
  | string (text : String)
  | boolean (b : Bool)
  deriving DecidableEq, Repr

/-! ## 2. Options -/

/-- An option and its value, as a statement or between brackets. -/
structure OptionSetting where
  name : String
  /-- The name stands in parentheses. -/
  isExtension : Bool
  /-- The dotted names behind a name in parentheses. -/
  fieldPath : Option String
  value : Constant
  deriving DecidableEq, Repr

/-- The left side of an option as a text writes it. -/
def OptionSetting.key (o : OptionSetting) : String :=
  if o.isExtension then
    match o.fieldPath with
    | none => "(" ++ o.name ++ ")"
    | some path => "(" ++ o.name ++ ")." ++ path
  else o.name

/-! ## 3. Enumerations -/

/-- One named number of an enumeration. -/
structure EnumEntry where
  name : String
  tag : Int
  options : List OptionSetting
  deriving DecidableEq, Repr

/-- What the body of an enumeration is made of. -/
inductive EnumItem
  | setting (o : OptionSetting)
  | entry (e : EnumEntry)
  deriving DecidableEq, Repr

/-- A named set of entries. -/
structure Enumeration where
  name : String
  body : List EnumItem
  deriving DecidableEq, Repr

/-! ## 4. Messages -/

/-- How often a field occurs. -/
inductive FieldModifier
  | required | optional | repeated
  deriving DecidableEq, Repr

/-- A typed and numbered part of a message. -/
structure Field where
  modifier : Option FieldModifier
  type : TypeRef
  name : String
  tag : Int
  options : List OptionSetting
  deriving DecidableEq, Repr

/-- What the body of a message is made of; a message inside a message is its name and body. -/
inductive MessageItem
  | setting (o : OptionSetting)
  | message (name : String) (body : List MessageItem)
  | enumeration (e : Enumeration)
  | field (f : Field)
  deriving Repr

/-- A named record type. -/
structure Message where
  name : String
  body : List MessageItem
  deriving Repr

/-- The item that a message is inside another one. -/
def MessageItem.ofMessage (m : Message) : MessageItem := .message m.name m.body

/-! ## 5. Statements and documents -/

/-- An import names another schema by its path. -/
structure Import where
  path : String
  isPublic : Bool
  deriving DecidableEq, Repr

/-- What a document is made of. -/
inductive Statement
  | syntaxDecl (value : String)
  | packageDecl (name : String)
  | importDecl (i : Import)
  | setting (o : OptionSetting)
  | message (m : Message)
  | enumeration (e : Enumeration)
  deriving Repr

/-- A whole schema. -/
structure Document where
  statements : List Statement
  deriving Repr

/-- The document that says nothing. -/
def Document.empty : Document := ⟨[]⟩

/-! ## 6. Equality is decidable -/

mutual

/-- Two items are told apart by their kind and then by their parts. -/
def MessageItem.decEq : (a b : MessageItem) → Decidable (a = b)
  | .setting o, .setting p =>
    if h : o = p then .isTrue (h ▸ rfl) else .isFalse fun e => h (by injection e)
  | .message n xs, .message m ys =>
    if h : n = m then
      match MessageItem.decEqList xs ys with
      | .isTrue h' => .isTrue (h ▸ h' ▸ rfl)
      | .isFalse h' => .isFalse fun e => h' (by injection e)
    else .isFalse fun e => h (by injection e)
  | .enumeration x, .enumeration y =>
    if h : x = y then .isTrue (h ▸ rfl) else .isFalse fun e => h (by injection e)
  | .field f, .field g =>
    if h : f = g then .isTrue (h ▸ rfl) else .isFalse fun e => h (by injection e)
  | .setting _, .message _ _ => .isFalse nofun
  | .setting _, .enumeration _ => .isFalse nofun
  | .setting _, .field _ => .isFalse nofun
  | .message _ _, .setting _ => .isFalse nofun
  | .message _ _, .enumeration _ => .isFalse nofun
  | .message _ _, .field _ => .isFalse nofun
  | .enumeration _, .setting _ => .isFalse nofun
  | .enumeration _, .message _ _ => .isFalse nofun
  | .enumeration _, .field _ => .isFalse nofun
  | .field _, .setting _ => .isFalse nofun
  | .field _, .message _ _ => .isFalse nofun
  | .field _, .enumeration _ => .isFalse nofun

/-- Two bodies are told apart item by item. -/
def MessageItem.decEqList : (xs ys : List MessageItem) → Decidable (xs = ys)
  | [], [] => .isTrue rfl
  | [], _ :: _ => .isFalse nofun
  | _ :: _, [] => .isFalse nofun
  | x :: xs, y :: ys =>
    match MessageItem.decEq x y, MessageItem.decEqList xs ys with
    | .isTrue h, .isTrue h' => .isTrue (h ▸ h' ▸ rfl)
    | .isFalse h, _ => .isFalse fun e => h (by injection e)
    | _, .isFalse h => .isFalse fun e => h (by injection e)

end

instance : DecidableEq MessageItem := MessageItem.decEq

deriving instance DecidableEq for Message

deriving instance DecidableEq for Statement

deriving instance DecidableEq for Document

end SchemaLang
