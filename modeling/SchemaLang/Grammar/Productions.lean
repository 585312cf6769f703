/-
# The grammar

Each production is one rule.  Where several could match, they are tried in the order in which
they are listed and the first one that matches is taken.  Keywords are names like any other
wherever a name is asked for, so the order matters at one place only: in a message,
`option x = 1 ;` is an option and not a field of type `option`.

    document    = (newline | statement)* end          -- not empty in the strict dialect
    statement   = syntax | package | uses | option | message | enum
    syntax      = "syntax" "=" string ";"
    package     = "package" path ";"
    uses        = "import" ["public"] string ";"      -- any number of them in the strict dialect
    option      = "option" setting ";"
    setting     = (name | "(" name ")" ("." name)*) "=" constant
    constant    = integer | string | "true" | "false"
    enum        = "enum" name "{" (newline | option | entry)* "}"
    entry       = name "=" integer bracket* ";"
    message     = "message" name "{" (newline | option | message | enum | field)* "}"
    field       = ["required" | "optional" | "repeated"] type name "=" integer bracket* ";"
    bracket     = "[" setting "]"                     -- in the legacy dialect
    type        = "int32" | "int64" | "string" | "boolean" | map | path
    map         = "map" "<" type "," type ">"
    path        = name ("." name)*

Rules that repeat or nest take an allowance.  One that exceeds the number of tokens ahead is never
used up (`SchemaLang.Grammar.Budget`).
-/
import SchemaLang.Dialect
import SchemaLang.Document
import SchemaLang.Grammar.Reply
import SchemaLang.Text.CharClass

namespace SchemaLang.Grammar

open Text SchemaLang.Grammar.Parser

/-! ## 1. Single lexemes -/

/-- One given keyword. -/
def keyword (k : Keyword) : Parser Unit :=
  lexeme [.keyword k] fun l => if l = .keyword k then some () else none

/-- One given mark. -/
def mark (p : Punct) : Parser Unit :=
  lexeme [.punct p] fun l => if l = .punct p then some () else none

/-- One line break. -/
def newline : Parser Unit :=
  lexeme [.newline] fun l => if l = .newline then some () else none

/-- An identifier, or a keyword in its place. -/
def name : Parser String := lexeme [.identifier] Lexeme.name?

/-- A string literal whose text passes a test; what is asked for otherwise depends on whether a
string stood there at all. -/
def stringWhere (passes : String → Bool) (expected : List Expectation) : Parser String :=
  look fun
    | some (.string text) => if passes text then .ok text else .error expected
    | _ => .error [.stringLiteral]

/-- A tag number. -/
def tag : Parser Int :=
  andThen (lexeme [.integer] fun | .integer ds => some ds | _ => none) fun ds =>
    settle ((readNumeral ds.toList).map Int.ofNat)

/-- The constant that a lexeme denotes. -/
def constant? : Lexeme → Option (Except LongNumeral Constant)
  | .integer ds => some ((readNumeral ds.toList).map fun n => .numeric n)
  | .string text => some (.ok (.string text))
  | .keyword .kwTrue => some (.ok (.boolean true))
  | .keyword .kwFalse => some (.ok (.boolean false))
  | _ => none

/-- The value of an option. -/
def constant : Parser Constant :=
  andThen (lexeme [.integer, .stringLiteral, .keyword .kwTrue, .keyword .kwFalse] constant?) settle

/-! ## 2. Paths and types -/

/-- Names joined by dots. -/
def joinDots (names : List String) : String := ".".intercalate names

/-- One or more names with dots between them. -/
def path (budget : Nat) : Parser String := do
  let head ← name
  let tail ← eachAfter (mark .dot) name budget
  return joinDots (head :: tail)

/-- The built-in type that a lexeme names. -/
def primitive? : Lexeme → Option PrimitiveType
  | .keyword .kwInt32 => some .int32
  | .keyword .kwInt64 => some .int64
  | .keyword .kwString => some .string
  | .keyword .kwBoolean => some .boolean
  | _ => none

/-- A built-in type. -/
def primitiveType : Parser TypeRef :=
  andThen
    (lexeme [.keyword .kwInt32, .keyword .kwInt64, .keyword .kwString, .keyword .kwBoolean]
      primitive?)
    fun p => succeed (.primitive p)

/-- A map type whose parts are read by `part`. -/
def mapType (part : Parser TypeRef) : Parser TypeRef := do
  keyword .kwMap
  mark .langle
  let key ← part
  mark .comma
  let value ← part
  mark .rangle
  return .map key value

/-- A type that is named by a path. -/
def namedType (budget : Nat) : Parser TypeRef := do
  let path ← path budget
  return .named path

/-- A type. -/
def typeRef : (budget : Nat) → Parser TypeRef
  | 0 => fun _ => .exhausted
  | budget + 1 =>
    firstOf [primitiveType, mapType (typeRef budget), namedType budget]

/-! ## 3. Options -/

/-- The name in parentheses and the dotted names behind it; the parenthesis was just read. -/
def extensionKey (budget : Nat) : Parser (String × Bool × Option String) := do
  let name ← name
  mark .rparen
  let suffix ← eachAfter (mark .dot) Grammar.name budget
  return (name, true, if suffix.isEmpty then none else some (joinDots suffix))

/-- The left side of an option. -/
def optionKey (budget : Nat) : Parser (String × Bool × Option String) := do
  match ← optional (mark .lparen) with
  | some () => extensionKey budget
  | none =>
    let name ← name
    return (name, false, none)

/-- An option without the words and marks around it. -/
def setting (budget : Nat) : Parser OptionSetting := do
  let (name, isExtension, fieldPath) ← optionKey budget
  mark .equals
  let value ← constant
  return { name, isExtension, fieldPath, value }

/-- An option statement. -/
def optionStatement (budget : Nat) : Parser OptionSetting := do
  keyword .kwOption
  let o ← setting budget
  mark .semicolon
  return o

/-- A bracketed option whose opening bracket was just read. -/
def bracketed (budget : Nat) : Parser OptionSetting := do
  let o ← setting budget
  mark .rbracket
  return o

/-- Any number of bracketed options, where the dialect has them. -/
def brackets (enabled : Bool) (budget : Nat) : Parser (List OptionSetting) :=
  if enabled then eachAfter (mark .lbracket) (bracketed budget) budget else succeed []

/-! ## 4. Bodies -/

/-- A line break, or an item. -/
def lineOr {α : Type} (p : Parser α) : Parser (Option α) :=
  orElse (andThen newline fun _ => succeed none) (andThen p fun a => succeed (some a))

/-- Items and line breaks in any order between braces; only the items are kept. -/
def body {α : Type} (budget : Nat) (item : Parser α) : Parser (List α) := do
  mark .lbrace
  let lines ← many budget (lineOr item)
  mark .rbrace
  return lines.filterMap id

/-! ## 5. Enumerations -/

/-- An entry of an enumeration. -/
def entry (rules : Rules) (budget : Nat) : Parser EnumEntry := do
  let name ← name
  mark .equals
  let tag ← tag
  let options ← brackets rules.entryOptions budget
  mark .semicolon
  return { name, tag, options }

/-- What stands in the body of an enumeration. -/
def enumItem (rules : Rules) (budget : Nat) : Parser EnumItem :=
  firstOf [
    andThen (optionStatement budget) fun o => succeed (.setting o),
    andThen (entry rules budget) fun e => succeed (.entry e)]

/-- An enumeration. -/
def enumeration (rules : Rules) (budget : Nat) : Parser Enumeration := do
  keyword .kwEnum
  let name ← name
  let body ← body budget (enumItem rules budget)
  return { name, body }

/-! ## 6. Messages -/

/-- The modifier that a lexeme names. -/
def modifier? : Lexeme → Option FieldModifier
  | .keyword .kwRequired => some .required
  | .keyword .kwOptional => some .optional
  | .keyword .kwRepeated => some .repeated
  | _ => none

/-- How often a field occurs, if it is said. -/
def modifier : Parser (Option FieldModifier) :=
  optional (lexeme [.keyword .kwRequired, .keyword .kwOptional, .keyword .kwRepeated] modifier?)

/-- A field of a message. -/
def field (rules : Rules) (budget : Nat) : Parser Field := do
  let modifier ← modifier
  let type ← typeRef budget
  let name ← name
  mark .equals
  let tag ← tag
  let options ← brackets rules.fieldOptions budget
  mark .semicolon
  return { modifier, type, name, tag, options }

/-- What stands in the body of a message, with `nested` for the messages in it. -/
def messageItem (rules : Rules) (budget : Nat) (nested : Parser Message) : Parser MessageItem :=
  let option := andThen (optionStatement budget) fun o => succeed (.setting o)
  let message := andThen nested fun m => succeed (.ofMessage m)
  let enum := andThen (enumeration rules budget) fun e => succeed (.enumeration e)
  let field := andThen (field rules budget) fun f => succeed (.field f)
  firstOf (if rules.nestsEnumerations then [option, message, enum, field]
    else [option, message, field])

/-- A message. -/
def message (rules : Rules) : (budget : Nat) → Parser Message
  | 0 => fun _ => .exhausted
  | budget + 1 => do
    keyword .kwMessage
    let name ← name
    let body ← body budget (messageItem rules budget (message rules budget))
    return { name, body }

/-! ## 7. Statements and documents -/

/-- The text that a syntax statement may carry, and what is asked for otherwise. -/
def syntaxValue (rules : Rules) : Parser String :=
  match rules.syntaxValues with
  | none => stringWhere (fun s => isName s.toList) [.identifier]
  | some values => stringWhere values.contains (values.map .literal)

/-- A syntax statement. -/
def syntaxStatement (rules : Rules) : Parser String := do
  keyword .kwSyntax
  mark .equals
  let value ← syntaxValue rules
  mark .semicolon
  return value

/-- A package statement. -/
def packageStatement (budget : Nat) : Parser String := do
  keyword .kwPackage
  let name ← path budget
  mark .semicolon
  return name

/-- Whether an import is public; the strict dialect lets the word be repeated. -/
def importModifier (rules : Rules) (budget : Nat) : Parser Bool := do
  match ← optional (keyword .kwPublic) with
  | none => return false
  | some () =>
    if rules.repeatsImportModifier then
      let _ ← many budget (keyword .kwPublic)
    return true

/-- An import. -/
def importStatement (rules : Rules) (budget : Nat) : Parser Import := do
  keyword .kwImport
  let isPublic ← importModifier rules budget
  let path ← stringWhere (fun s => isImportPath s.toList) [.importPath]
  mark .semicolon
  return { path, isPublic }

/-- A statement. -/
def statement (rules : Rules) (budget : Nat) : Parser Statement :=
  firstOf [
    andThen (syntaxStatement rules) fun v => succeed (.syntaxDecl v),
    andThen (packageStatement budget) fun n => succeed (.packageDecl n),
    andThen (importStatement rules budget) fun i => succeed (.importDecl i),
    andThen (optionStatement budget) fun o => succeed (.setting o),
    andThen (message rules budget) fun m => succeed (.message m),
    andThen (enumeration rules budget) fun e => succeed (.enumeration e)]

/-- A whole text.  Where the dialect asks for one, at least one statement or line break must be
there. -/
def document (rules : Rules) (budget : Nat) : Parser Document := do
  let lines ← many budget (lineOr (statement rules budget))
  if lines.isEmpty && !rules.allowsEmptyDocument then refuse
  endOfText
  return { statements := lines.filterMap id }

end SchemaLang.Grammar
