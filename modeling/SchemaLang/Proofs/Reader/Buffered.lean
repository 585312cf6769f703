/-
# Reading from a buffer

A stream hands every token out once.  A reader that gives alternatives up keeps what it was handed
in a buffer, and goes back in there.  It has one place, which moves on with every token that is read
and back where an alternative is given up, and one record of the furthest place where something was
asked for in vain, with what was asked for there.  It asks the stream for a token only when it looks
at one that it has not got.

This module writes the grammar down for such a reader: every rule is an action that changes the
state, and a rule that does not match stops, with the state as it is then.  A run remembers all the
states it went through, so that one can speak of what holds throughout.

The actions are built from a few steps: `pull`, `advance`, `note` and going back.  What could go
wrong there is a way to stop of its own: to ask the stream for a token behind the end (`pastEnd`),
and to look a token up that is not in the buffer (`unbuffered`).  Alternatives are given up for
`noMatch` only, so the other ways to stop end the whole run.
-/
import SchemaLang.Document.Parse

namespace SchemaLang.Buffered

open Text Grammar

/-! ## 1. States and runs -/

/-- The state of a reader. -/
structure Reader where
  /-- The tokens that were not handed out yet; none once the end was. -/
  source : Option TokenStream
  buffer : List Sighting
  pos : Nat
  furthest : Nat
  expected : List Expectation
  deriving DecidableEq, Repr

/-- The reader that has not asked for anything. -/
def Reader.start (s : TokenStream) : Reader := ⟨some s, [], 0, 0, []⟩

/-- Why an action stops. -/
inductive Stop
  | noMatch
  | interrupted (cause : Interruption)
  | pastEnd
  | unbuffered
  | exhausted
  deriving DecidableEq, Repr

/-- The state, the states before it, the latest first, and the alternatives that were given up, each
by the state in front of it and the state behind it. -/
structure Run where
  now : Reader
  past : List Reader
  givenUp : List (Reader × Reader)

namespace Run

/-- The run at its start. -/
def start (s : TokenStream) : Run := ⟨.start s, [], []⟩

/-- All states of a run, the latest first. -/
def states (h : Run) : List Reader := h.now :: h.past

/-- The run goes on with a state. -/
def push (h : Run) (r : Reader) : Run := ⟨r, h.states, h.givenUp⟩

/-- The run goes back to where the reader was before, and an alternative is given up. -/
def giveUp (h : Run) (before : Reader) : Run :=
  let behind := { h.now with pos := before.pos }
  ⟨behind, h.states, (before, behind) :: h.givenUp⟩

end Run

/-- What a reader does.  The run goes on also where the action stops. -/
def Action (α : Type) : Type := Run → Except Stop α × Run

variable {α β : Type}

instance : Monad Action where
  pure a := fun h => (.ok a, h)
  bind m f := fun h =>
    match m h with
    | (.ok a, h') => f a h'
    | (.error e, h') => (.error e, h')

/-! ## 2. Steps -/

/-- Stops. -/
def stop (e : Stop) : Action α := fun h => (.error e, h)

/-- The state. -/
def state : Action Reader := fun h => (.ok h.now, h)

/-- Changes the state. -/
def become (r : Reader) : Action Unit := fun h => (.ok (), h.push r)

/-- Asks for one more token and puts it into the buffer. -/
def pull : Action Unit := do
  let r ← state
  match r.source with
  | none => stop .pastEnd
  | some (.fault e) => stop (.interrupted (.lexical e))
  | some (.done p) => become { r with source := none, buffer := r.buffer ++ [⟨none, p⟩] }
  | some (.token t rest) =>
    become { r with source := some rest, buffer := r.buffer ++ [⟨some t.lexeme, t.pos⟩] }

/-- Asks for some more tokens. -/
def pullMany : Nat → Action Unit
  | 0 => pure ()
  | n + 1 => do
    pull
    pullMany n

/-- A token of the buffer. -/
def lookUp (i : Nat) : Action Sighting := do
  let r ← state
  match r.buffer[i]? with
  | some x => return x
  | none => stop .unbuffered

/-- What stands at the place of the reader; the stream is asked for what is missing up to there. -/
def current : Action Sighting := do
  let r ← state
  pullMany (r.pos + 1 - r.buffer.length)
  lookUp r.pos

/-- Reads what stands at the place of the reader; the end stays where it is. -/
def advance : Action Sighting := do
  let x ← current
  if x.lexeme.isSome then
    let r ← state
    become { r with pos := r.pos + 1 }
  return x

/-- Puts on record what is asked for at the place of the reader.  Further on than the record it
makes a new one, at the same place it adds to the record, in front of it it counts for nothing. -/
def note (expected : List Expectation) : Action Unit := do
  let r ← state
  if r.furthest < r.pos then become { r with furthest := r.pos, expected := expected }
  else if r.pos = r.furthest then become { r with expected := r.expected ++ expected }

/-- Does not match, for what is asked for. -/
def fail (expected : List Expectation) : Action α := do
  note expected
  stop .noMatch

/-- Reads what `f` makes something of.  Otherwise what is asked for goes on record. -/
def accept (expected : List Expectation) (f : Option Lexeme → Option α) : Action (Option α) := do
  let x ← current
  match f x.lexeme with
  | some a =>
    let _ ← advance
    return some a
  | none =>
    note expected
    return none

/-- Reads what `f` makes something of, or does not match. -/
def expect (expected : List Expectation) (f : Option Lexeme → Option α) : Action α := do
  match ← accept expected f with
  | some a => return a
  | none => stop .noMatch

/-- Where the action does not match, the reader goes back to where it was. -/
def attempt (m : Action α) : Action (Option α) := fun h =>
  match m h with
  | (.ok a, h') => (.ok (some a), h')
  | (.error .noMatch, h') => (.ok none, h'.giveUp h.now)
  | (.error e, h') => (.error e, h')

/-- The first of several alternatives that matches. -/
def choice : List (Action α) → Action (Option α)
  | [] => return none
  | m :: ms => do
    match ← attempt m with
    | some a => return some a
    | none => choice ms

/-- As often as the action finds something, within an allowance. -/
def whileSome (m : Action (Option α)) : (budget : Nat) → Action (List α)
  | 0 => stop .exhausted
  | budget + 1 => do
    match ← m with
    | none => return []
    | some a =>
      let as ← whileSome m budget
      return a :: as

/-- The action once behind each mark in a row of them, within an allowance. -/
def whileLed (lead : Action (Option β)) (m : Action α) : (budget : Nat) → Action (List α)
  | 0 => stop .exhausted
  | budget + 1 => do
    match ← lead with
    | none => return []
    | some _ =>
      let a ← m
      let as ← whileLed lead m budget
      return a :: as

/-! ## 3. Single lexemes -/

/-- Makes something of one lexeme only. -/
def exactly (l : Lexeme) : Lexeme → Option Unit := fun x => if x = l then some () else none

/-- Reads one given keyword, if it is there. -/
def acceptKeyword (k : Keyword) : Action (Option Unit) :=
  accept [.keyword k] (·.bind (exactly (.keyword k)))

/-- Reads one given mark, if it is there. -/
def acceptMark (p : Punct) : Action (Option Unit) :=
  accept [.punct p] (·.bind (exactly (.punct p)))

/-- Reads one line break, if it is there. -/
def acceptNewline : Action (Option Unit) := accept [.newline] (·.bind (exactly .newline))

/-- Reads one given keyword. -/
def keyword (k : Keyword) : Action Unit := expect [.keyword k] (·.bind (exactly (.keyword k)))

/-- Reads one given mark. -/
def mark (p : Punct) : Action Unit := expect [.punct p] (·.bind (exactly (.punct p)))

/-- Reads an identifier, or a keyword in its place. -/
def name : Action String := do
  let x ← current
  match x.lexeme.bind Lexeme.name? with
  | none => fail [.identifier]
  | some s =>
    let _ ← advance
    return s

/-- The text of a string. -/
def string? : Lexeme → Option String
  | .string text => some text
  | _ => none

/-- Reads a string literal.  Where its text does not pass the test, the reader goes back in front of
it and does not match there. -/
def stringWhere (passes : String → Bool) (expected : List Expectation) : Action String := do
  let r ← state
  let text ← expect [.stringLiteral] (·.bind string?)
  if passes text then return text
  else
    let r' ← state
    become { r' with pos := r.pos }
    fail expected

/-- The run stops where a numeral was too long. -/
def settle : Except LongNumeral α → Action α
  | .ok a => pure a
  | .error e => stop (.interrupted (.longNumeral e))

/-- The digits of an integer. -/
def digits? : Lexeme → Option String
  | .integer ds => some ds
  | _ => none

/-- A tag number. -/
def tag : Action Int := do
  let ds ← expect [.integer] (·.bind digits?)
  settle ((readNumeral ds.toList).map Int.ofNat)

/-- The value of an option. -/
def constant : Action Constant := do
  let value ← expect [.integer, .stringLiteral, .keyword .kwTrue, .keyword .kwFalse]
    (·.bind Grammar.constant?)
  settle value

/-! ## 4. Paths and types -/

/-- Names with a dot in front of each. -/
def dotted (budget : Nat) : Action (List String) := whileLed (acceptMark .dot) name budget

/-- One or more names with dots between them. -/
def path (budget : Nat) : Action String := do
  let head ← name
  let tail ← dotted budget
  return joinDots (head :: tail)

/-- A map type whose parts are read by `part`. -/
def mapType (part : Action TypeRef) : Action TypeRef := do
  keyword .kwMap
  mark .langle
  let key ← part
  mark .comma
  let value ← part
  mark .rangle
  return .map key value

/-- A type: a keyword, or a map, or else a path. -/
def typeRef : (budget : Nat) → Action TypeRef
  | 0 => stop .exhausted
  | budget + 1 => do
    match ← accept [.keyword .kwInt32, .keyword .kwInt64, .keyword .kwString, .keyword .kwBoolean]
        (·.bind primitive?) with
    | some p => return .primitive p
    | none =>
      match ← attempt (mapType (typeRef budget)) with
      | some t => return t
      | none =>
        let path ← path budget
        return .named path

/-! ## 5. Options -/

/-- The left side of an option. -/
def optionKey (budget : Nat) : Action (String × Bool × Option String) := do
  match ← acceptMark .lparen with
  | some () =>
    let name ← name
    mark .rparen
    let suffix ← dotted budget
    return (name, true, if suffix.isEmpty then none else some (joinDots suffix))
  | none =>
    let name ← name
    return (name, false, none)

/-- An option without the words and marks around it. -/
def setting (budget : Nat) : Action OptionSetting := do
  let (name, isExtension, fieldPath) ← optionKey budget
  mark .equals
  let value ← constant
  return { name, isExtension, fieldPath, value }

/-- An option statement. -/
def optionStatement (budget : Nat) : Action OptionSetting := do
  keyword .kwOption
  let o ← setting budget
  mark .semicolon
  return o

/-- A bracketed option whose opening bracket was just read. -/
def bracketed (budget : Nat) : Action OptionSetting := do
  let o ← setting budget
  mark .rbracket
  return o

/-- Any number of bracketed options, where the dialect has them. -/
def brackets (enabled : Bool) (budget : Nat) : Action (List OptionSetting) :=
  if enabled then whileLed (acceptMark .lbracket) (bracketed budget) budget else return []

/-! ## 6. Bodies, enumerations and messages -/

/-- A line break, or an item. -/
def lineOr (item : Action (Option α)) : Action (Option (Option α)) := do
  match ← acceptNewline with
  | some () => return some none
  | none =>
    match ← item with
    | some a => return some (some a)
    | none => return none

/-- Items and line breaks in any order between braces; only the items are kept. -/
def body (budget : Nat) (item : Action (Option α)) : Action (List α) := do
  mark .lbrace
  let lines ← whileSome (lineOr item) budget
  mark .rbrace
  return lines.filterMap id

/-- An entry of an enumeration. -/
def entry (rules : Rules) (budget : Nat) : Action EnumEntry := do
  let name ← name
  mark .equals
  let tag ← tag
  let options ← brackets rules.entryOptions budget
  mark .semicolon
  return { name, tag, options }

/-- What stands in the body of an enumeration. -/
def enumItem (rules : Rules) (budget : Nat) : Action (Option EnumItem) :=
  choice [
    do return .setting (← optionStatement budget),
    do return .entry (← entry rules budget)]

/-- An enumeration. -/
def enumeration (rules : Rules) (budget : Nat) : Action Enumeration := do
  keyword .kwEnum
  let name ← name
  let body ← body budget (enumItem rules budget)
  return { name, body }

/-- A field of a message. -/
def field (rules : Rules) (budget : Nat) : Action Field := do
  let modifier ← accept [.keyword .kwRequired, .keyword .kwOptional, .keyword .kwRepeated]
    (·.bind modifier?)
  let type ← typeRef budget
  let name ← name
  mark .equals
  let tag ← tag
  let options ← brackets rules.fieldOptions budget
  mark .semicolon
  return { modifier, type, name, tag, options }

/-- What stands in the body of a message, with `nested` for the messages in it. -/
def messageItem (rules : Rules) (budget : Nat) (nested : Action Message) :
    Action (Option MessageItem) :=
  let option : Action MessageItem := do return .setting (← optionStatement budget)
  let message : Action MessageItem := do return .ofMessage (← nested)
  let enum : Action MessageItem := do return .enumeration (← enumeration rules budget)
  let field : Action MessageItem := do return .field (← field rules budget)
  choice (if rules.nestsEnumerations then [option, message, enum, field]
    else [option, message, field])

/-- A message. -/
def message (rules : Rules) : (budget : Nat) → Action Message
  | 0 => stop .exhausted
  | budget + 1 => do
    keyword .kwMessage
    let name ← name
    let body ← body budget (messageItem rules budget (message rules budget))
    return { name, body }

/-! ## 7. Statements and documents -/

/-- The text that a syntax statement may carry. -/
def syntaxValue (rules : Rules) : Action String :=
  match rules.syntaxValues with
  | none => stringWhere (fun s => isName s.toList) [.identifier]
  | some values => stringWhere values.contains (values.map .literal)

/-- A syntax statement. -/
def syntaxStatement (rules : Rules) : Action String := do
  keyword .kwSyntax
  mark .equals
  let value ← syntaxValue rules
  mark .semicolon
  return value

/-- A package statement. -/
def packageStatement (budget : Nat) : Action String := do
  keyword .kwPackage
  let name ← path budget
  mark .semicolon
  return name

/-- Whether an import is public; the strict dialect lets the word be repeated. -/
def importModifier (rules : Rules) (budget : Nat) : Action Bool := do
  match ← acceptKeyword .kwPublic with
  | none => return false
  | some () =>
    if rules.repeatsImportModifier then
      let _ ← whileSome (acceptKeyword .kwPublic) budget
    return true

/-- An import. -/
def importStatement (rules : Rules) (budget : Nat) : Action Import := do
  keyword .kwImport
  let isPublic ← importModifier rules budget
  let path ← stringWhere (fun s => isImportPath s.toList) [.importPath]
  mark .semicolon
  return { path, isPublic }

/-- A statement. -/
def statement (rules : Rules) (budget : Nat) : Action (Option Statement) :=
  choice [
    do return .syntaxDecl (← syntaxStatement rules),
    do return .packageDecl (← packageStatement budget),
    do return .importDecl (← importStatement rules budget),
    do return .setting (← optionStatement budget),
    do return .message (← message rules budget),
    do return .enumeration (← enumeration rules budget)]

/-- What a document says once its lines are read; nothing may stand behind them. -/
def finish (lines : List (Option Statement)) : Action Document := do
  expect [.endOfText] fun x => if x.isNone then some () else none
  return { statements := lines.filterMap id }

/-- A whole text.  Where the dialect asks for one, at least one statement or line break must be
there; nothing goes on record for that. -/
def document (rules : Rules) (budget : Nat) : Action Document := do
  let lines ← whileSome (lineOr (statement rules budget)) budget
  if lines.isEmpty && !rules.allowsEmptyDocument then stop .noMatch
  else finish lines

/-! ## 8. What a run comes to -/

/-- The reading of a stream from its start to its end. -/
def read (rules : Rules) (s : TokenStream) : Except Stop Document × Run :=
  document rules (s.size + 1) (.start s)

/-- The report that is made of the record, unless the buffer holds no token at its place. -/
def Run.report? (h : Run) : Option SyntaxError :=
  h.now.buffer[h.now.furthest]?.map fun x => ⟨x.pos, x.lexeme, h.now.expected⟩

/-- What is said of a reading.  Nothing can be said of one that has gone wrong. -/
def answer? : Except Stop Document × Run → Option (Except ParseError Document)
  | (.ok d, _) => some (.ok d)
  | (.error .noMatch, h) => h.report?.map fun e => .error (.noMatch e)
  | (.error (.interrupted (.lexical e)), _) => some (.error (.lexical e))
  | (.error (.interrupted (.longNumeral e)), _) => some (.error (.longNumeral e))
  | (.error .pastEnd, _) => none
  | (.error .unbuffered, _) => none
  | (.error .exhausted, _) => none

end SchemaLang.Buffered
