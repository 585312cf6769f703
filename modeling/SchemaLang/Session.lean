/-
# Sessions

A session reads and writes documents one after the other.  It remembers two things: the settings
in force, under which schema texts are read, and the current document, which is the last one that
was read, from a schema text or from an artifact.

A step that fails leaves both as they are (`Session.next` of an error is the session itself), so
the answers to later steps do not depend on what was attempted in vain.
-/
import SchemaLang.Artifact
import SchemaLang.Document.Parse
import SchemaLang.Settings

namespace SchemaLang

/-! ## 1. States, steps and answers -/

/-- The settings in force and the current document. -/
structure Session where
  settings : Settings
  document : Document

/-- What can be asked of a session. -/
inductive Request
  /-- Puts the settings of a text in force. -/
  | configure (text : String)
  /-- Makes the document of a schema text the current one. -/
  | parse (source : String)
  /-- Makes the document of an artifact the current one. -/
  | deserialize (artifact : String)
  /-- Asks for the artifact of the current document. -/
  | serialize
  /-- Asks for the current document. -/
  | document
  deriving DecidableEq, Repr

/-- What a session answers. -/
inductive Answer
  | settings (s : Settings)
  /-- The new current document, and whether it equals the one before. -/
  | current (same : Bool) (d : Document)
  | artifact (text : String)
  | document (d : Document)

/-- Why a session cannot do what it is asked. -/
inductive SessionFailure
  | settings (e : SettingsFailure)
  | parse (e : ParseError)
  | deserialize (e : DeserializeError)

namespace Session

/-! ## 2. Steps -/

/-- The session at the start: no settings, and a document without statements. -/
def start : Session := ⟨.default, ⟨[]⟩⟩

/-- Makes a document the current one. -/
def replace (s : Session) (d : Document) : Session × Answer :=
  (⟨s.settings, d⟩, .current (s.document = d) d)

/-- What a request leads to. -/
def step (s : Session) : Request → Except SessionFailure (Session × Answer)
  | .configure text =>
    match Settings.ofText Settings.textLabel text.toList with
    | .ok settings => .ok (⟨settings, s.document⟩, .settings settings)
    | .error e => .error (.settings e)
  | .parse source =>
    match Document.parse s.settings.dialect source with
    | .ok d => .ok (s.replace d)
    | .error e => .error (.parse e)
  | .deserialize artifact =>
    match Document.deserialize artifact with
    | .ok d => .ok (s.replace d)
    | .error e => .error (.deserialize e)
  | .serialize => .ok (s, .artifact s.document.serialize)
  | .document => .ok (s, .document s.document)

/-- The session behind a step. -/
def next (s : Session) (r : Request) : Session :=
  match s.step r with
  | .ok (t, _) => t
  | .error _ => s

/-- The answer of a step. -/
def answer (s : Session) (r : Request) : Except SessionFailure Answer :=
  (s.step r).map Prod.snd

/-- The answers to requests that are made one after the other. -/
def run (s : Session) : List Request → List (Except SessionFailure Answer)
  | [] => []
  | r :: rs => s.answer r :: (s.next r).run rs

/-! ## 3. Laws -/

/-- A step that fails changes nothing. -/
theorem next_of_error {s : Session} {r : Request} {e : SessionFailure} (h : s.step r = .error e) :
    s.next r = s := by
  simp [next, h]

/-- Every request is answered. -/
theorem length_run (s : Session) (rs : List Request) : (s.run rs).length = rs.length := by
  induction rs generalizing s with
  | nil => rfl
  | cons r rs ih => simp [run, ih]

end Session
end SchemaLang
