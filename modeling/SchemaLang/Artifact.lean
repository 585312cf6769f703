/-
# Artifacts

An artifact is a document as a text that another process can read: an object with the version of the
format under `v` and the document under `document`.  Writing one works unless an integer is too long
to be written, which no integer is that was read.  Reading one goes through four checks in a fixed
order, and the first that fails is reported: the text is an interchange text, it holds an object,
the version is known, and there is a document that fits its model.  Other keys beside those two are
ignored; inside the document none is.
-/
import SchemaLang.Artifact.Load
import SchemaLang.Json.Read
import SchemaLang.Json.Shown
import SchemaLang.Json.Written

namespace SchemaLang

open Text

/-! ## 1. Failures -/

/-- Why a text is no artifact. -/
inductive ArtifactError
  | malformed (e : Json.Malformed)
  | notAnObject
  /-- The version is another one, or null where there is none. -/
  | unknownVersion (found : Json)
  | noDocument
  | invalidDocument (issues : List Issue)
  deriving Repr

/-- The wording of a failure; the issues of an invalid document are listed beside it. -/
def ArtifactError.message : ArtifactError → String
  | malformed e => "Artifact is not valid JSON: " ++ e.message
  | notAnObject => "Artifact must be a JSON object"
  | unknownVersion found => "Unsupported artifact format version: " ++ found.shown
  | noDocument => "Artifact has no 'document' payload"
  | invalidDocument _ => "Invalid artifact payload: "

/-- Why reading an artifact fails: the text is none, or a numeral in it is too long to tell. -/
inductive DeserializeError
  | artifact (e : ArtifactError)
  | longNumeral (e : LongNumeral)
  deriving Repr

/-! ## 2. Writing and reading -/

namespace Document

/-- The version of the format. -/
def artifactVersion : String := "1"

/-- The artifact of a document as a value. -/
def toArtifact (d : Document) : Json :=
  .object [("v", .string artifactVersion), ("document", d.dump)]

/-- The text of the artifact of a document, whatever integers are in it. -/
def serialize (d : Document) : String := d.toArtifact.written

/-- The artifact of a document, unless an integer in it is too long to be written. -/
def write (d : Document) : Except Json.WriteError String := d.toArtifact.write

/-- The document that an artifact holds as a value. -/
def ofArtifact (value : Json) : Except ArtifactError Document :=
  match value with
  | .object ms =>
    match (Json.find? "v" ms).getD .null with
    | .string version =>
      if version = artifactVersion then
        match Json.find? "document" ms with
        | none => .error .noDocument
        | some v =>
          match Document.load v with
          | .valid d => .ok d
          | .invalid issues => .error (.invalidDocument issues)
      else .error (.unknownVersion (.string version))
    | found => .error (.unknownVersion found)
  | _ => .error .notAnObject

/-- The document that an artifact holds. -/
def deserialize (text : String) : Except DeserializeError Document :=
  match Json.read text with
  | .error (.malformed e) => .error (.artifact (.malformed (e.locate text)))
  | .error (.longNumeral e) => .error (.longNumeral e)
  | .ok value => (ofArtifact value).mapError .artifact

end Document
end SchemaLang
