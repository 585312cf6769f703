/-
# Settings

A settings text chooses the dialect.  It is a mapping with the one key `dialect`, or says nothing,
which leaves everything as it is by default.  The name of the dialect is compared in lower case,
and reported as it was written.

Settings can be wrong in more than one way at once; what is reported is the first of: the text is
not well formed, is no mapping, has other keys (all of them are named), gives the key something
that is no string, gives it a string that names no dialect.  `Settings.ofText` asks in that order.

A text that is read from a file is reported under the file's path, any other under the label that
the caller gives.  A file can also be missing, be a directory, or hold bytes that are no text.
Those, and scalars without a value, are failures of their own (`SettingsFailure`).
-/
import SchemaLang.Dialect
import SchemaLang.Text.Case
import SchemaLang.Text.Utf8
import SchemaLang.Yaml.Outline

namespace SchemaLang

open Text Yaml

/-! ## 1. Settings and what can be wrong with them -/

/-- What a user can choose. -/
structure Settings where
  dialect : Dialect
  deriving DecidableEq, Repr

/-- What is wrong with a settings text. -/
inductive SettingsFault
  | malformed
  | notAMapping
  /-- The keys that are not known, in ascending order. -/
  | unknownKeys (keys : List String)
  | notAString
  | unknownDialect (name : String)
  deriving DecidableEq, Repr

/-- Why there are no settings, where the fault lies with them. -/
inductive SettingsError
  | fault (label : String) (fault : SettingsFault)
  | missing (path : String)
  | isDirectory (path : String)
  deriving DecidableEq, Repr

/-- Why there are no settings: an error in them, or a text that cannot even be asked. -/
inductive SettingsFailure
  | settings (e : SettingsError)
  | badScalar (e : BadScalar)
  | notText (e : Utf8Error)
  deriving DecidableEq, Repr

/-- The wording of a fault in the text with that label.  A malformed text is reported without the
place or the reason, so its message ends with the blank in front of them. -/
def SettingsFault.message (label : String) : SettingsFault → String
  | malformed => "Invalid YAML in " ++ label ++ ": "
  | notAMapping => label ++ ": parser config must be a YAML mapping"
  | unknownKeys keys => label ++ ": unknown config key(s): " ++ ", ".intercalate keys
  | notAString => label ++ ": 'dialect' must be a string"
  | unknownDialect name =>
    label ++ ": unknown dialect " ++ quoted name ++ " (expected one of: "
      ++ ", ".intercalate (Dialect.all.map Dialect.name) ++ ")"

/-- The wording of an error. -/
def SettingsError.message : SettingsError → String
  | fault label f => f.message label
  | missing path => "Config file not found: " ++ path
  | isDirectory path => "Cannot read config file: [Errno 21] Is a directory: " ++ quoted path

/-- The wording of a failure. -/
def SettingsFailure.message : SettingsFailure → String
  | settings e => e.message
  | badScalar e => e.message
  | notText e => e.message

/-! ## 2. Reading a text -/

namespace Settings

/-- The settings that apply where nothing is chosen. -/
def default : Settings := ⟨.default⟩

/-- The name of the settings file. -/
def fileName : String := ".protoidl.yaml"

/-- The label of a text that comes from no file. -/
def textLabel : String := "<string>"

/-- The one key of settings. -/
def dialectKey : Value := .string "dialect"

/-- The settings that a value for the dialect makes. -/
def ofDialectValue : Value → Except SettingsFault Settings
  | .string name =>
    match Dialect.ofName? (lower name) with
    | some d => .ok ⟨d⟩
    | none => .error (.unknownDialect name)
  | _ => .error .notAString

/-- The keys that are not known, as messages name them, in ascending order. -/
def unknownKeys (entries : List (Value × Value)) : List String :=
  ((entries.filter fun e => e.1 ≠ dialectKey).map fun e => e.1.shown).mergeSort
    fun a b => decide (a ≤ b)

/-- The settings that keys and values make. -/
def ofEntries (entries : List (Value × Value)) : Except SettingsFault Settings :=
  match unknownKeys entries with
  | [] => (entries.lookup dialectKey).elim (.ok default) ofDialectValue
  | keys => .error (.unknownKeys keys)

/-- The settings that the outermost level of a text makes. -/
def ofOutline : Outline → Except SettingsFault Settings
  | .nothing => .ok default
  | .mapping entries => ofEntries entries
  | .other => .error .notAMapping

/-- The settings of a text that is reported under a label. -/
def ofText (label : String) (text : List Char) : Except SettingsFailure Settings :=
  match outline text with
  | .ok o => (ofOutline o).mapError fun f => .settings (.fault label f)
  | .error .malformed => .error (.settings (.fault label .malformed))
  | .error (.badScalar e) => .error (.badScalar e)

/-! ## 3. Reading a file -/

/-- What stands at a path. -/
inductive FileContent
  | missing
  | directory
  | bytes (content : List UInt8)
  deriving DecidableEq, Repr

/-- The settings of the file at a path. -/
def ofFile (path : String) : FileContent → Except SettingsFailure Settings
  | .missing => .error (.settings (.missing path))
  | .directory => .error (.settings (.isDirectory path))
  | .bytes content =>
    match decodeUtf8 content with
    | .ok text => ofText path (normalizeLineEnds text)
    | .error e => .error (.notText e)

/-! ## 4. Laws -/

/-- The name of every dialect chooses it. -/
theorem ofDialectValue_name (d : Dialect) : ofDialectValue (.string d.name) = .ok ⟨d⟩ := by
  cases d <;> rfl

/-- Entries without other keys leave only the dialect to look at. -/
theorem unknownKeys_eq_nil_iff {entries : List (Value × Value)} :
    unknownKeys entries = [] ↔ ∀ e ∈ entries, e.1 = dialectKey := by
  rw [← List.length_eq_zero_iff, unknownKeys, List.length_mergeSort, List.length_map,
    List.length_eq_zero_iff, List.filter_eq_nil_iff]
  simp

end Settings
end SchemaLang
