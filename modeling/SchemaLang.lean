import SchemaLang.Artifact
import SchemaLang.Artifact.Checked
import SchemaLang.Artifact.Dump
import SchemaLang.Artifact.Load
import SchemaLang.Artifact.Model
import SchemaLang.Artifact.Scalar
import SchemaLang.CheckSteps
import SchemaLang.Dialect
import SchemaLang.Document
import SchemaLang.Document.Kind
import SchemaLang.Document.Parse
import SchemaLang.Document.Views
import SchemaLang.Grammar.Budget
import SchemaLang.Grammar.Productions
import SchemaLang.Grammar.Reply
import SchemaLang.Json
import SchemaLang.Json.Read
import SchemaLang.Json.Shown
import SchemaLang.Json.Written
import SchemaLang.Lexeme
import SchemaLang.Main
import SchemaLang.Number.Binary64
import SchemaLang.Number.Power
import SchemaLang.Number.Shortest
import SchemaLang.Proofs.Artifact.Agreement
import SchemaLang.Proofs.Artifact.Answered
import SchemaLang.Proofs.Artifact.KeyOrder
import SchemaLang.Proofs.Artifact.Load
import SchemaLang.Proofs.Artifact.Loaded
import SchemaLang.Proofs.Artifact.RoundTrip
import SchemaLang.Proofs.Artifact.Scalar
import SchemaLang.Proofs.Artifact.Short
import SchemaLang.Proofs.Document.Dialects
import SchemaLang.Proofs.Document.FirstError
import SchemaLang.Proofs.Document.Layout
import SchemaLang.Proofs.Document.LineBreaks
import SchemaLang.Proofs.Document.LongNumerals
import SchemaLang.Proofs.Document.OptionKeys
import SchemaLang.Proofs.Document.Renaming
import SchemaLang.Proofs.Document.Sense
import SchemaLang.Proofs.Document.Text
import SchemaLang.Proofs.Document.Tree
import SchemaLang.Proofs.Document.Unplaced
import SchemaLang.Proofs.Document.Views
import SchemaLang.Proofs.Document.Written
import SchemaLang.Proofs.Grammar.Congruence
import SchemaLang.Proofs.Grammar.Derivation
import SchemaLang.Proofs.Grammar.Exact
import SchemaLang.Proofs.Grammar.Exact.Choice
import SchemaLang.Proofs.Grammar.Exact.Documents
import SchemaLang.Proofs.Grammar.Exact.Productions
import SchemaLang.Proofs.Grammar.Following
import SchemaLang.Proofs.Grammar.Languages
import SchemaLang.Proofs.Grammar.Leaves
import SchemaLang.Proofs.Grammar.Locality
import SchemaLang.Proofs.Grammar.LongNumerals
import SchemaLang.Proofs.Grammar.Names
import SchemaLang.Proofs.Grammar.Progress
import SchemaLang.Proofs.Grammar.Sound
import SchemaLang.Proofs.Grammar.Tree
import SchemaLang.Proofs.Grammar.Unambiguous
import SchemaLang.Proofs.Grammar.Viability
import SchemaLang.Proofs.Json.LongNumerals
import SchemaLang.Proofs.Json.Pieces
import SchemaLang.Proofs.Json.RoundTrip
import SchemaLang.Proofs.Json.Short
import SchemaLang.Proofs.Json.Strings
import SchemaLang.Proofs.Reader.Buffered
import SchemaLang.Proofs.Reader.Combinators
import SchemaLang.Proofs.Reader.Follows
import SchemaLang.Proofs.Reader.Invariant
import SchemaLang.Proofs.Reader.Productions
import SchemaLang.Proofs.Reader.Reports
import SchemaLang.Proofs.Scanner.Breaks
import SchemaLang.Proofs.Scanner.Comments
import SchemaLang.Proofs.Scanner.Dialects
import SchemaLang.Proofs.Scanner.Growth
import SchemaLang.Proofs.Scanner.LineEnds
import SchemaLang.Proofs.Scanner.Offsets
import SchemaLang.Proofs.Scanner.Packed
import SchemaLang.Proofs.Scanner.Pieces
import SchemaLang.Proofs.Scanner.Places
import SchemaLang.Proofs.Scanner.Seams
import SchemaLang.Proofs.Scanner.Segments
import SchemaLang.Proofs.Scanner.Shape
import SchemaLang.Proofs.Scanner.Steps
import SchemaLang.Proofs.Scanner.Written
import SchemaLang.Proofs.Settings.Answered
import SchemaLang.Proofs.Text.Runs
import SchemaLang.Proofs.Text.Utf8
import SchemaLang.Proofs.Yaml.Assembly
import SchemaLang.Proofs.Yaml.Marks
import SchemaLang.Proofs.Yaml.Outline
import SchemaLang.Session
import SchemaLang.Settings
import SchemaLang.Text.Base64
import SchemaLang.Text.Blank
import SchemaLang.Text.Case
import SchemaLang.Text.Cased
import SchemaLang.Text.CharClass
import SchemaLang.Text.CodeRange
import SchemaLang.Text.DecimalDigit
import SchemaLang.Text.Numeral
import SchemaLang.Text.Position
import SchemaLang.Text.Quoted
import SchemaLang.Text.Utf8
import SchemaLang.Text.Visible
import SchemaLang.Token
import SchemaLang.Token.Scan
import SchemaLang.Yaml.Assembly
import SchemaLang.Yaml.Content
import SchemaLang.Yaml.Cursor
import SchemaLang.Yaml.Layout
import SchemaLang.Yaml.Merge
import SchemaLang.Yaml.Outline
import SchemaLang.Yaml.Problem
import SchemaLang.Yaml.ScalarText
import SchemaLang.Yaml.Tag
import SchemaLang.Yaml.Token
import SchemaLang.Yaml.Value
