/-
# Tokens and their stream

A token is a lexeme at a place.  A text yields a stream of tokens that ends in one of two ways:
at the end of the text, or at a fault, a place where no lexeme can be made.  Both ends carry
their place and nothing follows them; the shape of `TokenStream` leaves no room for anything else.

A reader takes from the front, so a fault matters only to a reader that gets there: `read` stops
at its limit without looking further.
-/
import SchemaLang.Lexeme
import SchemaLang.Text.Position
import SchemaLang.Text.Quoted

namespace SchemaLang

open Text

/-! ## 1. Tokens and faults -/

/-- A lexeme and the place where it starts. -/
structure Token where
  lexeme : Lexeme
  pos : Position
  deriving DecidableEq, Repr

/-- Why no lexeme can be made. -/
inductive LexicalCause
  | unexpectedCharacter (c : Char)
  | unterminatedString
  | unterminatedComment
  deriving DecidableEq, Repr

/-- A place where no lexeme can be made: the odd character, the opening quote, or the first
slash of the comment. -/
structure LexicalError where
  cause : LexicalCause
  pos : Position
  deriving DecidableEq, Repr

/-- The wording of a cause. -/
def LexicalCause.message : LexicalCause → String
  | unexpectedCharacter c => "Unexpected character: " ++ quoted (String.singleton c)
  | unterminatedString => "Unterminated string literal"
  | unterminatedComment => "Unterminated comment (missing newline)"

/-- The whole report, place first. -/
def LexicalError.message (e : LexicalError) : String :=
  e.pos.render ++ ": " ++ e.cause.message

/-! ## 2. Streams -/

/-- The tokens of a text in order, up to its end or to its first fault. -/
inductive TokenStream
  | done (pos : Position)
  | fault (error : LexicalError)
  | token (t : Token) (rest : TokenStream)
  deriving DecidableEq, Repr

/-- What a reader meets at the head of a stream: a lexeme, or the end of the text. -/
structure Sighting where
  lexeme : Option Lexeme
  pos : Position
  deriving DecidableEq, Repr

namespace TokenStream

/-- How many tokens stand before the end. -/
def size : TokenStream → Nat
  | done _ => 0
  | fault _ => 0
  | token _ rest => rest.size + 1

/-- The tokens before the end, whichever end it is. -/
def toList : TokenStream → List Token
  | done _ => []
  | fault _ => []
  | token t rest => t :: rest.toList

/-- The fault the stream ends in, if it does. -/
def error? : TokenStream → Option LexicalError
  | done _ => none
  | fault e => some e
  | token _ rest => rest.error?

/-- The stream that hands out these tokens and then ends well. -/
def ofTokens (ts : List Token) (stop : Position) : TokenStream := ts.foldr token (done stop)

/-- All that a stream shows, its end included, unless it ends in a fault. -/
def sightings : TokenStream → Except LexicalError (List Sighting)
  | done p => .ok [⟨none, p⟩]
  | fault e => .error e
  | token t rest => rest.sightings.map (⟨some t.lexeme, t.pos⟩ :: ·)

/-- How reading from a stream came to its end. -/
inductive ReadEnd
  /-- As many sightings were taken as were asked for. -/
  | limit
  /-- The end of the text was taken, and nothing is behind it. -/
  | spent
  | fault (error : LexicalError)
  deriving DecidableEq, Repr

/-- What is left once the end of the text was taken: nothing, which is seen only by asking. -/
def readSpent : Option Nat → ReadEnd
  | some 0 => .limit
  | _ => .spent

/-- Takes sightings from the front, at most `limit` of them; the limit is looked at before
each reading. -/
def read : TokenStream → Option Nat → List Sighting × ReadEnd
  | _, some 0 => ([], .limit)
  | done p, limit => ([⟨none, p⟩], readSpent (limit.map (· - 1)))
  | fault e, _ => ([], .fault e)
  | token t rest, limit =>
    let (taken, ending) := rest.read (limit.map (· - 1))
    (⟨some t.lexeme, t.pos⟩ :: taken, ending)

/-! ## 3. The views agree -/

@[simp] theorem length_toList : ∀ s : TokenStream, s.toList.length = s.size
  | done _ => rfl
  | fault _ => rfl
  | token _ rest => by simp [toList, size, length_toList rest]

@[simp] theorem toList_ofTokens (ts : List Token) (p : Position) : (ofTokens ts p).toList = ts := by
  induction ts with
  | nil => rfl
  | cons t ts ih => exact congrArg (t :: ·) ih

@[simp] theorem error?_ofTokens (ts : List Token) (p : Position) :
    (ofTokens ts p).error? = none := by
  induction ts with
  | nil => rfl
  | cons t ts ih => exact ih

/-- A stream that shows all of itself ends without a fault. -/
theorem error?_eq_none_iff (s : TokenStream) : s.error? = none ↔ ∃ l, s.sightings = .ok l := by
  induction s with
  | done p => simp [error?, sightings]
  | fault e => simp [error?, sightings]
  | token t rest ih =>
    rw [error?, ih, sightings]
    cases rest.sightings <;> simp [Except.map]

end TokenStream
end SchemaLang
