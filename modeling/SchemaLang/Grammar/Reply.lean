/-
# Replies of a grammar rule

A grammar rule is run at a cursor: a stream of tokens, and how many tokens were read to get
there.  It matches and moves on, or it misses, or the stream breaks off under it.  A rule that
misses leaves no trace but the miss, so the caller still holds the cursor it started from and may
try something else there.

A miss says how far it got, what stood there, and what could have stood there instead.  Of two
misses the one that got further counts, and two that got equally far count together
(`Miss.merge`); a rule that matches may still carry the misses of what it tried on the way.  What
is reported in the end is therefore the furthest place that any alternative reached and
everything that any of them could have used there.
-/
import SchemaLang.Token
import SchemaLang.Text.Numeral

namespace SchemaLang.Grammar

open Text

/-! ## 1. Expectations -/

/-- What a rule can ask for at one place. -/
inductive Expectation
  | keyword (k : Keyword)
  | punct (p : Punct)
  | stringLiteral
  | integer
  | identifier
  | newline
  | endOfText
  /-- A string literal with exactly this text. -/
  | literal (text : String)
  | importPath
  deriving DecidableEq, Repr

/-- How a report names an expectation. -/
def Expectation.describe : Expectation → String
  | keyword k => quoted k.text
  | punct p => quoted (String.singleton p.char)
  | stringLiteral => "string literal"
  | integer => "integer"
  | identifier => "identifier"
  | newline => "newline"
  | endOfText => "end of input"
  | literal text => "\"" ++ text ++ "\""
  | importPath => "import path"

/-- How a report names what it found. -/
def describeFound : Option Lexeme → String
  | none => Expectation.endOfText.describe
  | some .newline => Expectation.newline.describe
  | some (.string text) => (Expectation.literal text).describe
  | some l => quoted l.text

/-! ## 2. Misses -/

/-- A place, counted in tokens, that could not be passed: what stood there and what was asked
for. -/
structure Miss where
  index : Nat
  found : Sighting
  expected : List Expectation
  deriving DecidableEq, Repr

namespace Miss

/-- The miss that got further; all that was asked for where both got equally far. -/
def merge (a b : Miss) : Miss :=
  if a.index < b.index then b
  else if b.index < a.index then a
  else { a with expected := a.expected ++ b.expected }

/-- A miss and whatever was missed before it. -/
def after (m : Miss) : Option Miss → Miss
  | none => m
  | some earlier => earlier.merge m

/-- The misses of two steps in a row. -/
def both : Option Miss → Option Miss → Option Miss
  | earlier, none => earlier
  | earlier, some m => some (m.after earlier)

theorem le_index_merge_left (a b : Miss) : a.index ≤ (a.merge b).index := by
  unfold merge
  split
  · exact Nat.le_of_lt ‹_›
  · split <;> exact Nat.le_refl _

theorem le_index_merge_right (a b : Miss) : b.index ≤ (a.merge b).index := by
  unfold merge
  split
  · exact Nat.le_refl _
  · split <;> simp_all

end Miss

/-! ## 3. Replies -/

/-- How many tokens were read, and the stream from there on. -/
structure Cursor where
  index : Nat
  ahead : TokenStream
  deriving DecidableEq, Repr

/-- The cursor in front of a stream. -/
def Cursor.front (s : TokenStream) : Cursor := ⟨0, s⟩

/-- Why a run breaks off, whatever else could be tried. -/
inductive Interruption
  | lexical (error : LexicalError)
  | longNumeral (error : LongNumeral)
  deriving DecidableEq, Repr

/-- The outcome of a rule. -/
inductive Reply (α : Type)
  /-- A match: its value, the cursor behind it, and what was missed on the way. -/
  | ok (value : α) (next : Cursor) (miss : Option Miss)
  | fail (miss : Miss)
  | interrupted (cause : Interruption)
  /-- The recursion allowance was used up. -/
  | exhausted
  deriving Repr

/-- The same outcome with something missed before it. -/
def Reply.behind {α : Type} (earlier : Option Miss) : Reply α → Reply α
  | ok value next miss => ok value next (Miss.both earlier miss)
  | fail miss => fail (miss.after earlier)
  | interrupted cause => interrupted cause
  | exhausted => exhausted

/-- A match behind another miss is the same match. -/
theorem Reply.of_behind_ok {α : Type} {r : Reply α} {miss m : Option Miss} {a : α} {next : Cursor}
    (h : r.behind m = .ok a next miss) : ∃ miss', r = .ok a next miss' := by
  cases r with
  | ok b c miss' =>
    obtain ⟨rfl, rfl, -⟩ := Reply.ok.inj h
    exact ⟨miss', rfl⟩
  | fail m => exact absurd h (by simp [Reply.behind])
  | interrupted cause => exact absurd h (by simp [Reply.behind])
  | exhausted => exact absurd h (by simp [Reply.behind])

/-- A grammar rule, or part of one. -/
def Parser (α : Type) : Type := Cursor → Reply α

namespace Parser

variable {α β : Type}

/-! ## 4. Single steps -/

/-- Matches without reading. -/
def succeed (a : α) : Parser α := fun c => .ok a c none

/-- One rule and then another that may depend on what the first one found. -/
def andThen (p : Parser α) (f : α → Parser β) : Parser β := fun c =>
  match p c with
  | .ok a next miss => (f a next).behind miss
  | .fail miss => .fail miss
  | .interrupted cause => .interrupted cause
  | .exhausted => .exhausted

/-- Where two rules in a row match, each of them has matched. -/
theorem of_andThen_ok {p : Parser α} {f : α → Parser β} {c next : Cursor} {b : β}
    {miss : Option Miss} (h : andThen p f c = .ok b next miss) :
    ∃ a mid m m', p c = .ok a mid m ∧ f a mid = .ok b next m' := by
  unfold andThen at h
  cases hp : p c with
  | ok a mid m =>
    rw [hp] at h
    obtain ⟨m', hf⟩ := Reply.of_behind_ok h
    exact ⟨a, mid, m, m', rfl, hf⟩
  | fail m => simp [hp] at h
  | interrupted cause => simp [hp] at h
  | exhausted => simp [hp] at h

instance : Monad Parser where
  pure := succeed
  bind := andThen

/-- Judges what stands at the cursor.  A lexeme that is approved of is read; the end of the text
stays where it is. -/
def look (judge : Option Lexeme → Except (List Expectation) α) : Parser α := fun c =>
  match c.ahead with
  | .fault e => .interrupted (.lexical e)
  | .done p =>
    match judge none with
    | .ok a => .ok a c none
    | .error expected => .fail ⟨c.index, ⟨none, p⟩, expected⟩
  | .token t rest =>
    match judge (some t.lexeme) with
    | .ok a => .ok a ⟨c.index + 1, rest⟩ none
    | .error expected => .fail ⟨c.index, ⟨some t.lexeme, t.pos⟩, expected⟩

/-- Misses without asking for anything. -/
def refuse : Parser α := look fun _ => .error []

/-- Reads one lexeme that `f` makes something of. -/
def lexeme (expected : List Expectation) (f : Lexeme → Option α) : Parser α :=
  look fun
    | some l => (f l).elim (.error expected) .ok
    | none => .error expected

/-- Asks for the end of the text. -/
def endOfText : Parser Unit :=
  look fun
    | some _ => .error [.endOfText]
    | none => .ok ()

/-- The run breaks off where a numeral was too long. -/
def settle : Except LongNumeral α → Parser α
  | .ok a => succeed a
  | .error e => fun _ => .interrupted (.longNumeral e)

/-! ## 5. Choice and repetition -/

/-- The second rule is tried where the first one misses. -/
def orElse (p q : Parser α) : Parser α := fun c =>
  match p c with
  | .fail miss => (q c).behind (some miss)
  | reply => reply

/-- Where one of two rules matches, it is the first one, or the first one has missed. -/
theorem of_orElse_ok {p q : Parser α} {c next : Cursor} {a : α} {miss : Option Miss}
    (h : orElse p q c = .ok a next miss) :
    p c = .ok a next miss ∨ ∃ m m', p c = .fail m ∧ q c = .ok a next m' := by
  unfold orElse at h
  cases hp : p c with
  | ok b mid m =>
    rw [hp] at h
    exact .inl h
  | fail m =>
    rw [hp] at h
    obtain ⟨m', hq⟩ := Reply.of_behind_ok h
    exact .inr ⟨m, m', rfl, hq⟩
  | interrupted cause => simp [hp] at h
  | exhausted => simp [hp] at h

/-- The first of several rules that matches. -/
def firstOf : List (Parser α) → Parser α
  | [] => refuse
  | [p] => p
  | p :: ps => orElse p (firstOf ps)

/-- A rule that may as well not match. -/
def optional (p : Parser α) : Parser (Option α) :=
  orElse (andThen p fun a => succeed (some a)) (succeed none)

/-- The rule as often as it matches, within an allowance. -/
def many : (budget : Nat) → Parser α → Parser (List α)
  | 0, _ => fun _ => .exhausted
  | budget + 1, p =>
    andThen (optional p) fun
      | none => succeed []
      | some a => andThen (many budget p) fun as => succeed (a :: as)

/-- The rule once behind each mark in a row of them, within an allowance.  A mark that was read
must be followed by the rule. -/
def eachAfter (lead : Parser β) (p : Parser α) : (budget : Nat) → Parser (List α)
  | 0 => fun _ => .exhausted
  | budget + 1 =>
    andThen (optional lead) fun
      | none => succeed []
      | some _ =>
        andThen p fun a => andThen (eachAfter lead p budget) fun as => succeed (a :: as)

end Parser
end SchemaLang.Grammar
