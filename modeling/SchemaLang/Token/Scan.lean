/-
# Cutting a text into tokens

The scanner takes one piece at a time off the front of the text (`munch`).  A piece is a gap,
which means nothing, or a lexeme; where neither can be taken the text is at fault.  Each piece is
as long as it can be: a word ends before the first character that cannot continue it, a run of
digits before the first that is no digit.

A comment runs from two slashes to the end of its line.  The legacy dialect counts the line break
as part of it, and lets the end of the text stand in for the break.  The strict dialect leaves
the break where it is, as a lexeme, and finds fault with a comment that has none.

Every piece is non-empty and is what stood at the front (`munch_text`), so the rest is shorter
and the scanner ends (`scanFrom`).
-/
import SchemaLang.Dialect
import SchemaLang.Token

namespace SchemaLang

open Text

/-! ## 1. One piece -/

/-- The outcome of taking one piece off the front of a text. -/
inductive Munch
  /-- A blank or a comment. -/
  | gap (text rest : List Char)
  | lexeme (l : Lexeme) (text rest : List Char)
  | fault (cause : LexicalCause)
  deriving DecidableEq, Repr

/-- A line break at the front of a text, and what is behind it; a carriage return takes the line
feed behind it along. -/
def splitLineBreak : List Char → List Char × List Char
  | '\r' :: '\n' :: rest => (['\r', '\n'], rest)
  | c :: rest => ([c], rest)
  | [] => ([], [])

/-- The comment whose first slash is at the front, the second slash given with what follows. -/
def munchComment (rules : Rules) (cs : List Char) : Munch :=
  let body := cs.takeWhile (!isLineBreak ·)
  match cs.dropWhile (!isLineBreak ·) with
  | [] => if rules.commentTakesLineBreak then .gap ('/' :: body) [] else .fault .unterminatedComment
  | rest =>
    if rules.commentTakesLineBreak then
      .gap ('/' :: body ++ (splitLineBreak rest).1) (splitLineBreak rest).2
    else .gap ('/' :: body) rest

/-- A character that may stand between the quotes of a string. -/
def isStringPart (c : Char) : Bool := c != '"' && !isLineBreak c

/-- The string whose opening quote was just taken. -/
def munchString (cs : List Char) : Munch :=
  let body := cs.takeWhile isStringPart
  match cs.dropWhile isStringPart with
  | '"' :: rest => .lexeme (.string (String.ofList body)) ('"' :: body ++ ['"']) rest
  | _ => .fault .unterminatedString

/-- The piece at the front of a text that starts with `c`. -/
def munch (rules : Rules) (c : Char) (cs : List Char) : Munch :=
  if isBlank c then .gap [c] cs
  else if c == '/' && cs.head? == some '/' then munchComment rules cs
  else if isLineBreak c then
    .lexeme .newline (splitLineBreak (c :: cs)).1 (splitLineBreak (c :: cs)).2
  else match Punct.ofChar? c with
  | some p => .lexeme (.punct p) [c] cs
  | none =>
    if c == '"' then munchString cs
    else if c.isDigit then
      let run := c :: cs.takeWhile Char.isDigit
      .lexeme (.integer (String.ofList run)) run (cs.dropWhile Char.isDigit)
    else if isNameStart c then
      let run := c :: cs.takeWhile isNamePart
      .lexeme (Lexeme.ofWord (String.ofList run)) run (cs.dropWhile isNamePart)
    else .fault (.unexpectedCharacter c)

/-! ## 2. A piece is what stood at the front -/

/-- The text of a piece and what is behind it; a fault takes nothing. -/
def Munch.cut? : Munch → Option (List Char × List Char)
  | gap text rest => some (text, rest)
  | lexeme _ text rest => some (text, rest)
  | fault _ => none

theorem splitLineBreak_text (cs : List Char) :
    (splitLineBreak cs).1 ++ (splitLineBreak cs).2 = cs := by
  fun_cases splitLineBreak cs <;> rfl

theorem splitLineBreak_ne_nil (c : Char) (cs : List Char) : (splitLineBreak (c :: cs)).1 ≠ [] := by
  unfold splitLineBreak
  split
  · simp
  · simp
  · simp_all

theorem munchComment_text {rules : Rules} {cs text rest : List Char}
    (h : (munchComment rules cs).cut? = some (text, rest)) :
    text ++ rest = '/' :: cs ∧ text ≠ [] := by
  have hcs := List.takeWhile_append_dropWhile (p := (!isLineBreak ·)) (l := cs)
  unfold munchComment at h
  split at h
  · next hd =>
    rw [hd] at hcs
    split at h
    · obtain ⟨rfl, rfl⟩ : _ ∧ _ := by simpa [Munch.cut?] using h
      simpa using hcs
    · simp [Munch.cut?] at h
  · split at h
    · obtain ⟨rfl, rfl⟩ : _ ∧ _ := by simpa [Munch.cut?] using h
      simp [splitLineBreak_text, hcs]
    · obtain ⟨rfl, rfl⟩ : _ ∧ _ := by simpa [Munch.cut?] using h
      simp [hcs]

theorem munchString_text {cs text rest : List Char}
    (h : (munchString cs).cut? = some (text, rest)) :
    text ++ rest = '"' :: cs ∧ text ≠ [] := by
  have hcs := List.takeWhile_append_dropWhile (p := isStringPart) (l := cs)
  unfold munchString at h
  split at h
  · next hd =>
    obtain ⟨rfl, rfl⟩ : _ ∧ _ := by simpa [Munch.cut?] using h
    rw [hd] at hcs
    simp [hcs]
  · simp [Munch.cut?] at h

/-- Nothing is lost between a piece and what is behind it, and no piece is empty. -/
theorem munch_text {rules : Rules} {c : Char} {cs text rest : List Char}
    (h : (munch rules c cs).cut? = some (text, rest)) : text ++ rest = c :: cs ∧ text ≠ [] := by
  unfold munch at h
  split at h
  · obtain ⟨rfl, rfl⟩ : _ ∧ _ := by simpa [Munch.cut?] using h
    simp
  split at h
  · next hc =>
    have : c = '/' := by simp_all
    subst this
    exact munchComment_text h
  split at h
  · obtain ⟨rfl, rfl⟩ := Prod.mk.inj (Option.some.inj h)
    exact ⟨splitLineBreak_text _, splitLineBreak_ne_nil _ _⟩
  split at h
  · obtain ⟨rfl, rfl⟩ : _ ∧ _ := by simpa [Munch.cut?] using h
    simp
  split at h
  · next hc =>
    have : c = '"' := by simpa using hc
    subst this
    exact munchString_text h
  split at h
  · obtain ⟨rfl, rfl⟩ : _ ∧ _ := by simpa [Munch.cut?] using h
    simp
  split at h
  · obtain ⟨rfl, rfl⟩ : _ ∧ _ := by simpa [Munch.cut?] using h
    simp
  · simp [Munch.cut?] at h

/-- What is behind a piece is shorter than the text. -/
theorem length_rest_lt {rules : Rules} {c : Char} {cs text rest : List Char}
    (h : (munch rules c cs).cut? = some (text, rest)) : rest.length < (c :: cs).length := by
  obtain ⟨htext, hne⟩ := munch_text h
  have hpos := List.length_pos_iff.mpr hne
  rw [← htext, List.length_append]
  omega

/-! ## 3. The whole text -/

/-- The tokens of a text that starts at a given place. -/
def scanFrom (rules : Rules) (pos : Position) : List Char → TokenStream
  | [] => .done pos
  | c :: cs =>
    match _h : munch rules c cs with
    | .gap text rest => scanFrom rules (pos.past text) rest
    | .lexeme l text rest => .token ⟨l, pos⟩ (scanFrom rules (pos.past text) rest)
    | .fault cause => .fault ⟨cause, pos⟩
termination_by source => source.length
decreasing_by
  · exact length_rest_lt (by rw [_h]; rfl)
  · exact length_rest_lt (by rw [_h]; rfl)

/-- The tokens of a schema text. -/
def scan (rules : Rules) (source : String) : TokenStream :=
  scanFrom rules Position.start source.toList

end SchemaLang
