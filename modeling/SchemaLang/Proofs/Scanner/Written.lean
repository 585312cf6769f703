/-
# The text of a lexeme

Every well-formed lexeme has a text that the scanner cuts it from (`Lexeme.source`).  A word and an
integer take as much as they can, so what stands behind them matters: it must not go on with them
(`Lexeme.EndsBefore`).  A blank ends every lexeme, so lexemes with blanks between them are found
again as they were (`scanFrom_spaced`).
-/
import SchemaLang.Proofs.Grammar.Following
import SchemaLang.Proofs.Scanner.Shape
import SchemaLang.Proofs.Scanner.Steps
import SchemaLang.Proofs.Text.Runs

namespace SchemaLang

open Text

/-! ## 1. The texts of lexemes -/

/-- The text that a lexeme is cut from, a string with its quotes. -/
def Lexeme.source : Lexeme → String
  | string s => "\"" ++ s ++ "\""
  | l => l.text

/-- What stands behind a lexeme does not go on with it. -/
def Lexeme.EndsBefore (rest : List Char) : Lexeme → Prop
  | keyword _ => ∀ c ∈ rest.head?, isNamePart c = false
  | identifier _ => ∀ c ∈ rest.head?, isNamePart c = false
  | integer _ => ∀ c ∈ rest.head?, c.isDigit = false
  | punct _ => True
  | string _ => True
  | newline => True

/-- What goes on a name is no gap, no line break, no mark and no quote. -/
theorem munch_of_isNamePart {rules : Rules} {c : Char} {cs : List Char} (hc : isNamePart c) :
    munch rules c cs =
      if c.isDigit then
        .lexeme (.integer (String.ofList (c :: cs.takeWhile Char.isDigit)))
          (c :: cs.takeWhile Char.isDigit) (cs.dropWhile Char.isDigit)
      else if isNameStart c then
        .lexeme (Lexeme.ofWord (String.ofList (c :: cs.takeWhile isNamePart)))
          (c :: cs.takeWhile isNamePart) (cs.dropWhile isNamePart)
      else .fault (.unexpectedCharacter c) := by
  have hne : ∀ d, isNamePart d = false → c ≠ d := fun d hd => ne_of_isNamePart hc hd
  have hnoBlank : isBlank c = false := by
    simp [isBlank, hne ' ' (by decide), hne '\t' (by decide)]
  have hnoBreak : isLineBreak c = false := not_isLineBreak_of_isNamePart hc
  have hnoMark : Punct.ofChar? c = none := by
    cases hm : Punct.ofChar? c with
    | none => rfl
    | some m =>
      have hapart : isNamePart m.char = false := by cases m <;> decide
      exact absurd (Punct.char_of_ofChar? hm).symm (hne m.char hapart)
  have hnoSlash : (c == '/') = false := by simpa using hne '/' (by decide)
  have hnoQuote : (c == '"') = false := by simpa using hne '"' (by decide)
  simp only [munch, hnoBlank, hnoBreak, hnoMark, hnoSlash, hnoQuote, Bool.false_and,
    Bool.false_eq_true, if_false]

/-! ## 2. A lexeme is cut from its text -/

/-- What is at the front of a text when it is cut into the lexeme and what is behind it. -/
def Cut (rules : Rules) (l : Lexeme) (rest : List Char) : Prop :=
  ∃ c cs, l.source.toList ++ rest = c :: cs ∧ munch rules c cs = .lexeme l l.source.toList rest

theorem munch_word {rules : Rules} {s : String} {rest : List Char} (hs : isName s.toList)
    (hrest : ∀ c ∈ rest.head?, isNamePart c = false) :
    ∃ c cs, s.toList ++ rest = c :: cs ∧
      munch rules c cs = .lexeme (.ofWord s) s.toList rest := by
  cases hcs : s.toList with
  | nil => exact absurd hs (by simp [hcs, isName])
  | cons c cs =>
    rw [hcs] at hs
    simp only [isName, Bool.and_eq_true, List.all_eq_true] at hs
    obtain ⟨htake, hdrop⟩ := takeWhile_run hs.2 hrest
    refine ⟨c, cs ++ rest, rfl, ?_⟩
    rw [munch_of_isNamePart (isNamePart_of_isNameStart hs.1),
      if_neg (by simp [not_isDigit_of_isNameStart hs.1]), if_pos hs.1, htake, hdrop, ← hcs,
      String.ofList_toList]

theorem munch_integer {rules : Rules} {ds : String} {rest : List Char} (hne : ds.toList ≠ [])
    (hds : ∀ c ∈ ds.toList, c.isDigit) (hrest : ∀ c ∈ rest.head?, c.isDigit = false) :
    Cut rules (.integer ds) rest := by
  cases hcs : ds.toList with
  | nil => exact absurd hcs hne
  | cons c cs =>
    rw [hcs] at hds
    have hsource : (Lexeme.integer ds).source.toList = c :: cs := hcs
    have hc := hds c List.mem_cons_self
    obtain ⟨htake, hdrop⟩ := takeWhile_run (fun d hd => hds d (List.mem_cons_of_mem _ hd)) hrest
    refine ⟨c, cs ++ rest, by rw [hsource, List.cons_append], ?_⟩
    rw [munch_of_isNamePart (isNamePart_of_isDigit hc), if_pos hc, htake, hdrop, hsource, ← hcs,
      String.ofList_toList]

theorem munch_string {rules : Rules} {s : String} {rest : List Char}
    (hs : ∀ c ∈ s.toList, isStringPart c) : Cut rules (.string s) rest := by
  have hsource : (Lexeme.string s).source.toList = '"' :: s.toList ++ ['"'] := by
    simp [Lexeme.source]
  have hquote : ∀ c ∈ ('"' :: rest).head?, isStringPart c = false := by
    intro c hc
    obtain rfl := Option.some.inj hc
    decide
  obtain ⟨htake, hdrop⟩ := takeWhile_run hs hquote
  refine ⟨'"', s.toList ++ '"' :: rest, by rw [hsource]; simp, ?_⟩
  show munchString _ = _
  simp only [munchString, htake, hdrop, hsource, String.ofList_toList]

/-- **A well-formed lexeme is cut from its text**, where nothing behind it goes on with it. -/
theorem Lexeme.WellFormed.cut {rules : Rules} {l : Lexeme} {rest : List Char} (hl : l.WellFormed)
    (hrest : l.EndsBefore rest) : Cut rules l rest := by
  cases l with
  | keyword k =>
    have hword := @munch_word rules k.text rest k.isName_text hrest
    rwa [ofWord_text] at hword
  | identifier name =>
    have hword := @munch_word rules name rest hl.1 hrest
    rwa [ofWord, hl.2] at hword
  | integer ds => exact munch_integer hl.1 hl.2 hrest
  | string s => exact munch_string hl
  | punct p =>
    have hsource : (punct p).source.toList = [p.char] := String.toList_singleton p.char
    refine ⟨p.char, rest, by rw [hsource]; rfl, ?_⟩
    rw [hsource]
    cases p <;> rfl
  | newline => exact ⟨'\n', rest, rfl, rfl⟩

/-- The scanner takes a lexeme off its text and goes on behind it. -/
theorem scanFrom_source {rules : Rules} {l : Lexeme} {rest : List Char} (hl : l.WellFormed)
    (hrest : l.EndsBefore rest) (pos : Position) :
    scanFrom rules pos (l.source.toList ++ rest) =
      .token ⟨l, pos⟩ (scanFrom rules (pos.past l.source.toList) rest) := by
  obtain ⟨c, cs, htext, hmunch⟩ : Cut rules l rest := hl.cut hrest
  rw [htext, scanFrom_lexeme hmunch]

/-! ## 3. Lexemes with blanks between them -/

/-- The lexemes as a text, with a blank between any two. -/
def spaced (ls : List Lexeme) : String := " ".intercalate (ls.map Lexeme.source)

theorem spaced_cons_cons (l m : Lexeme) (ls : List Lexeme) :
    (spaced (l :: m :: ls)).toList = l.source.toList ++ ' ' :: (spaced (m :: ls)).toList := by
  simp only [spaced, String.toList_intercalate, List.map_cons, List.intercalate_cons_cons]
  simp

/-- A text starts with no character that a name goes on with. -/
def StartsApart (cs : List Char) : Prop := ∀ c ∈ cs.head?, isNamePart c = false

theorem StartsApart.endsBefore {cs : List Char} (h : StartsApart cs) (l : Lexeme) :
    l.EndsBefore cs := by
  cases l with
  | keyword k => exact h
  | identifier name => exact h
  | integer ds =>
    intro c hc
    have hpart := h c hc
    simp only [isNamePart, Bool.or_eq_false_iff] at hpart
    exact hpart.2
  | punct p => trivial
  | string s => trivial
  | newline => trivial

theorem startsApart_blank (rest : List Char) : StartsApart (' ' :: rest) := by
  intro c hc
  obtain rfl := Option.some.inj hc
  decide

/-- **Lexemes with blanks between them are found again**, and then the scanner goes on behind
them. -/
theorem scanFrom_spaced {rules : Rules} {ls : List Lexeme} {rest : List Char}
    (hls : ∀ l ∈ ls, l.WellFormed) (hrest : StartsApart rest) (pos : Position) :
    ∃ pos', (scanFrom rules pos ((spaced ls).toList ++ rest)).lexemes =
        ls ++ (scanFrom rules pos' rest).lexemes ∧
      (scanFrom rules pos ((spaced ls).toList ++ rest)).error? =
        (scanFrom rules pos' rest).error? := by
  induction ls generalizing pos with
  | nil => exact ⟨pos, rfl, rfl⟩
  | cons l ls ih =>
    have hl := hls l List.mem_cons_self
    cases ls with
    | nil =>
      have hspaced : (spaced [l]).toList = l.source.toList := by simp [spaced]
      rw [hspaced, scanFrom_source hl (hrest.endsBefore l)]
      exact ⟨_, rfl, rfl⟩
    | cons m ls =>
      have hends := (startsApart_blank ((spaced (m :: ls)).toList ++ rest)).endsBefore l
      have hgap : munch rules ' ' ((spaced (m :: ls)).toList ++ rest) =
          .gap [' '] ((spaced (m :: ls)).toList ++ rest) := rfl
      obtain ⟨pos', hlexemes, herror⟩ := ih (fun k hk => hls k (List.mem_cons_of_mem _ hk))
        ((pos.past l.source.toList).past [' '])
      rw [spaced_cons_cons, List.append_assoc, List.cons_append, scanFrom_source hl hends,
        scanFrom_gap hgap]
      exact ⟨pos', congrArg (l :: ·) hlexemes, herror⟩

end SchemaLang
