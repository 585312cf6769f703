/-
# Lexemes without blanks between them

A blank between any two lexemes is more than the scanner needs.  Two lexemes run together only
where the second one starts with a character that the first one goes on with: a word goes on with a
word and with digits, and digits go on with digits (`Lexeme.fuses`).  Digits do not go on with a
word, and strings, marks and line breaks end by themselves, whatever is behind them.

A pair that does not run together is cut where it touches (`Lexeme.WellFormed.endsBefore`).  So a
blank where two of them would run together is enough for all the lexemes to be found again
(`scan_packed`).
-/
import SchemaLang.Proofs.Scanner.Segments

namespace SchemaLang

open Text

/-! ## 1. Lexemes that run together -/

namespace Lexeme

/-- A keyword or an identifier. -/
def isWord : Lexeme → Bool
  | keyword _ => true
  | identifier _ => true
  | _ => false

def isInteger : Lexeme → Bool
  | integer _ => true
  | _ => false

/-- The first lexeme goes on with what the second one starts with. -/
def fuses (l m : Lexeme) : Bool :=
  (l.isWord && (m.isWord || m.isInteger)) || (l.isInteger && m.isInteger)

end Lexeme

/-- The lexemes as a text, with a blank only between two that would run together. -/
def packed : List Lexeme → String
  | [] => ""
  | [l] => l.source
  | l :: m :: ls => l.source ++ (if l.fuses m then " " else "") ++ packed (m :: ls)

/-- The text starts with that of the first lexeme. -/
theorem exists_packed_cons (l : Lexeme) (ls : List Lexeme) :
    ∃ more, (packed (l :: ls)).toList = l.source.toList ++ more := by
  cases ls with
  | nil => exact ⟨[], (List.append_nil _).symm⟩
  | cons m ls => exact ⟨_, by rw [packed, String.append_assoc, String.toList_append]⟩

/-! ## 2. A lexeme ends where the next one starts -/

namespace Lexeme

variable {l m : Lexeme}

/-- A mark, a string or a line break starts with no part of a name. -/
theorem startsApart_source (hword : m.isWord = false) (hinteger : m.isInteger = false)
    (more : List Char) : StartsApart (m.source.toList ++ more) := by
  intro c hc
  cases m with
  | keyword k => exact absurd hword (by simp [isWord])
  | identifier name => exact absurd hword (by simp [isWord])
  | integer digits => exact absurd hinteger (by simp [isInteger])
  | string text =>
    obtain rfl : '"' = c := by simpa [source] using hc
    decide
  | punct p =>
    obtain rfl : p.char = c := by simpa [source, text] using hc
    cases p <;> decide
  | newline =>
    obtain rfl : '\n' = c := by simpa [source, text] using hc
    decide

theorem WellFormed.isName_source (hm : m.WellFormed) (hword : m.isWord) :
    isName m.source.toList := by
  cases m with
  | keyword k => exact k.isName_text
  | identifier name => exact hm.1
  | integer digits => exact absurd hword (by simp [isWord])
  | string text => exact absurd hword (by simp [isWord])
  | punct p => exact absurd hword (by simp [isWord])
  | newline => exact absurd hword (by simp [isWord])

/-- Only an integer starts with a digit. -/
theorem WellFormed.not_isDigit_source (hm : m.WellFormed) (hinteger : m.isInteger = false)
    (more : List Char) : ∀ c ∈ (m.source.toList ++ more).head?, c.isDigit = false := by
  intro c hc
  cases hword : m.isWord with
  | false => exact (startsApart_source hword hinteger more).endsBefore (.integer "") c hc
  | true =>
    have hname := hm.isName_source hword
    cases hsource : m.source.toList with
    | nil => exact absurd hname (by simp [hsource, isName])
    | cons d ds =>
      rw [hsource] at hname hc
      obtain rfl : d = c := by simpa using hc
      exact not_isDigit_of_isNameStart (Bool.and_eq_true_iff.mp hname).1

theorem apart_of_not_fuses (h : l.fuses m = false) (hl : l.isWord) :
    m.isWord = false ∧ m.isInteger = false := by
  simp only [fuses, hl, Bool.true_and, Bool.or_eq_false_iff] at h
  exact h.1

/-- **A lexeme ends where the next one starts**, unless the two run together. -/
theorem WellFormed.endsBefore (hm : m.WellFormed) (h : l.fuses m = false) (more : List Char) :
    l.EndsBefore (m.source.toList ++ more) := by
  cases l with
  | keyword k =>
    obtain ⟨hword, hinteger⟩ := apart_of_not_fuses h rfl
    exact startsApart_source hword hinteger more
  | identifier name =>
    obtain ⟨hword, hinteger⟩ := apart_of_not_fuses h rfl
    exact startsApart_source hword hinteger more
  | integer digits =>
    -- a word behind digits is cut off: no digit starts a name
    have hinteger : m.isInteger = false := by simpa [fuses, isWord, isInteger] using h
    exact hm.not_isDigit_source hinteger more
  | punct p => trivial
  | string text => trivial
  | newline => trivial

end Lexeme

/-! ## 3. Lexemes are found again -/

theorem scanFrom_packed {rules : Rules} {ls : List Lexeme} (hls : ∀ l ∈ ls, l.WellFormed)
    (pos : Position) :
    ∃ ts stop, scanFrom rules pos (packed ls).toList = .ofTokens ts stop ∧
      ts.map Token.lexeme = ls := by
  induction ls generalizing pos with
  | nil => exact ⟨[], pos, scanFrom_nil, rfl⟩
  | cons l ls ih =>
    obtain ⟨hl, hls⟩ := List.forall_mem_cons.mp hls
    cases ls with
    | nil =>
      have hend : StartsApart [] := fun c hc => absurd hc (by simp)
      refine ⟨[⟨l, pos⟩], pos.past l.source.toList, ?_, rfl⟩
      rw [packed, ← List.append_nil l.source.toList, scanFrom_source hl (hend.endsBefore l),
        scanFrom_nil, List.append_nil]
      rfl
    | cons m ls =>
      cases hfuses : l.fuses m with
      | true =>
        have hends := (startsApart_blank (packed (m :: ls)).toList).endsBefore l
        have hgap : munch rules ' ' (packed (m :: ls)).toList =
            .gap [' '] (packed (m :: ls)).toList := rfl
        have hpacked : (packed (l :: m :: ls)).toList =
            l.source.toList ++ ' ' :: (packed (m :: ls)).toList := by
          simp [packed, hfuses]
        obtain ⟨ts, stop, hscan, hlexemes⟩ := ih hls ((pos.past l.source.toList).past [' '])
        refine ⟨⟨l, pos⟩ :: ts, stop, ?_, by rw [List.map_cons, hlexemes]⟩
        rw [hpacked, scanFrom_source hl hends, scanFrom_gap hgap, hscan]
        rfl
      | false =>
        obtain ⟨more, hmore⟩ := exists_packed_cons m ls
        have hends : l.EndsBefore (packed (m :: ls)).toList := by
          rw [hmore]
          exact (hls m List.mem_cons_self).endsBefore hfuses more
        have hpacked : (packed (l :: m :: ls)).toList =
            l.source.toList ++ (packed (m :: ls)).toList := by
          simp [packed, hfuses]
        obtain ⟨ts, stop, hscan, hlexemes⟩ := ih hls (pos.past l.source.toList)
        refine ⟨⟨l, pos⟩ :: ts, stop, ?_, by rw [List.map_cons, hlexemes]⟩
        rw [hpacked, scanFrom_source hl hends, hscan]
        rfl

/-- **Lexemes are found again from a text with hardly any blanks.**  Written one behind the other,
with a blank only between two that would run together, well-formed lexemes are the tokens of the
text, and the end is behind them. -/
theorem scan_packed (d : Dialect) {ls : List Lexeme} (hls : ∀ l ∈ ls, l.WellFormed) :
    ∃ shown, (scan d.rules (packed ls)).sightings = .ok shown ∧
      shown.map Sighting.lexeme = ls.map some ++ [none] := by
  obtain ⟨ts, stop, hscan, hlexemes⟩ := @scanFrom_packed d.rules _ hls .start
  refine ⟨_, by rw [scan, hscan, TokenStream.sightings_ofTokens], ?_⟩
  rw [← hlexemes]
  simp

/-- Digits before a word, a string of slashes before an empty one, a keyword before a name. -/
theorem scan_packed_mixed :
    let ls : List Lexeme := [.integer "2", .identifier "field", .integer "7", .integer "08",
      .string "//", .string "", .keyword .kwMap, .identifier "maps", .punct .lbrace, .newline]
    (∀ l ∈ ls, l.WellFormed) ∧ packed ls = "2field 7 08\"//\"\"\"map maps\x7b\n" ∧
      ∃ shown, (scan Dialect.legacy.rules (packed ls)).sightings = .ok shown ∧
        shown.map Sighting.lexeme = ls.map some ++ [none] := by
  have hls : ∀ l ∈ ([.integer "2", .identifier "field", .integer "7", .integer "08",
      .string "//", .string "", .keyword .kwMap, .identifier "maps", .punct .lbrace,
      .newline] : List Lexeme), l.WellFormed := by decide
  exact ⟨hls, by decide, scan_packed .legacy hls⟩

end SchemaLang
