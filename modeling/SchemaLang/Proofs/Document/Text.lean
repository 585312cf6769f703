/-
# The documents that texts mean

What is read from a text of a dialect is a conforming document of that dialect, and every
conforming document is read from a text.  The text is the document written down with a blank
between any two lexemes (`Document.text`).

The strict dialect reads no text that is empty, so the document that says nothing is not read from
its own text there.  With a line break behind it, it is.
-/
import SchemaLang.Proofs.Document.Tree
import SchemaLang.Proofs.Grammar.Derivation
import SchemaLang.Proofs.Scanner.Written

namespace SchemaLang

open Text Grammar

/-! ## 1. Texts of lexemes -/

variable {d : Dialect} {ls : List Lexeme}

/-- Lexemes with blanks between them are all that their text holds. -/
theorem scan_spaced (rules : Rules) (hls : ∀ l ∈ ls, l.WellFormed) :
    (scan rules (spaced ls)).lexemes = ls ∧ (scan rules (spaced ls)).error? = none := by
  have hend : StartsApart [] := fun _ h => absurd h (by simp)
  obtain ⟨pos, hlexemes, herror⟩ := @scanFrom_spaced rules _ _ hls hend Position.start
  rw [List.append_nil, scanFrom_nil] at hlexemes herror
  exact ⟨hlexemes.trans (List.append_nil ls), herror⟩

theorem scan_spaced_newline (rules : Rules) (hls : ∀ l ∈ ls, l.WellFormed) :
    (scan rules (spaced ls ++ "\n")).lexemes = ls ++ [Lexeme.newline] ∧
      (scan rules (spaced ls ++ "\n")).error? = none := by
  have hbreak : StartsApart ['\n'] := by
    intro c hc
    obtain rfl := Option.some.inj hc
    decide
  have htext : (spaced ls ++ "\n").toList = (spaced ls).toList ++ ['\n'] := String.toList_append
  obtain ⟨pos, hlexemes, herror⟩ := @scanFrom_spaced rules _ _ hls hbreak Position.start
  have hend : munch rules '\n' [] = .lexeme .newline ['\n'] [] := rfl
  rw [scanFrom_lexeme hend, scanFrom_nil] at hlexemes herror
  rw [scan, htext]
  exact ⟨hlexemes, herror⟩

/-! ## 2. Texts of trees -/

/-- A text without faults that a tree derives is read. -/
theorem parse_of_derives {source : String} {t : DocumentTree}
    (hend : (scan d.rules source).error? = none)
    (ht : t.Derives d (scan d.rules source).lexemes) :
    Document.parse d source = .ok t.preferred.document :=
  ofTokens_complete (wellFormed_scan d.rules source) hend ht

/-- The leaves of a tree of the dialect are read with blanks between them. -/
theorem parse_spaced {t : DocumentTree} (ht : t.Allowed d.rules) :
    Document.parse d (spaced t.lexemes) = .ok t.preferred.document := by
  obtain ⟨hlexemes, hend⟩ := scan_spaced d.rules fun l hl => (t.readable l hl).wellFormed
  exact parse_of_derives hend ⟨ht, hlexemes.symm⟩

/-- A tree with a line break behind it. -/
def Grammar.DocumentTree.broken (t : DocumentTree) : DocumentTree := ⟨t.lines ++ [.newline]⟩

theorem Grammar.DocumentTree.lexemes_broken (t : DocumentTree) :
    t.broken.lexemes = t.lexemes ++ [Lexeme.newline] := by
  simp [broken, lexemes, DocumentLine.lexemes]

/-- With a line break behind it a tree is never empty. -/
theorem Grammar.DocumentTree.allowed_broken {rules : Rules} {t : DocumentTree}
    (h : ∀ l ∈ t.lines, l.Allowed rules) : t.broken.Allowed rules where
  lines := by
    intro l hl
    rcases List.mem_append.mp hl with hl | hl
    · exact h l hl
    · obtain rfl := List.mem_singleton.mp hl
      trivial
  nonempty := fun _ => by simp [broken]

/-- A line break says nothing. -/
theorem Grammar.DocumentTree.document_broken (t : DocumentTree) :
    t.broken.preferred.document = t.preferred.document := by
  simp [broken, preferred, document, DocumentLine.preferred, DocumentLine.statement?]

/-- With a line break behind them the leaves are read also where there are none. -/
theorem parse_spaced_newline {t : DocumentTree} (ht : ∀ l ∈ t.lines, l.Allowed d.rules) :
    Document.parse d (spaced t.lexemes ++ "\n") = .ok t.preferred.document := by
  obtain ⟨hlexemes, hend⟩ :=
    scan_spaced_newline d.rules fun l hl => (t.readable l hl).wellFormed
  have hderives := parse_of_derives hend
    ⟨DocumentTree.allowed_broken ht, t.lexemes_broken.trans hlexemes.symm⟩
  rwa [t.document_broken] at hderives

/-! ## 3. Texts of documents -/

/-- What a document says, with a blank between any two lexemes. -/
def Document.text (doc : Document) : String := spaced doc.lexemes

/-- What is read from a text conforms. -/
theorem conforming_of_parse {source : String} {doc : Document}
    (h : Document.parse d source = .ok doc) : doc.Conforming d := by
  obtain ⟨-, t, ht, hpreferred, rfl⟩ := ofTokens_sound (wellFormed_scan d.rules source) h
  exact conforming_document ht.allowed hpreferred

/-- A conforming document is read from its text with a line break behind it. -/
theorem parse_text_newline {doc : Document} (h : doc.Conforming d) :
    Document.parse d (doc.text ++ "\n") = .ok doc := by
  obtain ⟨t, hallowed, hpreferred, rfl, hlexemes, -⟩ := exists_tree_of_conforming h
  have hparse := parse_spaced_newline hallowed
  rwa [hlexemes, hpreferred] at hparse

/-- A conforming document that says something is read from its text, and in the legacy dialect
also the one that says nothing. -/
theorem parse_text {doc : Document} (h : doc.Conforming d)
    (hnonempty : doc.statements ≠ [] ∨ d = .legacy) : Document.parse d doc.text = .ok doc := by
  obtain ⟨t, hallowed, hpreferred, rfl, hlexemes, hlines⟩ := exists_tree_of_conforming h
  have htree : t.Allowed d.rules := {
    lines := hallowed
    nonempty := by
      rcases hnonempty with hne | rfl
      · exact fun _ => hlines hne
      · exact fun hempty => absurd hempty (by decide) }
  have hparse := parse_spaced htree
  rwa [hlexemes, hpreferred] at hparse

/-- **The documents that texts of a dialect mean are the conforming ones.**  A text for one is what
the document says, with blanks between the lexemes.  A line break at its end may be left out, but
where the document says nothing and is strict. -/
theorem exists_parse_iff_conforming (d : Dialect) (doc : Document) :
    ((∃ source, Document.parse d source = .ok doc) ↔ doc.Conforming d) ∧
      (doc.Conforming d → Document.parse d (doc.text ++ "\n") = .ok doc ∧
        (doc.statements ≠ [] ∨ d = .legacy → Document.parse d doc.text = .ok doc)) := by
  refine ⟨⟨?_, fun h => ⟨_, parse_text_newline h⟩⟩, fun h => ⟨parse_text_newline h, parse_text h⟩⟩
  rintro ⟨source, h⟩
  exact conforming_of_parse h

/-- A document with a path for a type inside a map. -/
def mapDocument : Document :=
  ⟨[.message ⟨"M", [.field ⟨none, .map (.primitive .string) (.named "a.b"), "m", 7, []⟩]⟩]⟩

/-- It is read from its text. -/
theorem parse_text_mapDocument :
    mapDocument.Conforming .strict ∧
      Document.parse .strict "message M { map < string , a . b > m = 7 ; }" = .ok mapDocument := by
  have hfield : Field.Conforming .strict
      ⟨none, .map (.primitive .string) (.named "a.b"), "m", 7, []⟩ := {
    type := ⟨trivial, by decide, by decide⟩
    name := by decide
    tag := ⟨by decide, by decide⟩
    options := by simp
    unmodified := fun _ path hpath => absurd hpath (by simp)
    noOption := fun _ hoption => absurd hoption (by simp)
    strict := fun _ => rfl }
  have hconforming : mapDocument.Conforming .strict := by
    intro s hs
    obtain rfl := List.mem_singleton.mp hs
    show (MessageItem.message _ _).Conforming _
    rw [MessageItem.Conforming]
    refine ⟨by decide, ?_⟩
    rw [MessageItem.AllConforming, MessageItem.Conforming]
    exact ⟨hfield, trivial⟩
  have htext : mapDocument.text = "message M { map < string , a . b > m = 7 ; }" := by decide
  have hnonempty : mapDocument.statements ≠ [] := by simp [mapDocument]
  rw [← htext]
  exact ⟨hconforming,
    ((exists_parse_iff_conforming .strict mapDocument).2 hconforming).2 (.inl hnonempty)⟩

end SchemaLang
