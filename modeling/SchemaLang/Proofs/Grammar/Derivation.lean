/-
# The grammar reads exactly what it derives

`Document.ofTokens` reads a stream of tokens with ordered choice and greedy repetition.  A syntax
tree derives it with unordered choice and any number of rounds.  The two agree: a stream is read
if and only if some tree of the dialect derives it, and what is read is what the tree says.

One direction is `document_sound`.  The other one follows from exactness: a rule that misses says
of the whole text that it is none of the language, so a text that has a tree is not missed.  The
value needs no argument of its own, since the tree that soundness finds is the given one, up to the
one choice that the grammar leaves open.
-/
import SchemaLang.Document.Parse
import SchemaLang.Proofs.Grammar.Leaves
import SchemaLang.Proofs.Grammar.Sound

namespace SchemaLang

open Text Grammar

/-! ## 1. Replies and results -/

namespace Grammar

/-- What a whole text comes to, where the allowance was not used up. -/
def Reply.outcome? : Reply Document → Option (Except ParseError Document)
  | ok doc _ _ => some (.ok doc)
  | fail miss => some (.error (.noMatch (.ofMiss miss)))
  | interrupted (.lexical e) => some (.error (.lexical e))
  | interrupted (.longNumeral e) => some (.error (.longNumeral e))
  | exhausted => none

theorem outcome?_document (rules : Rules) (s : TokenStream) :
    (document rules (s.size + 1) (.front s)).outcome? = some (Document.ofTokens rules s) := by
  unfold Document.ofTokens
  split
  · next h => rw [h]; rfl
  · next h => rw [h]; rfl
  · next h => rw [h]; rfl
  · next h => rw [h]; rfl
  · next h => exact absurd h (document_ne_exhausted rules s)

end Grammar

namespace Document

variable {rules : Rules} {s : TokenStream}

theorem ofTokens_eq_iff {result : Except ParseError Document} : ofTokens rules s = result ↔
    (Grammar.document rules (s.size + 1) (.front s)).outcome? = some result := by
  rw [outcome?_document, Option.some_inj]

theorem ofTokens_eq_ok_iff {doc : Document} : ofTokens rules s = .ok doc ↔
    ∃ next miss, Grammar.document rules (s.size + 1) (.front s) = .ok doc next miss := by
  rw [ofTokens_eq_iff]
  generalize Grammar.document rules (s.size + 1) (.front s) = r
  fun_cases Reply.outcome? r <;> simp

theorem ofTokens_eq_noMatch_iff {e : SyntaxError} : ofTokens rules s = .error (.noMatch e) ↔
    ∃ miss, Grammar.document rules (s.size + 1) (.front s) = .fail miss ∧
      .ofMiss miss = e := by
  rw [ofTokens_eq_iff]
  generalize Grammar.document rules (s.size + 1) (.front s) = r
  fun_cases Reply.outcome? r <;> simp

theorem ofTokens_eq_lexical_iff {e : LexicalError} : ofTokens rules s = .error (.lexical e) ↔
    Grammar.document rules (s.size + 1) (.front s) = .interrupted (.lexical e) := by
  rw [ofTokens_eq_iff]
  generalize Grammar.document rules (s.size + 1) (.front s) = r
  fun_cases Reply.outcome? r <;> simp

theorem ofTokens_eq_longNumeral_iff {e : LongNumeral} : ofTokens rules s = .error (.longNumeral e) ↔
    Grammar.document rules (s.size + 1) (.front s) = .interrupted (.longNumeral e) := by
  rw [ofTokens_eq_iff]
  generalize Grammar.document rules (s.size + 1) (.front s) = r
  fun_cases Reply.outcome? r <;> simp

end Document

namespace Grammar

/-! ## 2. The preferred tree derives the same text -/

namespace MessageLine

mutual

theorem lexemes_preferred (l : MessageLine) : l.preferred.lexemes = l.lexemes := by
  cases l with
  | newline => rw [preferred]
  | setting o => rw [preferred]
  | message name body => rw [preferred, lexemes, lexemes, allLexemes_allPreferred body]
  | enumeration e => rw [preferred]
  | field f =>
    rw [preferred]
    cases h : f.asSetting? with
    | none => rfl
    | some o =>
      simp only [Option.elim_some, lexemes]
      exact FieldTree.statement_of_asSetting? h

theorem allLexemes_allPreferred (ls : List MessageLine) :
    allLexemes (allPreferred ls) = allLexemes ls := by
  cases ls with
  | nil => rfl
  | cons l ls =>
    rw [allPreferred, allLexemes, allLexemes, lexemes_preferred l, allLexemes_allPreferred ls]

end

mutual

theorem Allowed.preferred {rules : Rules} (l : MessageLine) (h : l.Allowed rules) :
    l.preferred.Allowed rules := by
  cases l with
  | newline => rwa [MessageLine.preferred]
  | setting o => rwa [MessageLine.preferred]
  | message name body =>
    rw [MessageLine.preferred, Allowed]
    rw [Allowed] at h
    exact AllAllowed.preferred body h
  | enumeration e => rwa [MessageLine.preferred]
  | field f =>
    rw [MessageLine.preferred]
    cases hf : f.asSetting? with
    | none => exact h
    | some o =>
      simp only [Option.elim_some, Allowed]

theorem AllAllowed.preferred {rules : Rules} (ls : List MessageLine) (h : AllAllowed rules ls) :
    AllAllowed rules (allPreferred ls) := by
  cases ls with
  | nil => exact h
  | cons l ls =>
    rw [AllAllowed] at h
    rw [allPreferred, AllAllowed]
    exact ⟨Allowed.preferred l h.1, AllAllowed.preferred ls h.2⟩

end

end MessageLine

theorem DocumentLine.lexemes_preferred (l : DocumentLine) : l.preferred.lexemes = l.lexemes := by
  cases l with
  | message name body =>
    simp only [preferred, lexemes, MessageLine.lexemes, MessageLine.allLexemes_allPreferred]
  | newline => rfl
  | syntaxDecl value => rfl
  | packageDecl path => rfl
  | importDecl publics path => rfl
  | setting o => rfl
  | enumeration e => rfl

theorem DocumentLine.Allowed.preferred {rules : Rules} {l : DocumentLine} (h : l.Allowed rules) :
    l.preferred.Allowed rules := by
  cases l with
  | message name body => exact MessageLine.AllAllowed.preferred body h
  | newline => exact h
  | syntaxDecl value => exact h
  | packageDecl path => exact h
  | importDecl publics path => exact h
  | setting o => exact h
  | enumeration e => exact h

namespace DocumentTree

/-- The tree is a derivation of these lexemes in a dialect. -/
structure Derives (d : Dialect) (t : DocumentTree) (ls : List Lexeme) : Prop where
  allowed : t.Allowed d.rules
  lexemes : t.lexemes = ls

theorem lexemes_preferred (t : DocumentTree) : t.preferred.lexemes = t.lexemes := by
  unfold lexemes preferred
  rw [List.flatMap_map]
  exact congrArg (List.flatMap · t.lines) (funext DocumentLine.lexemes_preferred)

/-- The preferred tree is a derivation of the same text. -/
theorem Derives.preferred {d : Dialect} {t : DocumentTree} {ls : List Lexeme}
    (h : t.Derives d ls) : t.preferred.Derives d ls where
  allowed := {
    lines := fun l hl => by
      obtain ⟨m, hm, rfl⟩ := List.mem_map.mp hl
      exact (h.allowed.lines m hm).preferred
    nonempty := fun hempty hnil => h.allowed.nonempty hempty (List.map_eq_nil_iff.mp hnil) }
  lexemes := t.lexemes_preferred.trans h.lexemes

end DocumentTree

/-! ## 3. Reading and deriving -/

/-- A stream without faults that a tree derives is read.  None of its integers is too long, as
none of the tree is. -/
theorem document_complete {d : Dialect} {s : TokenStream} {t : DocumentTree}
    (hs : s.WellFormed) (hend : s.error? = none) (ht : t.Derives d s.lexemes) :
    ∃ doc, Document.ofTokens d.rules s = .ok doc := by
  have hexact := exact_document d (s.size + 1) (.front s) hs
  have hmem : s.lexemes ∈ documents d.rules * 1 := by
    rw [mul_one]
    exact ⟨t, ht.allowed, ht.lexemes⟩
  cases hreply : document d.rules (s.size + 1) (.front s) with
  | ok doc next miss => exact ⟨doc, Document.ofTokens_eq_ok_iff.mpr ⟨next, miss, hreply⟩⟩
  | fail m =>
    rw [hreply] at hexact
    exact absurd hmem (Stuck.lexemes_notMem hexact)
  | interrupted cause =>
    rw [hreply] at hexact
    cases cause with
    | lexical e =>
      have he : s.error? = some e := hexact.1
      rw [hend] at he
      exact absurd he (by simp)
    | longNumeral e =>
      obtain ⟨ds, hds, hlong⟩ := hexact
      have hmem : Lexeme.integer ds ∈ t.lexemes := ht.lexemes ▸ hds
      exact absurd ((t.readable _ hmem).short ds rfl) (Nat.not_le.mpr hlong)
  | exhausted => exact absurd hreply (document_ne_exhausted d.rules s)

/-- What is read has a tree that derives the text, with the option wherever the text can be read
as one. -/
theorem ofTokens_sound {d : Dialect} {s : TokenStream} {doc : Document} (hs : s.WellFormed)
    (h : Document.ofTokens d.rules s = .ok doc) :
    s.error? = none ∧
      ∃ t : DocumentTree, t.Derives d s.lexemes ∧ t.preferred = t ∧ t.document = doc := by
  obtain ⟨next, miss, h⟩ := Document.ofTokens_eq_ok_iff.mp h
  obtain ⟨hend, t, hallowed, hpreferred, hleaves, hdoc⟩ := document_sound hs h
  exact ⟨hend, t, ⟨hallowed, hleaves⟩, hpreferred, hdoc⟩

/-- A stream that a tree derives is read as the document of the preferred tree. -/
theorem ofTokens_complete {d : Dialect} {s : TokenStream} {t : DocumentTree}
    (hs : s.WellFormed) (hend : s.error? = none) (ht : t.Derives d s.lexemes) :
    Document.ofTokens d.rules s = .ok t.preferred.document := by
  obtain ⟨doc, h⟩ := document_complete hs hend ht
  obtain ⟨-, u, hu, hpreferred, rfl⟩ := ofTokens_sound hs h
  have hunique : t.preferred = u.preferred :=
    DocumentTree.preferred_eq_of_lexemes_eq (ht.lexemes.trans hu.lexemes.symm)
  rw [h, hunique, hpreferred]

/-- The field of type `option` that reads like the option. -/
def optionField (name : Word) (tag : Numeral) : FieldTree where
  modifier := none
  type := .named ⟨⟨"option", by decide⟩, []⟩ (by decide)
  name := name
  tag := tag
  options := []
  free := fun _ l hl => by
    obtain rfl : Lexeme.keyword .kwOption = l := Option.some.inj hl
    rfl

theorem asSetting?_optionField (name : Word) (tag : Numeral) :
    (optionField name tag).asSetting? = some ⟨.plain name, .number tag⟩ :=
  if_pos ⟨rfl, rfl, rfl⟩

/-- An option and a field have the same leaves where the field reads like that option. -/
theorem statement_eq_iff_asSetting? {o : SettingTree} {f : FieldTree} :
    o.statement = f.lexemes ↔ f.asSetting? = some o := by
  refine ⟨fun h => ?_, FieldTree.statement_of_asSetting?⟩
  have e : o.statement ++ [] = f.lexemes ++ [] := by rw [h]
  exact (FieldTree.asSetting?_of_statement e).1

end Grammar

/-- **Reading is deriving.**  A sequence of well-formed tokens is read exactly where a tree of the
dialect derives it, which has no integers that are too long.  What is read is the document of that
tree.
Any two trees agree up to the fields that read like options: every `option name = tag ;` in a
message is also a field, no other option is, and what is read has the option. -/
theorem ofTokens_iff_derives (d : Dialect) (ts : List Token) (stop : Position)
    (hts : ∀ t ∈ ts, t.lexeme.WellFormed) :
    ((∃ doc, Document.ofTokens d.rules (.ofTokens ts stop) = .ok doc) ↔
        ∃ t : DocumentTree, t.Derives d (lexemesOf ts)) ∧
      (∀ t : DocumentTree, t.Derives d (lexemesOf ts) → t.preferred.Derives d (lexemesOf ts) ∧
        Document.ofTokens d.rules (.ofTokens ts stop) = .ok t.preferred.document) ∧
      (∀ t u : DocumentTree, t.Derives d (lexemesOf ts) → u.Derives d (lexemesOf ts) →
        t.preferred = u.preferred) ∧
      (∀ (o : SettingTree) (f : FieldTree), o.statement = f.lexemes ↔ f.asSetting? = some o) ∧
      ∀ (name : Word) (tag : Numeral), ∃ f : FieldTree, f.modifier = none ∧
        f.type.type = .named "option" ∧ f.options = [] ∧
        f.lexemes = (SettingTree.mk (.plain name) (.number tag)).statement ∧
        (MessageLine.field f).preferred = .setting ⟨.plain name, .number tag⟩ := by
  have hlexemes : (TokenStream.ofTokens ts stop).lexemes = lexemesOf ts := by
    rw [TokenStream.lexemes, TokenStream.toList_ofTokens, lexemesOf]
  have hwell : (TokenStream.ofTokens ts stop).WellFormed := by
    rwa [TokenStream.WellFormed, TokenStream.toList_ofTokens]
  have hread : ∀ t : DocumentTree, t.Derives d (lexemesOf ts) →
      Document.ofTokens d.rules (.ofTokens ts stop) = .ok t.preferred.document := fun t ht =>
    ofTokens_complete hwell (TokenStream.error?_ofTokens ts stop) (by rwa [hlexemes])
  refine ⟨⟨?_, ?_⟩, fun t ht => ⟨ht.preferred, hread t ht⟩, fun t u ht hu => ?_,
    fun _ _ => statement_eq_iff_asSetting?, fun name tag => ?_⟩
  · rintro ⟨doc, h⟩
    obtain ⟨-, t, ht, -⟩ := ofTokens_sound hwell h
    exact ⟨t, hlexemes ▸ ht⟩
  · rintro ⟨t, ht⟩
    exact ⟨_, hread t ht⟩
  · exact DocumentTree.preferred_eq_of_lexemes_eq (ht.lexemes.trans hu.lexemes.symm)
  · refine ⟨optionField name tag, rfl, rfl, rfl, ?_, ?_⟩
    · exact (statement_eq_iff_asSetting?.mpr (asSetting?_optionField name tag)).symm
    · rw [MessageLine.preferred, asSetting?_optionField]
      rfl

/-- The tokens of `message M { option x = 1 ; }`, all at one place. -/
def ambiguousTokens : List Token :=
  [.keyword .kwMessage, .identifier "M", .punct .lbrace, .keyword .kwOption, .identifier "x",
    .punct .equals, .integer "1", .punct .semicolon, .punct .rbrace].map (⟨·, .start⟩)

/-- A tree for them that has the field. -/
def ambiguousTree : DocumentTree :=
  ⟨[.message ⟨"M", by decide⟩ [.field (optionField Word.sample
    ⟨"1", by decide, List.all_eq_true.mp (by decide), by decide⟩)]]⟩

/-- The tree has a field and the text is read with an option. -/
theorem ofTokens_ambiguousTokens :
    Document.ofTokens Dialect.strict.rules (.ofTokens ambiguousTokens .start) =
      .ok ⟨[.message ⟨"M", [.setting ⟨"x", false, none, .numeric 1⟩]⟩]⟩ := by
  have hts : ∀ t ∈ ambiguousTokens, t.lexeme.WellFormed := by decide
  have htree : ambiguousTree.Derives .strict (lexemesOf ambiguousTokens) := {
    allowed := {
      lines := by
        intro l hl
        obtain rfl := List.mem_singleton.mp hl
        exact ⟨fun _ => rfl, trivial⟩
      nonempty := fun _ => by simp [ambiguousTree] }
    lexemes := rfl }
  exact ((ofTokens_iff_derives .strict ambiguousTokens .start hts).2.1 _ htree).2

end SchemaLang
