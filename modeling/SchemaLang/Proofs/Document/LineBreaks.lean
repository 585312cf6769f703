/-
# What line breaks do to a document

A line break says nothing, and the places where one may stand depend on what is directly in front
(`MayBreak`).  So a text that is read has its breaks at such places only, and breaks may be put in
and left out there, one by one and as often as one likes, without a change to the document
(`ofTokens_breakEdits`).  The strict dialect needs one break where nothing else is left.

The same holds between two texts.  A line feed keeps them apart: whether it is a break of its own or
is taken in by what the first text ends with, the second text is read as it is by itself
(`parse_append_feed`).
-/
import Mathlib.Logic.Relation
import SchemaLang.Proofs.Document.Dialects
import SchemaLang.Proofs.Scanner.Seams

namespace SchemaLang

open Text Grammar

variable {d d' : Dialect} {ls ms before behind : List Lexeme} {ts : List Token}

/-! ## 1. Where a line may break -/

/-- Behind these lexemes a line may break: they are none, or the last one ends a line. -/
def MayBreak (ls : List Lexeme) : Prop := ∀ l ∈ ls.getLast?, l.endsLine

instance (ls : List Lexeme) : Decidable (MayBreak ls) := by
  unfold MayBreak
  infer_instance

/-- A text that is laid out has its breaks where lines may break, and nowhere else. -/
theorem Laid.mayBreak (h : Laid (before ++ .newline :: behind)) : MayBreak before := fun l hl =>
  (List.isChain_append.mp h).2.2 l hl _ rfl rfl

/-- Where a line may break, a break more or less leaves the layout as it is. -/
theorem laid_break_iff (h : MayBreak before) :
    Laid (before ++ .newline :: behind) ↔ Laid (before ++ behind) := by
  constructor
  · intro hlaid
    obtain ⟨hbefore, hbehind, -⟩ := List.isChain_append.mp hlaid
    exact List.isChain_append.mpr
      ⟨hbefore, laid_newline_cons.mp hbehind, fun l hl _ _ _ => h l hl⟩
  · intro hlaid
    obtain ⟨hbefore, hbehind, -⟩ := List.isChain_append.mp hlaid
    exact List.isChain_append.mpr
      ⟨hbefore, laid_newline_cons.mpr hbehind, fun l hl _ _ _ => h l hl⟩

/-- One break more or one break less, where a line may break. -/
inductive BreakEdit : List Lexeme → List Lexeme → Prop
  | insert {before behind : List Lexeme} (h : MayBreak before) :
      BreakEdit (before ++ behind) (before ++ .newline :: behind)
  | delete {before behind : List Lexeme} (h : MayBreak before) :
      BreakEdit (before ++ .newline :: behind) (before ++ behind)

namespace BreakEdit

theorem substance (h : BreakEdit ls ms) : substance ms = substance ls := by
  cases h <;> simp

theorem laid (h : BreakEdit ls ms) (hlaid : Laid ls) : Laid ms := by
  cases h with
  | insert hbreak => exact (laid_break_iff hbreak).mpr hlaid
  | delete hbreak => exact (laid_break_iff hbreak).mp hlaid

/-- However many edits are made, the substance stays and the text stays laid out. -/
theorem all (h : Relation.ReflTransGen BreakEdit ls ms) :
    SchemaLang.substance ms = SchemaLang.substance ls ∧ (Laid ls → Laid ms) := by
  induction h with
  | refl => exact ⟨rfl, id⟩
  | tail _ hedit ih =>
    obtain ⟨hsubstance, hlaid⟩ := ih
    exact ⟨hedit.substance.trans hsubstance, fun h => hedit.laid (hlaid h)⟩

end BreakEdit

/-! ## 2. Breaks put in and left out -/

/-- **Line breaks stand where a line may break, and there they may be put in and left out.**  In a
sequence of tokens that is read, every line break is the first token or directly behind a line
break, a semicolon or a brace.  Any number of breaks put in or left out at such places makes a
sequence that is read as the same document.  The one exception is the sequence without tokens,
which the strict dialect does not read.  The tokens are well-formed, as all tokens of texts are
(`wellFormed_scan`). -/
theorem ofTokens_breakEdits (d : Dialect) (ts : List Token) (stop : Position) (doc : Document)
    (hts : ∀ t ∈ ts, t.lexeme.WellFormed)
    (h : Document.ofTokens d.rules (.ofTokens ts stop) = .ok doc) :
    (∀ before behind, lexemesOf ts = before ++ .newline :: behind → MayBreak before) ∧
      ∀ (ts' : List Token) (stop' : Position),
        Relation.ReflTransGen BreakEdit (lexemesOf ts) (lexemesOf ts') →
          (¬(d = .strict ∧ ts' = []) →
            Document.ofTokens d.rules (.ofTokens ts' stop') = .ok doc) ∧
          (d = .strict ∧ ts' = [] →
            ∀ doc', Document.ofTokens d.rules (.ofTokens ts' stop') ≠ .ok doc') := by
  have hlexemes : ∀ us p, (TokenStream.ofTokens us p).lexemes = lexemesOf us := fun us p => by
    rw [TokenStream.lexemes, TokenStream.toList_ofTokens, lexemesOf]
  have hwell : (TokenStream.ofTokens ts stop).WellFormed := by
    rwa [TokenStream.WellFormed, TokenStream.toList_ofTokens]
  have hlaid : Laid (lexemesOf ts) := by
    obtain ⟨-, t, ht, -⟩ := ofTokens_sound hwell h
    rw [← hlexemes ts stop, ← ht.lexemes]
    exact t.laid_lexemes
  refine ⟨fun before behind hsplit => Laid.mayBreak (hsplit ▸ hlaid),
    fun ts' stop' hedits => ⟨fun hexception => ?_, ?_⟩⟩
  · obtain ⟨hsubstance, hlaid'⟩ := BreakEdit.all hedits
    refine ofTokens_of_substance hwell h (TokenStream.error?_ofTokens ts' stop') ?_ ?_ ?_
      fun t ht _ => ht.allowed.lines
    · rw [hlexemes, hlexemes, hsubstance]
    · rw [hlexemes]
      exact hlaid' hlaid
    · intro hempty hnil
      rw [hlexemes] at hnil
      refine hexception ⟨?_, List.map_eq_nil_iff.mp hnil⟩
      cases d with
      | strict => rfl
      | legacy => exact absurd hempty (by decide)
  · rintro ⟨rfl, rfl⟩ doc' hread
    obtain ⟨-, t, ht, -⟩ := ofTokens_sound (fun _ h => absurd h (by simp [TokenStream.ofTokens,
      TokenStream.toList])) hread
    exact ht.ne_nil rfl rfl

/-- The tokens of a message without a body, and the same with three breaks, all at one place. -/
def messageTokens : List Token :=
  [.keyword .kwMessage, .identifier "M", .punct .lbrace, .punct .rbrace].map (⟨·, .start⟩)

def brokenTokens : List Token :=
  [.newline, .keyword .kwMessage, .identifier "M", .punct .lbrace, .newline, .punct .rbrace,
    .newline].map (⟨·, .start⟩)

/-- Breaks in front of a message, inside of it and behind it say nothing. -/
theorem ofTokens_brokenTokens :
    Document.ofTokens Dialect.strict.rules (.ofTokens messageTokens .start) =
        .ok ⟨[.message ⟨"M", []⟩]⟩ ∧
      Document.ofTokens Dialect.strict.rules (.ofTokens brokenTokens .start) =
        .ok ⟨[.message ⟨"M", []⟩]⟩ := by
  have hread : Document.ofTokens Dialect.strict.rules (.ofTokens messageTokens .start) =
      .ok ⟨[.message ⟨"M", []⟩]⟩ := by decide
  let front := [Lexeme.newline, .keyword .kwMessage, .identifier "M", .punct .lbrace]
  have hfront : BreakEdit (lexemesOf messageTokens) (front ++ [.punct .rbrace]) :=
    @BreakEdit.insert [] _ (by decide)
  have hbody : BreakEdit (front ++ [.punct .rbrace]) (front ++ [.newline, .punct .rbrace]) :=
    .insert (by decide)
  have hend : BreakEdit (front ++ [.newline, .punct .rbrace]) (lexemesOf brokenTokens) :=
    @BreakEdit.insert (front ++ [.newline, .punct .rbrace]) [] (by decide)
  have hedits := ((Relation.ReflTransGen.single hfront).tail hbody).tail hend
  have hedited := (ofTokens_breakEdits .strict messageTokens .start _ (by decide) hread).2
    brokenTokens .start hedits
  exact ⟨hread, hedited.1 (by decide)⟩

/-! ## 3. Two texts with a line feed between them -/

/-- A tree with another one behind it. -/
def Grammar.DocumentTree.append (t u : DocumentTree) : DocumentTree := ⟨t.lines ++ u.lines⟩

theorem Grammar.DocumentTree.lexemes_append (t u : DocumentTree) :
    (t.append u).lexemes = t.lexemes ++ u.lexemes := List.flatMap_append

/-- Trees one behind the other say one thing after the other. -/
theorem Grammar.DocumentTree.document_append (t u : DocumentTree) :
    (t.append u).preferred.document =
      ⟨t.preferred.document.statements ++ u.preferred.document.statements⟩ := by
  simp [append, preferred, document]

theorem Grammar.DocumentTree.Allowed.append {rules : Rules} {t u : DocumentTree}
    (ht : t.Allowed rules) (hu : u.Allowed rules) : (t.append u).Allowed rules where
  lines := by
    intro l hl
    rcases List.mem_append.mp hl with hl | hl
    · exact ht.lines l hl
    · exact hu.lines l hl
  nonempty := fun hempty hnil => ht.nonempty hempty (List.append_eq_nil_iff.mp hnil).1

/-- **Two texts with a line feed between them are read one after the other.**  The first one may
end in any way in which it is read: also in a carriage return, which takes in the line feed, or in
a comment, where the dialect lets it. -/
theorem parse_append_feed (d : Dialect) (source₁ source₂ : String) (doc₁ doc₂ : Document)
    (h₁ : Document.parse d source₁ = .ok doc₁) (h₂ : Document.parse d source₂ = .ok doc₂) :
    Document.parse d (source₁ ++ "\n" ++ source₂) =
      .ok ⟨doc₁.statements ++ doc₂.statements⟩ := by
  obtain ⟨hend₁, t₁, ht₁, hpreferred₁, rfl⟩ := ofTokens_sound (wellFormed_scan d.rules _) h₁
  obtain ⟨hend₂, t₂, ht₂, hpreferred₂, rfl⟩ := ofTokens_sound (wellFormed_scan d.rules _) h₂
  obtain ⟨breaks, hbreaks, hscan⟩ := scanFrom_append_feed .start _ source₂.toList hend₁
  have htext : (source₁ ++ "\n" ++ source₂).toList =
      source₁.toList ++ '\n' :: source₂.toList := by simp
  rw [← htext] at hscan
  -- the line feed is a line of its own, or none
  obtain ⟨t, hallowed, hlexemes, hdocument⟩ : ∃ t : DocumentTree, t.Allowed d.rules ∧
      t.lexemes = t₁.lexemes ++ breaks ∧ t.preferred.document = t₁.document := by
    rcases hbreaks with rfl | rfl
    · exact ⟨t₁, ht₁.allowed, by rw [List.append_nil], by rw [hpreferred₁]⟩
    · exact ⟨t₁.broken, DocumentTree.allowed_broken ht₁.allowed.lines, t₁.lexemes_broken,
        by rw [t₁.document_broken, hpreferred₁]⟩
  have hderives : (t.append t₂).Derives d
      (scan d.rules (source₁ ++ "\n" ++ source₂)).lexemes := {
    allowed := hallowed.append ht₂.allowed
    lexemes := by
      rw [t.lexemes_append, hlexemes, ht₁.lexemes, ht₂.lexemes]
      exact hscan.lexemes.symm }
  rw [parse_of_derives (hscan.error?.mpr hend₂) hderives, t.document_append, hdocument,
    hpreferred₂]

/-- The comment at the end of the first text takes in the line feed. -/
theorem parse_comment_append :
    Document.parse .legacy ("package a; // b" ++ "\n" ++ "import \"c\";") =
      .ok ⟨[.packageDecl "a", .importDecl ⟨"c", false⟩]⟩ := by
  have hpackage : scan Dialect.legacy.rules "package a; // b" =
      .token ⟨.keyword .kwPackage, ⟨1, 1⟩⟩ (.token ⟨.identifier "a", ⟨1, 9⟩⟩
        (.token ⟨.punct .semicolon, ⟨1, 10⟩⟩ (.done ⟨1, 16⟩))) := by
    rw [scan_eq_scanWithin]
    decide
  have himport : scan Dialect.legacy.rules "import \"c\";" =
      .token ⟨.keyword .kwImport, ⟨1, 1⟩⟩ (.token ⟨.string "c", ⟨1, 8⟩⟩
        (.token ⟨.punct .semicolon, ⟨1, 11⟩⟩ (.done ⟨1, 12⟩))) := by
    rw [scan_eq_scanWithin]
    decide
  have h₁ : Document.parse .legacy "package a; // b" = .ok ⟨[.packageDecl "a"]⟩ := by
    rw [Document.parse, hpackage]
    decide
  have h₂ : Document.parse .legacy "import \"c\";" = .ok ⟨[.importDecl ⟨"c", false⟩]⟩ := by
    rw [Document.parse, himport]
    decide
  exact parse_append_feed .legacy _ _ _ _ h₁ h₂

end SchemaLang
