/-
# What a text says

Two texts say the same where their lexemes agree up to three things: line breaks, the digits that a
number is written with, and how often `public` was written for an import.  `sense` is what is left
of a list of lexemes once these are gone.

The sense of a text is the sense of what it means, and nothing else: a document is written down
again from the sense of any text that means it (`DocumentTree.lexemes_document`).  As conforming
documents that are written alike are equal, two texts mean the same document exactly where they
say the same.  It does not matter which dialects they were read in.
-/
import SchemaLang.Proofs.Document.Text
import SchemaLang.Proofs.Scanner.Dialects

namespace SchemaLang

open Text Grammar

/-! ## 1. Senses -/

/-- What a lexeme says: an integer says its value, and any other lexeme itself. -/
inductive Sense
  | number (value : Nat)
  | lexeme (l : Lexeme)
  deriving DecidableEq, Repr

def Lexeme.sense : Lexeme → Sense
  | integer digits => .number (digitsValue digits.toList)
  | l => .lexeme l

/-- Where a reader of an import stands: behind the word `import`, or behind a `public` of it. -/
inductive Standing
  | elsewhere | behindImport | behindPublic
  deriving DecidableEq, Repr

/-- Where the reader stands behind one more lexeme. -/
def Standing.past : Standing → Lexeme → Standing
  | _, .keyword .kwImport => .behindImport
  | .behindImport, .keyword .kwPublic => .behindPublic
  | .behindPublic, .keyword .kwPublic => .behindPublic
  | _, _ => .elsewhere

/-- Leaves one `public` of those that an import has in a row.  The word stands twice in a row in
other places too, as in a field of type `public` and name `public`; but in a text that is read,
two of them right behind the word `import` are always those of an import. -/
def collapse : Standing → List Lexeme → List Lexeme
  | _, [] => []
  | z, l :: ls =>
    if z = .behindPublic ∧ l = .keyword .kwPublic then collapse z ls
    else l :: collapse (z.past l) ls

/-- What some lexemes say. -/
def sense (ls : List Lexeme) : List Sense :=
  (collapse .elsewhere (ls.filter (· ≠ .newline))).map Lexeme.sense

/-! ## 2. The plainest lexemes of a sense -/

/-- The plainest lexeme that says this, a number without leading zeros. -/
def Sense.written : Sense → Lexeme
  | number n => numberLexeme n
  | lexeme l => l

/-- The plainest lexeme that says the same. -/
def Lexeme.plain (l : Lexeme) : Lexeme := l.sense.written

theorem Lexeme.sense_plain (l : Lexeme) : l.plain.sense = l.sense := by
  cases l with
  | integer digits =>
    have hvalue := digitsValue_toDigits (digitsValue digits.toList)
    rw [← Nat.toList_repr] at hvalue
    exact congrArg Sense.number hvalue
  | keyword k => rfl
  | punct p => rfl
  | string text => rfl
  | identifier name => rfl
  | newline => rfl

/-- The plainest lexemes of what is said from some standing on. -/
def normal (z : Standing) (ls : List Lexeme) : List Lexeme :=
  (collapse z (ls.filter (· ≠ .newline))).map Lexeme.plain

theorem normal_eq (ls : List Lexeme) : normal .elsewhere ls = (sense ls).map Sense.written := by
  rw [normal, sense, List.map_map]
  rfl

theorem map_sense_normal (ls : List Lexeme) :
    (normal .elsewhere ls).map Lexeme.sense = sense ls := by
  rw [normal, sense, List.map_map]
  exact List.map_congr_left fun l _ => l.sense_plain

@[simp] theorem normal_nil (z : Standing) : normal z [] = [] := rfl

theorem normal_newline (z : Standing) (ls : List Lexeme) :
    normal z (.newline :: ls) = normal z ls := rfl

/-- Nothing is left out but line breaks and repeated `public`s. -/
theorem normal_cons {z : Standing} {l : Lexeme} (ls : List Lexeme) (hl : l ≠ .newline)
    (h : ¬(z = .behindPublic ∧ l = .keyword .kwPublic)) :
    normal z (l :: ls) = l.plain :: normal (z.past l) ls := by
  rw [normal, List.filter_cons_of_pos (by simpa using hl), collapse, if_neg h]
  rfl

theorem normal_public (ls : List Lexeme) :
    normal .behindPublic (.keyword .kwPublic :: ls) = normal .behindPublic ls := by
  rw [normal, List.filter_cons_of_pos (by decide), collapse, if_pos ⟨rfl, rfl⟩]
  rfl

/-- Behind a mark nothing is left of an import. -/
theorem normal_mark (z : Standing) (p : Punct) (ls : List Lexeme) :
    normal z (.punct p :: ls) = .punct p :: normal .elsewhere ls := by
  rw [normal_cons ls (by simp) (by simp)]
  cases z <;> rfl

theorem normal_string (z : Standing) (s : String) (ls : List Lexeme) :
    normal z (.string s :: ls) = .string s :: normal .elsewhere ls := by
  rw [normal_cons ls (by simp) (by simp)]
  cases z <;> rfl

theorem normal_numeral (z : Standing) (n : Numeral) (ls : List Lexeme) :
    normal z (n.lexeme :: ls) = numberLexeme n.value :: normal .elsewhere ls := by
  rw [Numeral.lexeme, normal_cons ls (by simp) (by simp)]
  cases z <;> rfl

/-- A keyword that starts no import is kept and leaves the reader where they were. -/
theorem normal_keyword {k : Keyword} (hk : k ≠ .kwImport) (ls : List Lexeme) :
    normal .elsewhere (.keyword k :: ls) = .keyword k :: normal .elsewhere ls := by
  have hpast : Standing.past .elsewhere (.keyword k) = .elsewhere := by
    cases k <;> first | rfl | exact absurd rfl hk
  rw [normal_cons ls (by simp) (by simp), hpast]
  rfl

theorem plain_word (w : Word) : w.lexeme.plain = w.lexeme := by
  have hname := w.name?_lexeme
  cases h : w.lexeme with
  | integer digits =>
    rw [h] at hname
    exact absurd hname (by simp [Lexeme.name?])
  | keyword k => rfl
  | punct p => rfl
  | string text => rfl
  | identifier name => rfl
  | newline => rfl

theorem Standing.past_ne {z : Standing} (hz : z = .elsewhere) (l : Lexeme) :
    z.past l ≠ .behindPublic := by
  subst hz
  unfold past
  split <;> simp_all

/-! ## 3. What settles the standing -/

/-- These lexemes say the same wherever they stand, but behind a `public`. -/
def Settled (ls ms : List Lexeme) : Prop := ∀ z : Standing, z ≠ .behindPublic → normal z ls = ms

theorem settled_mark (p : Punct) (ls : List Lexeme) :
    Settled (.punct p :: ls) (.punct p :: normal .elsewhere ls) := fun z _ => normal_mark z p ls

/-- A word in front of a mark. -/
theorem settled_word_mark (w : Word) (p : Punct) (ls : List Lexeme) :
    Settled (w.lexeme :: .punct p :: ls) (w.lexeme :: .punct p :: normal .elsewhere ls) := by
  intro z hz
  rw [normal_cons _ (w.lexeme_ne rfl) (fun h => hz h.1), normal_mark, plain_word]

theorem normal_word_mark (w : Word) (p : Punct) (ls : List Lexeme) :
    normal .elsewhere (w.lexeme :: .punct p :: ls) =
      w.lexeme :: .punct p :: normal .elsewhere ls :=
  settled_word_mark w p ls .elsewhere (by simp)

/-- A word where the reader is nowhere near an import. -/
theorem normal_word {ls ms : List Lexeme} (h : Settled ls ms) (w : Word) :
    normal .elsewhere (w.lexeme :: ls) = w.lexeme :: ms := by
  rw [normal_cons _ (w.lexeme_ne rfl) (by simp), plain_word, h _ (Standing.past_ne rfl _)]

theorem settled_dotted {ls ms : List Lexeme} (h : Settled ls ms) (vs : List Word) :
    Settled (dotted vs ++ ls) (dotted vs ++ ms) := by
  induction vs with
  | nil => exact h
  | cons v vs ih =>
    intro z _
    show normal z (.punct .dot :: v.lexeme :: (dotted vs ++ ls)) = _
    rw [normal_mark, normal_word ih v]
    rfl

theorem Grammar.Path.normal_append {ls ms : List Lexeme} (h : Settled ls ms) (p : Path) :
    normal .elsewhere (p.lexemes ++ ls) = pathLexemes p.text ++ ms := by
  rw [pathLexemes_text]
  exact normal_word (settled_dotted h p.tail) p.head

theorem Grammar.TypeTree.normal_append {ls ms : List Lexeme} (h : Settled ls ms) (t : TypeTree) :
    normal .elsewhere (t.lexemes ++ ls) = t.type.lexemes ++ ms := by
  have hls : normal .elsewhere ls = ms := h .elsewhere (by simp)
  induction t generalizing ls ms with
  | primitive p =>
    show normal .elsewhere (.keyword (primitiveKeyword p) :: ls) = _
    rw [normal_keyword (by cases p <;> simp [primitiveKeyword]), hls]
    rfl
  | map key value hkey hvalue =>
    have hclose := settled_mark .rangle ls
    have hcomma := settled_mark .comma (value.lexemes ++ .punct .rangle :: ls)
    rw [hvalue hclose (normal_mark _ _ _)] at hcomma
    simp only [lexemes, type, TypeRef.lexemes, List.cons_append, List.append_assoc,
      List.nil_append]
    rw [normal_keyword (by simp), normal_mark, hkey hcomma (hcomma _ (by simp)), hls]
  | named path free => exact path.normal_append h

/-! ## 4. What whole lines say -/

/-- The first lexemes say what the second ones are, and settle what is behind them. -/
def Means (ls ms : List Lexeme) : Prop :=
  ∀ rest, normal .elsewhere (ls ++ rest) = ms ++ normal .elsewhere rest

theorem means_nil : Means [] [] := fun _ => rfl

theorem Means.append {ls ms ls' ms' : List Lexeme} (h : Means ls ms) (h' : Means ls' ms') :
    Means (ls ++ ls') (ms ++ ms') := by
  intro rest
  rw [List.append_assoc, h, h', List.append_assoc]

/-- Lines in a row say what each of them says. -/
theorem means_lines {α τ : Type} {f : τ → List Lexeme} {g : τ → Option α}
    {write : α → List Lexeme} {ts : List τ}
    (h : ∀ t ∈ ts, Means (f t) ((g t).elim [] write)) :
    Means (ts.flatMap f) ((ts.filterMap g).flatMap write) := by
  induction ts with
  | nil => exact means_nil
  | cons t ts ih =>
    have hhead := h t List.mem_cons_self
    have htail := ih fun u hu => h u (List.mem_cons_of_mem _ hu)
    rw [List.flatMap_cons, List.filterMap_cons]
    cases hg : g t with
    | none =>
      rw [hg] at hhead
      exact hhead.append htail
    | some a =>
      rw [hg] at hhead
      exact hhead.append htail

theorem means_newline : Means [.newline] [] := fun rest => normal_newline _ rest

namespace Grammar

theorem Literal.normal_cons (x : Literal) (ls : List Lexeme) :
    normal .elsewhere (x.lexeme :: ls) = x.constant.lexeme :: normal .elsewhere ls := by
  cases x with
  | number n => exact normal_numeral _ n ls
  | text q => exact normal_string _ q.text ls
  | boolean b => cases b <;> exact normal_keyword (by simp) ls

namespace SettingTree

theorem normal_append (o : SettingTree) (p : Punct) (ls : List Lexeme) :
    normal .elsewhere (o.lexemes ++ .punct p :: ls) =
      o.setting.lexemes ++ .punct p :: normal .elsewhere ls := by
  have hvalue : normal .elsewhere (.punct .equals :: o.value.lexeme :: .punct p :: ls) =
      .punct .equals :: o.value.constant.lexeme :: .punct p :: normal .elsewhere ls := by
    rw [normal_mark, o.value.normal_cons, normal_mark]
  obtain ⟨key, value⟩ := o
  cases key with
  | plain name =>
    show normal .elsewhere (name.lexeme :: .punct .equals :: value.lexeme :: .punct p :: ls) = _
    rw [normal_word_mark, value.normal_cons, normal_mark]
    rfl
  | extension name suffix =>
    have hsuffix := settled_dotted (settled_mark .equals (value.lexeme :: .punct p :: ls)) suffix
      .elsewhere (by simp)
    rw [value.normal_cons, normal_mark] at hsuffix
    simp only [lexemes, KeyTree.lexemes, List.cons_append, List.append_assoc, List.nil_append]
    rw [normal_mark, normal_word_mark, hsuffix]
    cases suffix with
    | nil => rfl
    | cons w ws =>
      have hpath : dottedNames (segments (joinDots (w.text :: ws.map Word.text))) =
          dotted (w :: ws) := by
        rw [segments_joinDots_words]
        exact dottedNames_words (w :: ws)
      simp only [setting, OptionSetting.lexemes, OptionSetting.keyLexemes, if_true,
        Option.elim_some, hpath, List.cons_append, List.append_assoc, List.nil_append]
      rfl

theorem means_statement (o : SettingTree) : Means o.statement o.setting.statement := by
  intro rest
  simp only [statement, OptionSetting.statement, List.cons_append, List.append_assoc,
    List.nil_append]
  rw [normal_keyword (by simp), o.normal_append]

theorem means_bracket (o : SettingTree) : Means o.bracket o.setting.bracket := by
  intro rest
  simp only [bracket, OptionSetting.bracket, List.cons_append, List.append_assoc,
    List.nil_append]
  rw [normal_mark, o.normal_append]

end SettingTree

theorem means_bracketRow (os : List SettingTree) :
    Means (bracketRow os) ((os.map SettingTree.setting).flatMap OptionSetting.bracket) := by
  have h : Means (os.flatMap SettingTree.bracket)
      ((os.filterMap fun o => some o.setting).flatMap OptionSetting.bracket) :=
    means_lines fun o _ => o.means_bracket
  rwa [List.filterMap_eq_map'] at h

/-- What stands behind the type of a field, or alone as an entry. -/
theorem settled_tagged (v : Word) (n : Numeral) (os : List SettingTree) (rest : List Lexeme) :
    Settled (v.lexeme :: .punct .equals :: n.lexeme ::
        (bracketRow os ++ .punct .semicolon :: rest))
      (taggedLexemes v.text n.value (os.map SettingTree.setting) ++ normal .elsewhere rest) := by
  intro z hz
  rw [settled_word_mark v .equals _ z hz, normal_numeral, means_bracketRow os, normal_mark,
    taggedLexemes]
  simp only [List.cons_append, List.append_assoc, List.nil_append]
  rfl

theorem EnumLine.means (l : EnumLine) : Means l.lexemes (l.item?.elim [] EnumItem.lexemes) := by
  cases l with
  | newline => exact means_newline
  | setting o => exact o.means_statement
  | entry e =>
    intro rest
    simp only [lexemes, EntryTree.lexemes, List.cons_append, List.append_assoc, List.nil_append]
    exact settled_tagged e.name e.tag e.options rest .elsewhere (by simp)

theorem EnumTree.means (e : EnumTree) : Means e.lexemes e.enumeration.lexemes := by
  intro rest
  have hbody : Means (e.body.flatMap EnumLine.lexemes)
      ((e.body.filterMap EnumLine.item?).flatMap EnumItem.lexemes) :=
    means_lines fun l _ => l.means
  simp only [lexemes, enumeration, Enumeration.lexemes, List.cons_append, List.append_assoc,
    List.nil_append]
  rw [normal_keyword (by simp), normal_word_mark, hbody, normal_mark]
  rfl

theorem FieldTree.means (f : FieldTree) : Means f.lexemes f.field.lexemes := by
  intro rest
  have htagged := settled_tagged f.name f.tag f.options rest
  have htype := f.type.normal_append htagged
  obtain ⟨modifier, type, name, tag, options, free⟩ := f
  cases modifier with
  | none => simpa [lexemes, field, Field.lexemes] using htype
  | some m =>
    simp only [lexemes, field, Field.lexemes, Option.toList_some, List.map_cons, List.map_nil,
      List.cons_append, List.append_assoc, List.nil_append]
    rw [normal_keyword (by cases m <;> simp [modifierKeyword]), htype]

namespace MessageLine

mutual

theorem means (l : MessageLine) : Means l.lexemes (l.item?.elim [] MessageItem.lexemes) := by
  cases l with
  | newline =>
    rw [lexemes, item?]
    exact means_newline
  | setting o =>
    rw [lexemes, item?, Option.elim_some, MessageItem.lexemes]
    exact o.means_statement
  | message name body =>
    rw [lexemes, item?, Option.elim_some, MessageItem.lexemes]
    intro rest
    simp only [List.cons_append, List.append_assoc, List.nil_append]
    rw [normal_keyword (by simp), normal_word_mark, means_all body, normal_mark]
    rfl
  | enumeration e =>
    rw [lexemes, item?, Option.elim_some, MessageItem.lexemes]
    exact e.means
  | field f =>
    rw [lexemes, item?, Option.elim_some, MessageItem.lexemes]
    exact f.means

theorem means_all (ls : List MessageLine) :
    Means (allLexemes ls) (MessageItem.allLexemes (items ls)) := by
  cases ls with
  | nil => exact means_nil
  | cons l ls =>
    have hhead := means l
    have htail := means_all ls
    rw [allLexemes, items]
    cases hi : l.item? with
    | none =>
      rw [hi] at hhead
      exact hhead.append htail
    | some i =>
      rw [hi] at hhead
      exact hhead.append htail

end

end MessageLine

/-- However often `public` is written for an import, it is said once. -/
theorem normal_publics (n : Nat) (s : String) (ls : List Lexeme) :
    normal .behindPublic (List.replicate n (Lexeme.keyword .kwPublic) ++ .string s :: ls) =
      .string s :: normal .elsewhere ls := by
  induction n with
  | zero => exact normal_string _ s ls
  | succ n ih =>
    rw [List.replicate_succ, List.cons_append, normal_public, ih]

theorem means_import (n : Nat) (path : ImportPath) :
    Means (DocumentLine.importDecl n path).lexemes
      (Import.lexemes ⟨path.text, decide (0 < n)⟩) := by
  intro rest
  simp only [DocumentLine.lexemes, List.cons_append, List.append_assoc, List.nil_append]
  rw [normal_cons _ (by simp) (by simp)]
  show _ :: normal .behindImport _ = _
  cases n with
  | zero =>
    rw [List.replicate_zero, List.nil_append, ImportPath.lexeme, normal_string, normal_mark]
    rfl
  | succ n =>
    rw [List.replicate_succ, List.cons_append, normal_cons _ (by simp) (by simp)]
    show _ :: _ :: normal .behindPublic _ = _
    rw [ImportPath.lexeme, normal_publics, normal_mark]
    rfl

theorem DocumentLine.means (l : DocumentLine) :
    Means l.lexemes (l.statement?.elim [] Statement.lexemes) := by
  cases l with
  | newline => exact means_newline
  | syntaxDecl value =>
    intro rest
    show normal .elsewhere (.keyword .kwSyntax :: .punct .equals :: .string value.text ::
      .punct .semicolon :: rest) = _
    rw [normal_keyword (by simp), normal_mark, normal_string, normal_mark]
    rfl
  | packageDecl path =>
    intro rest
    have hend := settled_mark .semicolon rest
    simp only [lexemes, statement?, Option.elim_some, Statement.lexemes, List.cons_append,
      List.append_assoc, List.nil_append]
    rw [normal_keyword (by simp), path.normal_append hend]
  | importDecl n path => exact means_import n path
  | setting o => exact o.means_statement
  | message name body =>
    have h := (MessageLine.message name body).means
    rwa [MessageLine.item?] at h
  | enumeration e => exact e.means

/-- **A document is the plainest text of its sense.** -/
theorem DocumentTree.lexemes_document (t : DocumentTree) :
    t.document.lexemes = (sense t.lexemes).map Sense.written := by
  have h : Means t.lexemes t.document.lexemes := means_lines fun l _ => l.means
  have happend := h []
  rw [List.append_nil, normal_nil, List.append_nil] at happend
  rw [← happend, normal_eq]

/-- A tree says what its document says. -/
theorem DocumentTree.map_sense_document (t : DocumentTree) :
    t.document.lexemes.map Lexeme.sense = sense t.lexemes := by
  rw [t.lexemes_document, ← normal_eq, map_sense_normal]

end Grammar

/-! ## 5. Equal documents -/

/-- Conforming documents that are written alike are equal, also those of different dialects. -/
theorem Document.Conforming.eq_of_lexemes {d₁ d₂ : Dialect} {doc₁ doc₂ : Document}
    (h₁ : doc₁.Conforming d₁) (h₂ : doc₂.Conforming d₂) (h : doc₁.lexemes = doc₂.lexemes) :
    doc₁ = doc₂ := by
  obtain ⟨t₁, -, hp₁, rfl, hl₁, -⟩ := exists_tree_of_conforming h₁
  obtain ⟨t₂, -, hp₂, rfl, hl₂, -⟩ := exists_tree_of_conforming h₂
  have hpreferred : t₁.preferred = t₂.preferred :=
    DocumentTree.preferred_eq_of_lexemes_eq (hl₁.trans (h.trans hl₂.symm))
  rw [← hp₁, ← hp₂, hpreferred]

/-- What is read from a text says what the text says. -/
theorem map_sense_of_parse {d : Dialect} {source : String} {doc : Document}
    (h : Document.parse d source = .ok doc) :
    doc.lexemes.map Lexeme.sense = sense (scan d.rules source).lexemes ∧
      doc.lexemes = (sense (scan d.rules source).lexemes).map Sense.written := by
  obtain ⟨-, t, ht, -, rfl⟩ := ofTokens_sound (wellFormed_scan d.rules source) h
  rw [← ht.lexemes]
  exact ⟨t.map_sense_document, t.lexemes_document⟩

/-- **Two texts mean the same document exactly where they say the same**, whichever dialects they
are read in.  In particular a text means the same in every dialect that reads it. -/
theorem parse_eq_iff_sense_eq (d₁ d₂ : Dialect) (s₁ s₂ : String) (doc₁ doc₂ : Document)
    (h₁ : Document.parse d₁ s₁ = .ok doc₁) (h₂ : Document.parse d₂ s₂ = .ok doc₂) :
    (doc₁ = doc₂ ↔ sense (scan d₁.rules s₁).lexemes = sense (scan d₂.rules s₂).lexemes) ∧
      (s₁ = s₂ → doc₁ = doc₂) := by
  have hconforming₁ := conforming_of_parse h₁
  have hconforming₂ := conforming_of_parse h₂
  obtain ⟨hsense₁, hwritten₁⟩ := map_sense_of_parse h₁
  obtain ⟨hsense₂, hwritten₂⟩ := map_sense_of_parse h₂
  have heq : sense (scan d₁.rules s₁).lexemes = sense (scan d₂.rules s₂).lexemes → doc₁ = doc₂ := by
    intro h
    refine hconforming₁.eq_of_lexemes hconforming₂ ?_
    rw [hwritten₁, hwritten₂, h]
  refine ⟨⟨?_, heq⟩, ?_⟩
  · rintro rfl
    rw [← hsense₁, ← hsense₂]
  · rintro rfl
    have hend₁ := (ofTokens_sound (wellFormed_scan d₁.rules s₁) h₁).1
    have hend₂ := (ofTokens_sound (wellFormed_scan d₂.rules s₁) h₂).1
    have hcontents := contents_eq hend₁ hend₂
    exact heq (congrArg (fun ls => (collapse .elsewhere ls).map Lexeme.sense) hcontents)

/-- `public` twice says what `public` once says. -/
theorem sense_public_public :
    sense (scan Dialect.strict.rules "import public public \"a\";").lexemes =
      sense (scan Dialect.legacy.rules "import public \"a\";").lexemes := by
  have hstrict : scan Dialect.strict.rules "import public public \"a\";" =
      .token ⟨.keyword .kwImport, ⟨1, 1⟩⟩ (.token ⟨.keyword .kwPublic, ⟨1, 8⟩⟩
        (.token ⟨.keyword .kwPublic, ⟨1, 15⟩⟩ (.token ⟨.string "a", ⟨1, 22⟩⟩
          (.token ⟨.punct .semicolon, ⟨1, 25⟩⟩ (.done ⟨1, 26⟩))))) := by
    rw [scan_eq_scanWithin]
    decide
  have hlegacy : scan Dialect.legacy.rules "import public \"a\";" =
      .token ⟨.keyword .kwImport, ⟨1, 1⟩⟩ (.token ⟨.keyword .kwPublic, ⟨1, 8⟩⟩
        (.token ⟨.string "a", ⟨1, 15⟩⟩ (.token ⟨.punct .semicolon, ⟨1, 18⟩⟩ (.done ⟨1, 19⟩)))) := by
    rw [scan_eq_scanWithin]
    decide
  have hparse₁ : Document.parse .strict "import public public \"a\";" =
      .ok ⟨[.importDecl ⟨"a", true⟩]⟩ := by
    rw [Document.parse, hstrict]
    decide
  have hparse₂ : Document.parse .legacy "import public \"a\";" =
      .ok ⟨[.importDecl ⟨"a", true⟩]⟩ := by
    rw [Document.parse, hlegacy]
    decide
  exact (parse_eq_iff_sense_eq _ _ _ _ _ _ hparse₁ hparse₂).1.mp rfl

end SchemaLang
