/-
# Where lines break

A line break is a lexeme, but it means nothing: it may stand between any two lines of a document or
of a body, and nowhere else.  Two statements make this exact.  In the leaves of a tree every line
break is behind something that ends a line (`laid_lexemes`); and wherever else the line breaks of a
text stand behind something that ends a line, there is a tree for the text that differs in its line
breaks alone (`exists_laid_tree`).

The second one goes through the tree with the rest of the text at hand.  The lexemes inside of a
line end no line, so no break can stand between them, and the text is cut behind the last one.
-/
import SchemaLang.Proofs.Grammar.Leaves
import SchemaLang.Proofs.Scanner.Breaks

namespace SchemaLang

/-! ## 1. Cutting a text behind a line -/

/-- None of these lexemes ends a line. -/
def Inline (ls : List Lexeme) : Prop := ∀ l ∈ ls, l.endsLine = false

@[simp] theorem inline_nil : Inline [] := by simp [Inline]

@[simp] theorem inline_cons {l : Lexeme} {ls : List Lexeme} :
    Inline (l :: ls) ↔ l.endsLine = false ∧ Inline ls := List.forall_mem_cons

@[simp] theorem inline_append {ls ms : List Lexeme} :
    Inline (ls ++ ms) ↔ Inline ls ∧ Inline ms := List.forall_mem_append

theorem Inline.substance {ls : List Lexeme} (h : Inline ls) : substance ls = ls := by
  refine List.filter_eq_self.mpr fun l hl => ?_
  simpa using ne_newline_of_not_endsLine (h l hl)

/-- **A line is cut off whole.**  Where a text has the substance of a line and of what is behind
it, the line stands in front without a break in it. -/
theorem exists_behind_line {xs ls c : List Lexeme} {e : Lexeme} (hxs : Inline xs)
    (he : e ≠ .newline) (h : substance ls = xs ++ e :: c) (hlaid : Laid ls)
    (hhead : ls.head? ≠ some .newline) :
    ∃ rest, ls = xs ++ e :: rest ∧ substance rest = c ∧ Laid rest := by
  induction xs generalizing ls with
  | nil =>
    cases ls with
    | nil => exact absurd h (by simp)
    | cons l ls =>
      have hl : l ≠ .newline := by simpa using hhead
      rw [substance_cons hl] at h
      obtain ⟨rfl, hc⟩ := List.cons.inj h
      exact ⟨ls, rfl, hc, hlaid.tail⟩
  | cons x xs ih =>
    rw [inline_cons] at hxs
    cases ls with
    | nil => exact absurd h (by simp)
    | cons l ls =>
      have hl : l ≠ .newline := by simpa using hhead
      rw [substance_cons hl] at h
      obtain ⟨rfl, hc⟩ := List.cons.inj h
      obtain ⟨rest, rfl, hrest, hlaid'⟩ :=
        ih hxs.2 hc (hlaid.tail) (hlaid.head_ne hxs.1)
      exact ⟨rest, rfl, hrest, hlaid'⟩

namespace Grammar

/-! ## 2. The lines of trees -/

@[simp] theorem Word.endsLine_lexeme (w : Word) : w.lexeme.endsLine = false := by
  rw [Word.lexeme, Lexeme.ofWord]
  split <;> rfl

@[simp] theorem inline_dotted (vs : List Word) : Inline (dotted vs) := by
  induction vs with
  | nil => exact inline_nil
  | cons v vs ih =>
    show Inline (.punct .dot :: v.lexeme :: dotted vs)
    simp [ih]

@[simp] theorem Path.inline (p : Path) : Inline p.lexemes := by simp [lexemes]

@[simp] theorem Numeral.endsLine_lexeme (n : Numeral) : n.lexeme.endsLine = false := rfl

@[simp] theorem ImportPath.endsLine_lexeme (p : ImportPath) : p.lexeme.endsLine = false := rfl

@[simp] theorem Literal.endsLine_lexeme (x : Literal) : x.lexeme.endsLine = false := by
  cases x with
  | number n => exact n.endsLine_lexeme
  | text q => exact Lexeme.endsLine_string _
  | boolean b => cases b <;> exact Lexeme.endsLine_keyword _

@[simp] theorem TypeTree.inline (t : TypeTree) : Inline t.lexemes := by
  induction t with
  | primitive p => simp [lexemes]
  | map key value hkey hvalue => simp [lexemes, hkey, hvalue]
  | named path free => simp [lexemes]

@[simp] theorem SettingTree.inline (o : SettingTree) : Inline o.lexemes := by
  cases hk : o.key <;> simp [lexemes, hk, KeyTree.lexemes]

@[simp] theorem inline_bracketRow (os : List SettingTree) : Inline (bracketRow os) := by
  induction os with
  | nil => exact inline_nil
  | cons o os ih =>
    have hrow : bracketRow (o :: os) = o.bracket ++ bracketRow os := rfl
    rw [hrow, inline_append]
    refine ⟨?_, ih⟩
    simp [SettingTree.bracket]

@[simp] theorem inline_modifier (m : Option FieldModifier) :
    Inline (m.toList.map fun m => .keyword (modifierKeyword m)) := by
  cases m <;> simp

theorem inline_publics (n : Nat) : Inline (List.replicate n (.keyword .kwPublic)) := by
  intro l hl
  rw [(List.mem_replicate.mp hl).2]
  rfl

/-- The lexemes of one line: none but the last ends a line, and that one does. -/
def IsLine (ls : List Lexeme) : Prop :=
  ∃ xs e, ls = xs ++ [e] ∧ Inline xs ∧ e ≠ .newline ∧ e.endsLine = true

theorem isLine_semicolon {xs : List Lexeme} (h : Inline xs) :
    IsLine (xs ++ [Lexeme.punct .semicolon]) :=
  ⟨xs, _, rfl, h, by simp, rfl⟩

theorem SettingTree.isLine (o : SettingTree) : IsLine o.statement := by
  have h : Inline (.keyword .kwOption :: o.lexemes) := by simp
  exact isLine_semicolon h

theorem EntryTree.isLine (e : EntryTree) : IsLine e.lexemes := by
  have h : Inline (e.name.lexeme :: .punct .equals :: e.tag.lexeme :: bracketRow e.options) := by
    simp
  exact isLine_semicolon h

theorem FieldTree.isLine (f : FieldTree) : IsLine f.lexemes := by
  have h : Inline (f.modifier.toList.map (fun m => Lexeme.keyword (modifierKeyword m)) ++
      (f.type.lexemes ++ f.name.lexeme :: .punct .equals :: f.tag.lexeme ::
        bracketRow f.options)) := by
    simp
  have hline := isLine_semicolon h
  simpa [lexemes] using hline

/-- The front of a message or of an enumeration. -/
def opening (k : Keyword) (name : Word) : List Lexeme :=
  [.keyword k, name.lexeme, .punct .lbrace]

theorem isLine_opening (k : Keyword) (name : Word) : IsLine (opening k name) :=
  ⟨[.keyword k, name.lexeme], _, rfl, by simp, by simp, rfl⟩

theorem isLine_rbrace : IsLine [.punct .rbrace] := ⟨[], _, rfl, inline_nil, by simp, rfl⟩

theorem IsLine.exists_behind {w ls c : List Lexeme} (hw : IsLine w)
    (h : substance ls = substance w ++ c) (hlaid : Laid ls)
    (hhead : ls.head? ≠ some .newline) :
    ∃ rest, ls = w ++ rest ∧ substance rest = c ∧ Laid rest := by
  obtain ⟨xs, e, rfl, hxs, he, -⟩ := hw
  rw [substance_append, hxs.substance, substance_cons he, substance_nil, List.append_assoc] at h
  obtain ⟨rest, rfl, hrest, hlaid'⟩ := exists_behind_line hxs he h hlaid hhead
  exact ⟨rest, by simp, hrest, hlaid'⟩

/-! ## 3. The leaves of a tree are laid out -/

/-- Some lines, one behind the other. -/
structure Lines (ls : List Lexeme) : Prop where
  laid : Laid ls
  ends : ∀ l ∈ ls.getLast?, l.endsLine = true

theorem lines_nil : Lines [] := ⟨.nil, by simp⟩

theorem Lines.append {ls ms : List Lexeme} (h : Lines ls) (k : Lines ms) : Lines (ls ++ ms) where
  laid := List.isChain_append.mpr ⟨h.laid, k.laid, fun l hl _ _ _ => h.ends l hl⟩
  ends := by
    intro l hl
    rw [List.getLast?_append] at hl
    cases hm : ms.getLast? with
    | none =>
      rw [hm] at hl
      exact h.ends l hl
    | some m =>
      rw [hm] at hl
      exact k.ends l (hm ▸ hl)

theorem lines_flatMap {τ : Type} {f : τ → List Lexeme} {ts : List τ}
    (h : ∀ t ∈ ts, Lines (f t)) : Lines (ts.flatMap f) := by
  induction ts with
  | nil => exact lines_nil
  | cons t ts ih =>
    rw [List.flatMap_cons]
    exact (h t List.mem_cons_self).append (ih fun s hs => h s (List.mem_cons_of_mem _ hs))

theorem lines_newline : Lines [.newline] := ⟨.singleton _, by simp [Lexeme.endsLine]⟩

theorem IsLine.lines {ls : List Lexeme} (h : IsLine ls) : Lines ls := by
  obtain ⟨xs, e, rfl, hxs, he, hends⟩ := h
  refine ⟨?_, by simp [hends]⟩
  have hsubstance : ∀ l ∈ xs ++ [e], l ≠ .newline := by
    intro l hl
    rcases List.mem_append.mp hl with hl | hl
    · exact ne_newline_of_not_endsLine (hxs l hl)
    · rwa [List.mem_singleton.mp hl]
  refine List.Pairwise.isChain (List.pairwise_of_forall_mem_list fun l _ m hm hbreak => ?_)
  exact absurd hbreak (hsubstance m hm)

/-- A body between its braces. -/
theorem lines_body {w body : List Lexeme} (hw : IsLine w) (hbody : Lines body) :
    Lines (w ++ (body ++ [Lexeme.punct .rbrace])) :=
  hw.lines.append (hbody.append isLine_rbrace.lines)

theorem EnumLine.lines (l : EnumLine) : Lines l.lexemes := by
  cases l with
  | newline => exact lines_newline
  | setting o => exact o.isLine.lines
  | entry e => exact e.isLine.lines

theorem EnumTree.lines (e : EnumTree) : Lines e.lexemes :=
  lines_body (isLine_opening .kwEnum e.name) (lines_flatMap fun l _ => l.lines)

namespace MessageLine

mutual

theorem lines (l : MessageLine) : Lines l.lexemes := by
  cases l with
  | newline =>
    rw [lexemes]
    exact lines_newline
  | setting o =>
    rw [lexemes]
    exact o.isLine.lines
  | message name body =>
    rw [lexemes]
    exact lines_body (isLine_opening .kwMessage name) (allLines body)
  | enumeration e =>
    rw [lexemes]
    exact e.lines
  | field f =>
    rw [lexemes]
    exact f.isLine.lines

theorem allLines (ls : List MessageLine) : Lines (allLexemes ls) := by
  cases ls with
  | nil => exact lines_nil
  | cons l ls =>
    rw [allLexemes]
    exact (lines l).append (allLines ls)

end

end MessageLine

namespace DocumentLine

theorem isLine_syntaxDecl (value : Word) : IsLine (syntaxDecl value).lexemes := by
  have h : Inline [.keyword .kwSyntax, .punct .equals, .string value.text] := by
    simp
  exact isLine_semicolon h

theorem isLine_packageDecl (path : Path) : IsLine (packageDecl path).lexemes := by
  have h : Inline (.keyword .kwPackage :: path.lexemes) := by simp
  exact isLine_semicolon h

theorem isLine_importDecl (n : Nat) (path : ImportPath) : IsLine (importDecl n path).lexemes := by
  have h : Inline (.keyword .kwImport :: (List.replicate n (Lexeme.keyword .kwPublic) ++
      [path.lexeme])) := by
    simp [inline_publics]
  have hline := isLine_semicolon h
  simpa [lexemes] using hline

theorem lines (l : DocumentLine) : Lines l.lexemes := by
  cases l with
  | newline => exact lines_newline
  | syntaxDecl value => exact (isLine_syntaxDecl value).lines
  | packageDecl path => exact (isLine_packageDecl path).lines
  | importDecl n path => exact (isLine_importDecl n path).lines
  | setting o => exact o.isLine.lines
  | message name body => exact MessageLine.lines _
  | enumeration e => exact e.lines

end DocumentLine

/-- **In the leaves of a tree every line break is behind something that ends a line.** -/
theorem DocumentTree.laid_lexemes (t : DocumentTree) : Laid t.lexemes :=
  (lines_flatMap fun l _ => l.lines).laid

/-! ## 4. Other line breaks -/

section Relaying

variable {τ : Type} {f : τ → List Lexeme} {P : Rules → τ → Prop}

/-- Wherever a text has the substance of this tree in front, some tree that is allowed where this
one is stands there, whole. -/
def Relays (f : τ → List Lexeme) (P : Rules → τ → Prop) (t : τ) : Prop :=
  ∀ ls c, substance ls = substance (f t) ++ c → Laid ls → ls.head? ≠ some .newline →
    ∃ t' rest, ls = f t' ++ rest ∧ substance rest = c ∧ Laid rest ∧
      ∀ rules, P rules t → P rules t'

theorem IsLine.relays {t : τ} (h : IsLine (f t)) : Relays f P t := by
  intro ls c hls hlaid hhead
  obtain ⟨rest, hrest, hc, hlaid'⟩ := h.exists_behind hls hlaid hhead
  exact ⟨t, rest, hrest, hc, hlaid', fun _ ha => ha⟩

/-- **Lines are found again with other breaks between them.**  The breaks of the text become lines
of their own. -/
theorem exists_relaid (newline : τ) (hnewline : f newline = [.newline])
    (hallowed : ∀ rules, P rules newline) {ts : List τ}
    (hts : ∀ t ∈ ts, t = newline ∨ Relays f P t) {ls c : List Lexeme}
    (h : substance ls = substance (ts.flatMap f) ++ c) (hlaid : Laid ls) :
    ∃ (ts' : List τ) (rest : List Lexeme), ls = ts'.flatMap f ++ rest ∧ substance rest = c ∧
      Laid rest ∧ rest.head? ≠ some .newline ∧
      ∀ rules, (∀ t ∈ ts, P rules t) → ∀ t ∈ ts', P rules t := by
  have hbreaks : ∀ k, (List.replicate k newline).flatMap f = List.replicate k .newline := by
    intro k
    induction k with
    | zero => rfl
    | succ k ih => rw [List.replicate_succ, List.flatMap_cons, ih, hnewline]; rfl
  have hall : ∀ k rules, ∀ t ∈ List.replicate k newline, P rules t := by
    intro k rules t ht
    rw [(List.mem_replicate.mp ht).2]
    exact hallowed rules
  induction ts generalizing ls with
  | nil =>
    obtain ⟨k, rest, rfl, hhead⟩ := exists_breaks ls
    rw [substance_breaks] at h
    exact ⟨List.replicate k newline, rest, by rw [hbreaks], h, hlaid.of_append, hhead,
      fun rules _ => hall k rules⟩
  | cons t ts ih =>
    rw [List.flatMap_cons, substance_append, List.append_assoc] at h
    have hrest : ∀ s ∈ ts, s = newline ∨ Relays f P s :=
      fun s hs => hts s (List.mem_cons_of_mem _ hs)
    rcases hts t List.mem_cons_self with rfl | hrelays
    · rw [hnewline] at h
      obtain ⟨ts', rest, hls, hc, hlaid', hhead, ha⟩ := ih hrest h hlaid
      exact ⟨ts', rest, hls, hc, hlaid', hhead, fun rules hs =>
        ha rules fun s hmem => hs s (List.mem_cons_of_mem _ hmem)⟩
    · obtain ⟨k, mid, rfl, hmid⟩ := exists_breaks ls
      rw [substance_breaks] at h
      obtain ⟨t', behind, rfl, hsub, hlaid', ht'⟩ := hrelays mid _ h hlaid.of_append hmid
      obtain ⟨ts', rest, rfl, hc, hlaid'', hhead, ha⟩ := ih hrest hsub hlaid'
      refine ⟨List.replicate k newline ++ t' :: ts', rest, ?_, hc, hlaid'', hhead, ?_⟩
      · rw [List.flatMap_append, hbreaks, List.flatMap_cons, List.append_assoc, List.append_assoc]
      · intro rules hs s hmem
        rcases List.mem_append.mp hmem with hmem | hmem
        · exact hall k rules s hmem
        · rcases List.mem_cons.mp hmem with rfl | hmem
          · exact ht' rules (hs t List.mem_cons_self)
          · exact ha rules (fun s hs' => hs s (List.mem_cons_of_mem _ hs')) s hmem

/-- A body is found again between its braces. -/
theorem exists_relaid_body (newline : τ) (hnewline : f newline = [.newline])
    (hallowed : ∀ rules, P rules newline) {ts : List τ}
    (hts : ∀ t ∈ ts, t = newline ∨ Relays f P t) {w ls c : List Lexeme} (hw : IsLine w)
    (h : substance ls = substance (w ++ (ts.flatMap f ++ [Lexeme.punct .rbrace])) ++ c)
    (hlaid : Laid ls) (hhead : ls.head? ≠ some .newline) :
    ∃ (ts' : List τ) (rest : List Lexeme),
      ls = w ++ (ts'.flatMap f ++ [Lexeme.punct .rbrace]) ++ rest ∧ substance rest = c ∧ Laid rest ∧
      ∀ rules, (∀ t ∈ ts, P rules t) → ∀ t ∈ ts', P rules t := by
  rw [substance_append, substance_append, List.append_assoc, List.append_assoc] at h
  obtain ⟨inside, rfl, hinside, hlaid'⟩ := hw.exists_behind h hlaid hhead
  obtain ⟨ts', close, rfl, hclose, hlaid'', hhead', ha⟩ :=
    exists_relaid newline hnewline hallowed hts hinside hlaid'
  obtain ⟨rest, rfl, hrest, hlaid'''⟩ := isLine_rbrace.exists_behind hclose hlaid'' hhead'
  exact ⟨ts', rest, by simp, hrest, hlaid''', ha⟩

end Relaying

theorem EnumLine.relays (l : EnumLine) :
    l = newline ∨ Relays EnumLine.lexemes EnumLine.Allowed l := by
  cases l with
  | newline => exact .inl rfl
  | setting o => exact .inr (IsLine.relays o.isLine)
  | entry e => exact .inr (IsLine.relays e.isLine)

theorem EnumTree.relays (e : EnumTree) : Relays EnumTree.lexemes EnumTree.Allowed e := by
  intro ls c h hlaid hhead
  obtain ⟨body, rest, rfl, hrest, hlaid', ha⟩ :=
    exists_relaid_body .newline rfl (fun _ => trivial) (fun l _ => EnumLine.relays l)
      (isLine_opening .kwEnum e.name) h hlaid hhead
  exact ⟨⟨e.name, body⟩, rest, rfl, hrest, hlaid', ha⟩

namespace MessageLine

mutual

theorem relays (l : MessageLine) : l = newline ∨ Relays lexemes Allowed l := by
  cases l with
  | newline => exact .inl rfl
  | setting o =>
    refine .inr (IsLine.relays ?_)
    rw [lexemes]
    exact o.isLine
  | message name body =>
    refine .inr fun ls c h hlaid hhead => ?_
    have hbody := allRelay body
    rw [lexemes, allLexemes_eq] at h
    obtain ⟨body', rest, rfl, hrest, hlaid', ha⟩ :=
      exists_relaid_body .newline (by rw [lexemes]) (fun _ => by rw [Allowed]; trivial) hbody
        (isLine_opening .kwMessage name) h hlaid hhead
    refine ⟨message name body', rest, ?_, hrest, hlaid', fun rules hrules => ?_⟩
    · rw [lexemes, allLexemes_eq]
      rfl
    · rw [Allowed, allAllowed_iff] at hrules ⊢
      exact ha rules hrules
  | enumeration e =>
    refine .inr fun ls c h hlaid hhead => ?_
    rw [lexemes] at h
    obtain ⟨e', rest, rfl, hrest, hlaid', ha⟩ := e.relays ls c h hlaid hhead
    refine ⟨enumeration e', rest, by rw [lexemes], hrest, hlaid', fun rules hrules => ?_⟩
    rw [Allowed] at hrules ⊢
    exact ⟨hrules.1, ha rules hrules.2⟩
  | field f =>
    refine .inr (IsLine.relays ?_)
    rw [lexemes]
    exact f.isLine

theorem allRelay (ls : List MessageLine) :
    ∀ l ∈ ls, l = newline ∨ Relays lexemes Allowed l := by
  cases ls with
  | nil => exact fun l hl => absurd hl (by simp)
  | cons l ls =>
    intro m hm
    rcases List.mem_cons.mp hm with hml | hm
    · rw [hml]
      exact relays l
    · exact allRelay ls m hm

end

end MessageLine

theorem DocumentLine.relays (l : DocumentLine) :
    l = newline ∨ Relays DocumentLine.lexemes DocumentLine.Allowed l := by
  cases l with
  | newline => exact .inl rfl
  | syntaxDecl value => exact .inr (IsLine.relays (isLine_syntaxDecl value))
  | packageDecl path => exact .inr (IsLine.relays (isLine_packageDecl path))
  | importDecl n path => exact .inr (IsLine.relays (isLine_importDecl n path))
  | setting o => exact .inr (IsLine.relays o.isLine)
  | message name body =>
    refine .inr fun ls c h hlaid hhead => ?_
    have hlexemes : (message name body).lexemes =
        opening .kwMessage name ++
          (body.flatMap MessageLine.lexemes ++ [Lexeme.punct .rbrace]) := by
      rw [lexemes, MessageLine.lexemes, MessageLine.allLexemes_eq]
      rfl
    rw [hlexemes] at h
    obtain ⟨body', rest, rfl, hrest, hlaid', ha⟩ :=
      exists_relaid_body .newline (by rw [MessageLine.lexemes])
        (fun _ => by rw [MessageLine.Allowed]; trivial) (MessageLine.allRelay body)
        (isLine_opening .kwMessage name) h hlaid hhead
    refine ⟨message name body', rest, ?_, hrest, hlaid', fun rules hrules => ?_⟩
    · rw [lexemes, MessageLine.lexemes, MessageLine.allLexemes_eq]
      rfl
    · rw [Allowed, MessageLine.allAllowed_iff] at hrules ⊢
      exact ha rules hrules
  | enumeration e =>
    refine .inr fun ls c h hlaid hhead => ?_
    obtain ⟨e', rest, rfl, hrest, hlaid', ha⟩ := e.relays ls c h hlaid hhead
    exact ⟨enumeration e', rest, rfl, hrest, hlaid', ha⟩

/-- **Line breaks may stand wherever a line ends.**  A text that is laid out and has the substance
of a tree is derived by a tree with the same lines, breaks apart. -/
theorem DocumentTree.exists_laid_tree (t : DocumentTree) {ls : List Lexeme}
    (h : substance ls = substance t.lexemes) (hlaid : Laid ls) :
    ∃ t' : DocumentTree, t'.lexemes = ls ∧
      ∀ rules, (∀ l ∈ t.lines, l.Allowed rules) → ∀ l ∈ t'.lines, l.Allowed rules := by
  have happend : substance ls = substance (t.lines.flatMap DocumentLine.lexemes) ++ [] := by
    rw [List.append_nil]
    exact h
  obtain ⟨lines, rest, hls, hrest, -, hhead, ha⟩ :=
    exists_relaid .newline rfl (fun _ => trivial) (fun l _ => DocumentLine.relays l)
      happend hlaid
  refine ⟨⟨lines⟩, ?_, ha⟩
  rw [hls, eq_nil_of_substance hrest hhead, List.append_nil]
  rfl

end Grammar
end SchemaLang
