/-
# What both dialects read

A text that both dialects read means the same in both (`eq_of_substance`), so all that is left to
say is which texts they share.

The strict dialect is the narrower one, but for imports: what it reads the legacy dialect reads too,
unless an import writes `public` twice (`parse_legacy_of_strict`).  In the other direction the
strict dialect asks for more (`AlsoStrict`): three things of the text, that its comments end, that
it is not empty and that its lines break where lines end, and four of the document.  It asks for
nothing else (`parse_strict_iff_alsoStrict`).

The tree of one dialect serves for the other.  The line breaks behind comments are lexemes in one
of them only, so the tree is laid out again for the lexemes of the other (`ofTokens_of_substance`).
-/
import SchemaLang.Proofs.Document.Layout
import SchemaLang.Proofs.Document.Sense
import SchemaLang.Proofs.Scanner.Steps

namespace SchemaLang

open Text Grammar

variable {d d' : Dialect} {source : String} {doc doc' : Document}

/-! ## 1. From one dialect to the other -/

/-- Streams of one substance are read as one document, whichever dialects they are read in. -/
theorem eq_of_substance {s s' : TokenStream} (hs : s.WellFormed) (hs' : s'.WellFormed)
    (h : Document.ofTokens d.rules s = .ok doc) (h' : Document.ofTokens d'.rules s' = .ok doc')
    (hsubstance : substance s'.lexemes = substance s.lexemes) : doc' = doc := by
  obtain ⟨-, t, ht, hpreferred, rfl⟩ := ofTokens_sound hs h
  obtain ⟨-, t', ht', hpreferred', rfl⟩ := ofTokens_sound hs' h'
  have hsense : sense t'.lexemes = sense t.lexemes := by
    rw [ht.lexemes, ht'.lexemes]
    exact congrArg (fun ls => (collapse .elsewhere ls).map Lexeme.sense) hsubstance
  refine (conforming_document ht'.allowed hpreferred').eq_of_lexemes
    (conforming_document ht.allowed hpreferred) ?_
  rw [t.lexemes_document, t'.lexemes_document, hsense]

/-- A stream with the substance of a well-formed one is well-formed, as a break always is. -/
theorem TokenStream.WellFormed.of_substance {s s' : TokenStream} (hs : s.WellFormed)
    (h : substance s'.lexemes = substance s.lexemes) : s'.WellFormed := by
  intro t ht
  by_cases hbreak : t.lexeme = .newline
  · rw [hbreak]
    trivial
  · have hmem : t.lexeme ∈ substance s.lexemes := by
      rw [← h]
      exact List.mem_filter.mpr ⟨List.mem_map_of_mem ht, by simpa using hbreak⟩
    obtain ⟨u, hu, hlexeme⟩ := List.mem_map.mp (List.mem_filter.mp hmem).1
    rw [← hlexeme]
    exact hs u hu

/-- **A stream is read again with its lines broken elsewhere**, also in another dialect: where it
keeps its substance and is laid out, and the lines of its tree are allowed there. -/
theorem ofTokens_of_substance {s s' : TokenStream} (hs : s.WellFormed)
    (h : Document.ofTokens d.rules s = .ok doc) (hend : s'.error? = none)
    (hsubstance : substance s'.lexemes = substance s.lexemes) (hlaid : Laid s'.lexemes)
    (hnonempty : d'.rules.allowsEmptyDocument = false → s'.lexemes ≠ [])
    (hlines : ∀ t : DocumentTree, t.Derives d s.lexemes → t.document = doc →
      ∀ l ∈ t.lines, l.Allowed d'.rules) :
    Document.ofTokens d'.rules s' = .ok doc := by
  obtain ⟨-, t, ht, -, hdoc⟩ := ofTokens_sound hs h
  have hs' := hs.of_substance hsubstance
  obtain ⟨t', hleaves, hallowed⟩ :=
    t.exists_laid_tree (hsubstance.trans (congrArg substance ht.lexemes.symm)) hlaid
  have hderives : t'.Derives d' s'.lexemes := {
    allowed := {
      lines := hallowed d'.rules (hlines t ht hdoc)
      nonempty := by
        intro hempty hnil
        refine hnonempty hempty ?_
        rw [← hleaves, DocumentTree.lexemes, hnil, List.flatMap_nil] }
    lexemes := hleaves }
  have hread := ofTokens_complete hs' hend hderives
  rw [hread, eq_of_substance hs hs' h hread hsubstance]

/-- **A text is read in the other dialect too** where that one finds no fault with it, its lines
break where lines end, and the lines of its tree are allowed there. -/
theorem parse_of_parse (h : Document.parse d source = .ok doc)
    (hend : (scan d'.rules source).error? = none) (hlaid : Laid (scan d'.rules source).lexemes)
    (hnonempty : d'.rules.allowsEmptyDocument = false → (scan d'.rules source).lexemes ≠ [])
    (hlines : ∀ t : DocumentTree, t.Derives d (scan d.rules source).lexemes → t.document = doc →
      ∀ l ∈ t.lines, l.Allowed d'.rules) :
    Document.parse d' source = .ok doc := by
  have hs := wellFormed_scan d.rules source
  have hend₀ := (ofTokens_sound hs h).1
  exact ofTokens_of_substance hs h hend (contents_eq hend hend₀) hlaid hnonempty hlines

/-- A dialect that has no empty texts derives none. -/
theorem Grammar.DocumentTree.Derives.ne_nil {t : DocumentTree} {ls : List Lexeme}
    (h : t.Derives d ls) (hempty : d.rules.allowsEmptyDocument = false) : ls ≠ [] := by
  rintro rfl
  refine h.allowed.nonempty hempty (List.eq_nil_iff_forall_not_mem.mpr fun l hl => ?_)
  exact l.lexemes_ne_nil (List.flatMap_eq_nil_iff.mp h.lexemes l hl)

/-- The lines of a text that is read break where lines end. -/
theorem laid_of_parse (h : Document.parse d source = .ok doc) :
    Laid (scan d.rules source).lexemes := by
  obtain ⟨-, t, ht, -, -⟩ := ofTokens_sound (wellFormed_scan d.rules source) h
  rw [← ht.lexemes]
  exact t.laid_lexemes

/-! ## 2. Strict texts in the legacy dialect -/

theorem Grammar.EnumTree.allowed_legacy (e : EnumTree) : e.Allowed Dialect.legacy.rules := by
  intro l _
  cases l with
  | newline => trivial
  | setting o => trivial
  | entry e => exact fun h => absurd h (by decide)

namespace Grammar.MessageLine

mutual

/-- The legacy dialect allows every line of a message. -/
theorem allowed_legacy (l : MessageLine) : l.Allowed Dialect.legacy.rules := by
  cases l with
  | newline =>
    rw [Allowed]
    trivial
  | setting o =>
    rw [Allowed]
    trivial
  | message name body =>
    rw [Allowed]
    exact allAllowed_legacy body
  | enumeration e =>
    rw [Allowed]
    exact ⟨rfl, e.allowed_legacy⟩
  | field f =>
    rw [Allowed]
    exact fun h => absurd h (by decide)

theorem allAllowed_legacy (ls : List MessageLine) : AllAllowed Dialect.legacy.rules ls := by
  cases ls with
  | nil => trivial
  | cons l ls => exact ⟨allowed_legacy l, allAllowed_legacy ls⟩

end

end Grammar.MessageLine

/-- The legacy dialect allows every line but an import that writes `public` more than once. -/
theorem Grammar.DocumentLine.allowed_legacy {l : DocumentLine}
    (h : ∀ n path, l = .importDecl n path → n ≤ 1) : l.Allowed Dialect.legacy.rules := by
  cases l with
  | newline => trivial
  | syntaxDecl value => exact fun values hvalues => absurd hvalues (by simp [Dialect.rules])
  | packageDecl path => trivial
  | importDecl n path => exact fun _ => h n path rfl
  | setting o => trivial
  | message name body => exact MessageLine.allAllowed_legacy body
  | enumeration e => exact e.allowed_legacy

/-- No import of a strict text writes `public` more than once. -/
def WritesPublicOnce (source : String) : Prop :=
  ∀ t : DocumentTree, t.Derives .strict (scan Dialect.strict.rules source).lexemes →
    ∀ n path, .importDecl n path ∈ t.lines → n ≤ 1

/-- It is enough to look for the word twice in a row behind the word `import`. -/
theorem writesPublicOnce_of_not_repeated
    (h : ¬[.keyword .kwImport, .keyword .kwPublic, .keyword .kwPublic] <:+:
      (scan Dialect.strict.rules source).lexemes) : WritesPublicOnce source := by
  intro t ht n path hline
  by_contra hn
  obtain ⟨m, rfl⟩ : ∃ m, n = m + 2 := ⟨n - 2, by omega⟩
  refine h ?_
  obtain ⟨before, behind, hlines⟩ := List.append_of_mem hline
  rw [← ht.lexemes, DocumentTree.lexemes, hlines, List.flatMap_append, List.flatMap_cons]
  exact ⟨before.flatMap DocumentLine.lexemes,
    List.replicate m (Lexeme.keyword .kwPublic) ++ [path.lexeme, .punct .semicolon] ++
      behind.flatMap DocumentLine.lexemes, by simp [DocumentLine.lexemes, List.replicate_succ]⟩

/-- **The legacy dialect reads what the strict one reads**, and as the same document, where
no import writes `public` more than once. -/
theorem parse_legacy_of_strict (source : String) (doc : Document)
    (h : Document.parse .strict source = .ok doc) (honce : WritesPublicOnce source) :
    Document.parse .legacy source = .ok doc := by
  have hend := (ofTokens_sound (wellFormed_scan Dialect.strict.rules source) h).1
  obtain ⟨hlegacy, hlaid⟩ := legacy_of_strict .start .start source.toList hend
  refine parse_of_parse h hlegacy ?_ (fun hempty => absurd hempty (by decide)) ?_
  · exact laid_newline_cons.mp (hlaid .newline (laid_newline_cons.mpr (laid_of_parse h)))
  · intro t ht _ l hl
    exact DocumentLine.allowed_legacy fun n path hline => honce t ht n path (hline ▸ hl)

/-- A comment behind an import: its break is a lexeme in the strict dialect alone. -/
theorem parse_legacy_import :
    Document.parse .legacy "import public \"a\"; // b\n" = .ok ⟨[.importDecl ⟨"a", true⟩]⟩ := by
  have hstrict : scan Dialect.strict.rules "import public \"a\"; // b\n" =
      .token ⟨.keyword .kwImport, ⟨1, 1⟩⟩ (.token ⟨.keyword .kwPublic, ⟨1, 8⟩⟩
        (.token ⟨.string "a", ⟨1, 15⟩⟩ (.token ⟨.punct .semicolon, ⟨1, 18⟩⟩
          (.token ⟨.newline, ⟨1, 24⟩⟩ (.done ⟨2, 1⟩))))) := by
    rw [scan_eq_scanWithin]
    decide
  refine parse_legacy_of_strict _ _ ?_ (writesPublicOnce_of_not_repeated ?_)
  · rw [Document.parse, hstrict]
    decide
  · rw [hstrict]
    decide

/-! ## 3. What is inside of messages -/

namespace MessageItem

mutual

/-- The items inside of an item, at any depth. -/
def inside : MessageItem → List MessageItem
  | setting _ => []
  | message _ body => allInside body
  | enumeration _ => []
  | field _ => []

/-- Some items and those inside of them, at any depth. -/
def allInside : List MessageItem → List MessageItem
  | [] => []
  | i :: is => i :: (inside i ++ allInside is)

end

theorem allInside_append : ∀ is js : List MessageItem,
    allInside (is ++ js) = allInside is ++ allInside js
  | [], _ => rfl
  | i :: is, js => by simp [allInside, allInside_append is js]

mutual

/-- What is inside of a conforming item conforms. -/
theorem conforming_inside (i : MessageItem) (h : i.Conforming d) :
    ∀ j ∈ i.inside, j.Conforming d := by
  cases i with
  | setting o => simp [inside]
  | message name body =>
    rw [Conforming] at h
    rw [inside]
    exact conforming_allInside body h.2
  | enumeration e => simp [inside]
  | field f => simp [inside]

theorem conforming_allInside (is : List MessageItem) (h : AllConforming d is) :
    ∀ j ∈ allInside is, j.Conforming d := by
  cases is with
  | nil => simp [allInside]
  | cons i is =>
    rw [AllConforming] at h
    rw [allInside]
    intro j hj
    rcases List.mem_cons.mp hj with rfl | hj
    · exact h.1
    · rcases List.mem_append.mp hj with hj | hj
      · exact conforming_inside i h.1 j hj
      · exact conforming_allInside is h.2 j hj

end

/-- An item that the strict dialect has, whatever is inside of it. -/
def IsStrict : MessageItem → Prop
  | setting _ => True
  | message _ _ => True
  | enumeration _ => False
  | field f => f.options = []

end MessageItem

/-- The items inside of the messages of a statement, at any depth. -/
def Statement.inside : Statement → List MessageItem
  | message m => MessageItem.allInside m.body
  | _ => []

/-- The items inside of the messages of a document, at any depth. -/
def Document.inside (doc : Document) : List MessageItem := doc.statements.flatMap Statement.inside

theorem Statement.Conforming.inside {s : Statement} (h : s.Conforming d) :
    ∀ i ∈ s.inside, i.Conforming d := by
  cases s with
  | message m =>
    have hm : (MessageItem.message m.name m.body).Conforming d := h
    rw [MessageItem.Conforming] at hm
    exact MessageItem.conforming_allInside m.body hm.2
  | syntaxDecl value => exact fun i hi => absurd hi (by simp [Statement.inside])
  | packageDecl name => exact fun i hi => absurd hi (by simp [Statement.inside])
  | importDecl i => exact fun i hi => absurd hi (by simp [Statement.inside])
  | setting o => exact fun i hi => absurd hi (by simp [Statement.inside])
  | enumeration e => exact fun i hi => absurd hi (by simp [Statement.inside])

theorem Document.Conforming.inside (h : doc.Conforming d) : ∀ i ∈ doc.inside, i.Conforming d := by
  intro i hi
  obtain ⟨s, hs, hi⟩ := List.mem_flatMap.mp hi
  exact (h s hs).inside i hi

/-! ## 4. Legacy texts in the strict dialect -/

/-- What the strict dialect asks of a legacy text and of the document it means. -/
structure AlsoStrict (source : String) (doc : Document) : Prop where
  /-- Comments have a line break behind them. -/
  closed : ¬endsInComment source
  nonempty : (scan Dialect.strict.rules source).lexemes ≠ []
  /-- Lines break at the start of the text and behind what ends a line. -/
  laid : Laid (scan Dialect.strict.rules source).lexemes
  syntaxValues : ∀ value, .syntaxDecl value ∈ doc.statements → value = "proto2" ∨ value = "proto3"
  /-- No message has an enumeration, at any depth. -/
  noNested : ∀ e, .enumeration e ∉ doc.inside
  fieldOptions : ∀ f, .field f ∈ doc.inside → f.options = []
  entryOptions : ∀ e, .enumeration e ∈ doc.statements ∨ .enumeration e ∈ doc.inside →
    ∀ v, .entry v ∈ e.body → v.options = []

/-- A document of the strict dialect has nothing that only the legacy dialect has. -/
theorem Document.Conforming.alsoStrict (h : doc.Conforming .strict)
    (hclosed : ¬endsInComment source)
    (hnonempty : (scan Dialect.strict.rules source).lexemes ≠ [])
    (hlaid : Laid (scan Dialect.strict.rules source).lexemes) : AlsoStrict source doc := by
  have hnested : ∀ e, .enumeration e ∉ doc.inside := by
    intro e he
    have hconforming := h.inside _ he
    rw [MessageItem.Conforming] at hconforming
    exact hconforming.1 rfl
  refine ⟨hclosed, hnonempty, hlaid, ?_, hnested, ?_, ?_⟩
  · intro value hvalue
    have hvalues : value ∈ ["proto2", "proto3"] := h _ hvalue
    simpa using hvalues
  · intro f hf
    have hconforming := h.inside _ hf
    rw [MessageItem.Conforming] at hconforming
    exact hconforming.strict rfl
  · rintro e (he | he) v hv
    · have hconforming : e.Conforming .strict := h _ he
      exact EnumEntry.Conforming.strict (hconforming.body _ hv) rfl
    · exact absurd he (hnested e)

namespace Grammar

/-- Entries without options are allowed in the strict dialect. -/
theorem EnumTree.allowed_strict {e : EnumTree}
    (h : ∀ v, .entry v ∈ e.enumeration.body → v.options = []) :
    e.Allowed Dialect.strict.rules := by
  intro l hl
  cases l with
  | newline => trivial
  | setting o => trivial
  | entry v =>
    refine fun _ => List.map_eq_nil_iff.mp (h v.entry ?_)
    exact List.mem_filterMap.mpr ⟨_, hl, rfl⟩

namespace MessageLine

mutual

/-- A line is allowed in the strict dialect where the items it means are strict, at any depth. -/
theorem allowed_strict (l : MessageLine)
    (h : ∀ i ∈ MessageItem.allInside l.item?.toList, i.IsStrict) :
    l.Allowed Dialect.strict.rules := by
  cases l with
  | newline =>
    rw [Allowed]
    trivial
  | setting o =>
    rw [Allowed]
    trivial
  | message name body =>
    rw [Allowed]
    refine allAllowed_strict body fun i hi => h i ?_
    rw [item?]
    simp [MessageItem.allInside, MessageItem.inside, hi]
  | enumeration e =>
    refine absurd (h (.enumeration e.enumeration) ?_) id
    rw [item?]
    simp [MessageItem.allInside]
  | field f =>
    rw [Allowed]
    have hf : f.field.options = [] := by
      refine h (.field f.field) ?_
      rw [item?]
      simp [MessageItem.allInside]
    exact fun _ => List.map_eq_nil_iff.mp hf

theorem allAllowed_strict (ls : List MessageLine)
    (h : ∀ i ∈ MessageItem.allInside (items ls), i.IsStrict) :
    AllAllowed Dialect.strict.rules ls := by
  cases ls with
  | nil => trivial
  | cons l ls =>
    rw [items, MessageItem.allInside_append] at h
    rw [AllAllowed]
    exact ⟨allowed_strict l fun i hi => h i (List.mem_append_left _ hi),
      allAllowed_strict ls fun i hi => h i (List.mem_append_right _ hi)⟩

end

end MessageLine

/-- The lines of a tree are allowed in the strict dialect where its document has nothing that only
the legacy dialect has. -/
theorem DocumentTree.allowed_strict {t : DocumentTree} (h : AlsoStrict source t.document) :
    ∀ l ∈ t.lines, l.Allowed Dialect.strict.rules := by
  intro l hl
  have hstatement : ∀ s, l.statement? = some s → s ∈ t.document.statements :=
    fun s hs => List.mem_filterMap.mpr ⟨l, hl, hs⟩
  cases l with
  | newline => trivial
  | syntaxDecl value =>
    intro values hvalues
    obtain rfl := Option.some.inj hvalues
    simpa using h.syntaxValues _ (hstatement _ rfl)
  | packageDecl path => trivial
  | importDecl n path => exact fun hrepeats => absurd hrepeats (by decide)
  | setting o => trivial
  | message name body =>
    refine MessageLine.allAllowed_strict body fun i hi => ?_
    have hinside : i ∈ t.document.inside :=
      List.mem_flatMap.mpr ⟨_, hstatement _ rfl, hi⟩
    cases i with
    | setting o => trivial
    | message name body => trivial
    | enumeration e => exact absurd hinside (h.noNested e)
    | field f => exact h.fieldOptions f hinside
  | enumeration e => exact EnumTree.allowed_strict (h.entryOptions _ (.inl (hstatement _ rfl)))

end Grammar

/-- **The strict dialect reads a legacy text where it is also strict, and nowhere else.** -/
theorem parse_strict_iff_alsoStrict (source : String) (doc : Document)
    (h : Document.parse .legacy source = .ok doc) :
    Document.parse .strict source = .ok doc ↔ AlsoStrict source doc := by
  have hend := (ofTokens_sound (wellFormed_scan Dialect.legacy.rules source) h).1
  have hclosed : (scan Dialect.strict.rules source).error? = none ↔ ¬endsInComment source :=
    strict_of_legacy .start .start source.toList hend
  constructor
  · intro hstrict
    obtain ⟨hnone, t, ht, -, -⟩ := ofTokens_sound (wellFormed_scan Dialect.strict.rules source)
      hstrict
    refine (conforming_of_parse hstrict).alsoStrict (hclosed.mp hnone) ?_ (laid_of_parse hstrict)
    intro hnil
    refine ht.allowed.nonempty rfl (List.eq_nil_iff_forall_not_mem.mpr fun l hl => ?_)
    exact l.lexemes_ne_nil (List.flatMap_eq_nil_iff.mp (ht.lexemes.trans hnil) l hl)
  · intro hstrict
    refine parse_of_parse h (hclosed.mpr hstrict.closed) hstrict.laid
      (fun _ => hstrict.nonempty) ?_
    rintro t - rfl
    exact t.allowed_strict hstrict

/-- A comment at the end of a text keeps it from being strict, unless its line ends. -/
theorem parse_strict_comment :
    Document.parse .strict "package a; // b" ≠ .ok ⟨[.packageDecl "a"]⟩ ∧
      Document.parse .strict "package a; // b\n" = .ok ⟨[.packageDecl "a"]⟩ := by
  have hopen : scan Dialect.legacy.rules "package a; // b" =
      .token ⟨.keyword .kwPackage, ⟨1, 1⟩⟩ (.token ⟨.identifier "a", ⟨1, 9⟩⟩
        (.token ⟨.punct .semicolon, ⟨1, 10⟩⟩ (.done ⟨1, 16⟩))) := by
    rw [scan_eq_scanWithin]
    decide
  have hlegacy : scan Dialect.legacy.rules "package a; // b\n" =
      .token ⟨.keyword .kwPackage, ⟨1, 1⟩⟩ (.token ⟨.identifier "a", ⟨1, 9⟩⟩
        (.token ⟨.punct .semicolon, ⟨1, 10⟩⟩ (.done ⟨2, 1⟩))) := by
    rw [scan_eq_scanWithin]
    decide
  have hstrict : (scan Dialect.strict.rules "package a; // b\n").lexemes =
      [.keyword .kwPackage, .identifier "a", .punct .semicolon, .newline] := by
    rw [scan_eq_scanWithin]
    decide
  constructor
  · intro h
    have hread : Document.parse .legacy "package a; // b" = .ok ⟨[.packageDecl "a"]⟩ := by
      rw [Document.parse, hopen]
      decide
    exact ((parse_strict_iff_alsoStrict _ _ hread).mp h).closed (by unfold endsInComment; decide)
  · have hread : Document.parse .legacy "package a; // b\n" = .ok ⟨[.packageDecl "a"]⟩ := by
      rw [Document.parse, hlegacy]
      decide
    refine (parse_strict_iff_alsoStrict _ _ hread).mpr {
      closed := by unfold endsInComment; decide
      nonempty := by simp [hstrict]
      laid := by
        rw [hstrict]
        unfold Laid
        decide
      syntaxValues := by simp
      noNested := by simp [Document.inside, Statement.inside]
      fieldOptions := by simp [Document.inside, Statement.inside]
      entryOptions := by simp [Document.inside, Statement.inside] }

end SchemaLang
