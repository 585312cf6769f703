/-
# Every leaf can be read

The leaves of a syntax tree are lexemes that the scanner makes, and no integer among them is too
long.  A list of lexemes that a tree derives is therefore the list of the lexemes of some tokens
that the grammar reads.
-/
import SchemaLang.Proofs.Grammar.Unambiguous

namespace SchemaLang

open Text

/-- A lexeme that the scanner makes and that no reader refuses for its length. -/
structure Lexeme.Readable (l : Lexeme) : Prop where
  wellFormed : l.WellFormed
  short : ∀ ds, l = .integer ds → ds.toList.length ≤ maxDigits

namespace Grammar

/-- All of these lexemes are readable. -/
def Readable (ls : List Lexeme) : Prop := ∀ l ∈ ls, l.Readable

@[simp] theorem readable_nil : Readable [] := by simp [Readable]

@[simp] theorem readable_cons {l : Lexeme} {ls : List Lexeme} :
    Readable (l :: ls) ↔ l.Readable ∧ Readable ls := List.forall_mem_cons

@[simp] theorem readable_append {ls ms : List Lexeme} :
    Readable (ls ++ ms) ↔ Readable ls ∧ Readable ms := List.forall_mem_append

theorem readable_flatMap {α : Type} {f : α → List Lexeme} {as : List α}
    (h : ∀ a ∈ as, Readable (f a)) : Readable (as.flatMap f) := by
  intro l hl
  obtain ⟨a, ha, hla⟩ := List.mem_flatMap.mp hl
  exact h a ha l hla

/-! ## 1. Leaves -/

@[simp] theorem readable_keyword (k : Keyword) : (Lexeme.keyword k).Readable := ⟨trivial, nofun⟩

@[simp] theorem readable_punct (p : Punct) : (Lexeme.punct p).Readable := ⟨trivial, nofun⟩

@[simp] theorem readable_newline : Lexeme.newline.Readable := ⟨trivial, nofun⟩

@[simp] theorem Word.readable (w : Word) : w.lexeme.Readable := by
  refine ⟨Lexeme.wellFormed_ofWord w.spelled, fun ds h => ?_⟩
  exact absurd h (w.lexeme_ne rfl)

@[simp] theorem Numeral.readable (n : Numeral) : n.lexeme.Readable := by
  refine ⟨⟨n.nonempty, n.decimal⟩, fun ds h => ?_⟩
  rw [← Lexeme.integer.inj h]
  exact n.short

/-- What goes on a name is no quote and no line break. -/
theorem isStringPart_of_isNamePart {c : Char} (h : isNamePart c) : isStringPart c := by
  have hne : ∀ d, isNamePart d = false → c ≠ d := fun d hd => ne_of_isNamePart h hd
  have hquote := hne '"' (by decide)
  have hfeed := hne '\n' (by decide)
  have hreturn := hne '\r' (by decide)
  simp [isStringPart, isLineBreak, hquote, hfeed, hreturn]

theorem isNamePart_of_isName {cs : List Char} (h : isName cs) : ∀ c ∈ cs, isNamePart c := by
  cases cs with
  | nil => exact absurd h (by simp [isName])
  | cons d ds =>
    simp only [isName, Bool.and_eq_true, List.all_eq_true] at h
    intro c hc
    rcases List.mem_cons.mp hc with rfl | hc
    · exact isNamePart_of_isNameStart h.1
    · exact h.2 c hc

/-- Splitting a text loses nothing but separators. -/
theorem mem_pieces {sep : Char → Bool} {c : Char} {cs : List Char} (hc : c ∈ cs) :
    sep c ∨ ∃ piece ∈ pieces sep cs, c ∈ piece := by
  induction cs with
  | nil => exact absurd hc (by simp)
  | cons d ds ih =>
    have htail : c ∈ ds → sep c ∨ ∃ piece ∈ pieces sep (d :: ds), c ∈ piece := by
      intro hds
      rcases ih hds with h | ⟨piece, hp, hcp⟩
      · exact .inl h
      · unfold pieces
        split
        · exact .inr ⟨piece, List.mem_cons_of_mem _ hp, hcp⟩
        · split
          · next he => exact absurd he (pieces_ne_nil sep ds)
          · next q qs he =>
            rw [he] at hp
            rcases List.mem_cons.mp hp with rfl | hp
            · exact .inr ⟨_, List.mem_cons_self, List.mem_cons_of_mem _ hcp⟩
            · exact .inr ⟨piece, List.mem_cons_of_mem _ hp, hcp⟩
    rcases List.mem_cons.mp hc with rfl | hds
    · unfold pieces
      split
      · next h => exact .inl h
      · split
        · exact .inr ⟨_, List.mem_cons_self, List.mem_cons_self⟩
        · exact .inr ⟨_, List.mem_cons_self, List.mem_cons_self⟩
    · exact htail hds

/-- The path of an import holds no quote and no line break. -/
theorem isStringPart_of_isImportPath {cs : List Char} (h : isImportPath cs) :
    ∀ c ∈ cs, isStringPart c := by
  intro c hc
  rcases @mem_pieces (fun c => c == '.' || c == '/') c cs hc with hsep | ⟨piece, hp, hcp⟩
  · simp only [Bool.or_eq_true, beq_iff_eq] at hsep
    rcases hsep with rfl | rfl <;> decide
  · exact isStringPart_of_isNamePart
      (isNamePart_of_isName (List.all_eq_true.mp h piece hp) c hcp)

theorem readable_string {s : String} (h : ∀ c ∈ s.toList, isStringPart c) :
    (Lexeme.string s).Readable := ⟨h, nofun⟩

@[simp] theorem ImportPath.readable (p : ImportPath) : p.lexeme.Readable :=
  readable_string (isStringPart_of_isImportPath p.joined)

@[simp] theorem Literal.readable (x : Literal) : x.lexeme.Readable := by
  cases x with
  | number n => exact n.readable
  | text q => exact readable_string q.inside
  | boolean b => cases b <;> exact readable_keyword _

/-! ## 2. Trees -/

@[simp] theorem readable_dotted (vs : List Word) : Readable (dotted vs) :=
  readable_flatMap fun v _ => by simp

@[simp] theorem Path.readable (p : Path) : Readable p.lexemes := by simp [lexemes]

@[simp] theorem TypeTree.readable (t : TypeTree) : Readable t.lexemes := by
  induction t with
  | primitive p => simp [lexemes]
  | map key value hkey hvalue => simp [lexemes, hkey, hvalue]
  | named path free => simp [lexemes]

@[simp] theorem SettingTree.readable (o : SettingTree) : Readable o.lexemes := by
  cases hk : o.key <;> simp [lexemes, hk, KeyTree.lexemes]

@[simp] theorem SettingTree.readable_statement (o : SettingTree) : Readable o.statement := by
  simp [statement]

@[simp] theorem readable_bracketRow (os : List SettingTree) : Readable (bracketRow os) :=
  readable_flatMap fun o _ => by simp [SettingTree.bracket]

@[simp] theorem EnumLine.readable (l : EnumLine) : Readable l.lexemes := by
  cases l <;> simp [lexemes, EntryTree.lexemes]

@[simp] theorem EnumTree.readable (e : EnumTree) : Readable e.lexemes := by
  simp [lexemes, readable_flatMap fun (l : EnumLine) _ => l.readable]

@[simp] theorem FieldTree.readable (f : FieldTree) : Readable f.lexemes := by
  cases hm : f.modifier with
  | none => simp [lexemes_of_none hm]
  | some m => simp [lexemes_of_some hm]

namespace MessageLine

mutual

theorem readable (l : MessageLine) : Readable l.lexemes := by
  cases l with
  | newline => simp [lexemes]
  | setting o => simp [lexemes]
  | message name body => simp [lexemes, readable_allLexemes body]
  | enumeration e => simp [lexemes]
  | field f => simp [lexemes]

theorem readable_allLexemes (ls : List MessageLine) : Readable (allLexemes ls) := by
  cases ls with
  | nil => simp [allLexemes]
  | cons l ls => simp [allLexemes, readable l, readable_allLexemes ls]

end

end MessageLine

theorem DocumentLine.readable (l : DocumentLine) : Readable l.lexemes := by
  cases l with
  | newline => simp [lexemes]
  | syntaxDecl value =>
    simp [lexemes, readable_string fun c hc =>
      isStringPart_of_isNamePart (isNamePart_of_isName value.spelled c hc)]
  | packageDecl path => simp [lexemes]
  | importDecl publics path =>
    have hpublic : Readable (List.replicate publics (.keyword .kwPublic)) := by
      intro l hl
      rw [(List.mem_replicate.mp hl).2]
      exact readable_keyword _
    simp [lexemes, hpublic]
  | setting o => simp [lexemes]
  | message name body => exact MessageLine.readable _
  | enumeration e => simp [lexemes]

/-- **Every leaf of a tree is readable.** -/
theorem DocumentTree.readable (t : DocumentTree) : Readable t.lexemes :=
  readable_flatMap fun l _ => l.readable

end Grammar
end SchemaLang
