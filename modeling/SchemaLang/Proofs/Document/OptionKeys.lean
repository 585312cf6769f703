/-
# Keys of options

The key of an option is one text, made of its name, the parentheses around the name and the path
behind them.  Options in general may differ and have the same key, as a name may be any text there.
Those that are read from texts may not: the key stands in a text as the lexemes of the option's left
side do, and so it can be read again (`key_eq_iff_and_parse_key`).

That every option of a text conforms, in whatever body or brackets it stands, comes from what is
known of the document (`conforming_of_mem_allSettings`).
-/
import Mathlib.Data.List.Chain
import SchemaLang.Proofs.Document.Text
import SchemaLang.Proofs.Scanner.Packed

namespace SchemaLang

open Text Grammar

/-! ## 1. All options of a document -/

/-- The option that an item is, or those in the brackets of an entry. -/
def EnumItem.allSettings : EnumItem → List OptionSetting
  | setting o => [o]
  | entry e => e.options

def Enumeration.allSettings (e : Enumeration) : List OptionSetting :=
  e.body.flatMap EnumItem.allSettings

namespace MessageItem

mutual

/-- The options in an item, at any depth and in brackets too. -/
def allSettings : MessageItem → List OptionSetting
  | setting o => [o]
  | message _ body => bodySettings body
  | enumeration e => e.allSettings
  | field f => f.options

/-- The options in a body. -/
def bodySettings : List MessageItem → List OptionSetting
  | [] => []
  | i :: is => allSettings i ++ bodySettings is

end

end MessageItem

def Statement.allSettings : Statement → List OptionSetting
  | setting o => [o]
  | message m => (MessageItem.ofMessage m).allSettings
  | enumeration e => e.allSettings
  | syntaxDecl _ => []
  | packageDecl _ => []
  | importDecl _ => []

/-- All options of a document: those that are statements, those in bodies and those in brackets. -/
def Document.allSettings (doc : Document) : List OptionSetting :=
  doc.statements.flatMap Statement.allSettings

/-! ## 2. They conform -/

variable {d : Dialect} {o : OptionSetting}

theorem Enumeration.conforming_of_mem_allSettings (e : Enumeration) (h : e.Conforming d)
    (ho : o ∈ e.allSettings) : o.Conforming := by
  obtain ⟨i, hi, ho⟩ := List.mem_flatMap.mp ho
  have hitem := h.body i hi
  cases i with
  | setting p =>
    obtain rfl := List.mem_singleton.mp ho
    exact hitem
  | entry entry => exact EnumEntry.Conforming.options hitem o ho

namespace MessageItem

mutual

theorem conforming_of_mem_allSettings (i : MessageItem) (h : i.Conforming d)
    (ho : o ∈ i.allSettings) : o.Conforming := by
  cases i with
  | setting p =>
    obtain rfl := List.mem_singleton.mp ho
    exact h
  | message name body => exact conforming_of_mem_bodySettings body h.2 ho
  | enumeration e => exact e.conforming_of_mem_allSettings h.2 ho
  | field f => exact h.options o ho

theorem conforming_of_mem_bodySettings (is : List MessageItem) (h : AllConforming d is)
    (ho : o ∈ bodySettings is) : o.Conforming := by
  cases is with
  | nil => exact absurd ho (by simp [bodySettings])
  | cons i is =>
    rcases List.mem_append.mp ho with ho | ho
    · exact conforming_of_mem_allSettings i h.1 ho
    · exact conforming_of_mem_bodySettings is h.2 ho

end

end MessageItem

/-- Every option of a conforming document conforms, wherever it stands. -/
theorem Document.Conforming.conforming_of_mem_allSettings {doc : Document} (h : doc.Conforming d)
    (ho : o ∈ doc.allSettings) : o.Conforming := by
  obtain ⟨s, hs, ho⟩ := List.mem_flatMap.mp ho
  have hstatement := h s hs
  cases s with
  | setting p =>
    obtain rfl := List.mem_singleton.mp ho
    exact hstatement
  | message m => exact (MessageItem.ofMessage m).conforming_of_mem_allSettings hstatement ho
  | enumeration e => exact e.conforming_of_mem_allSettings hstatement ho
  | syntaxDecl value => exact absurd ho (by simp [Statement.allSettings])
  | packageDecl name => exact absurd ho (by simp [Statement.allSettings])
  | importDecl i => exact absurd ho (by simp [Statement.allSettings])

/-! ## 3. Lexemes that touch -/

/-- The lexemes as a text, with nothing between them. -/
def joined (ls : List Lexeme) : String := String.join (ls.map Lexeme.source)

theorem joined_cons (l : Lexeme) (ls : List Lexeme) : joined (l :: ls) = l.source ++ joined ls := by
  simp [joined]

/-- Lexemes that do not run together are found again with nothing between them, and then the
scanner goes on behind them. -/
theorem scanFrom_joined {rules : Rules} {ls : List Lexeme} {rest : List Char}
    (hls : ∀ l ∈ ls, l.WellFormed) (hapart : ls.IsChain fun l m => l.fuses m = false)
    (hrest : StartsApart rest) (pos : Position) :
    ∃ pos', (scanFrom rules pos ((joined ls).toList ++ rest)).lexemes =
        ls ++ (scanFrom rules pos' rest).lexemes ∧
      (scanFrom rules pos ((joined ls).toList ++ rest)).error? =
        (scanFrom rules pos' rest).error? := by
  induction ls generalizing pos with
  | nil => exact ⟨pos, rfl, rfl⟩
  | cons l ls ih =>
    obtain ⟨hl, hls⟩ := List.forall_mem_cons.mp hls
    obtain ⟨hnext, hapart⟩ := List.isChain_cons.mp hapart
    have hends : l.EndsBefore ((joined ls).toList ++ rest) := by
      cases ls with
      | nil => exact hrest.endsBefore l
      | cons m ls =>
        rw [joined_cons, String.toList_append, List.append_assoc]
        exact (hls m List.mem_cons_self).endsBefore (hnext m rfl) _
    obtain ⟨pos', hlexemes, herror⟩ := ih hls hapart (pos.past l.source.toList)
    rw [joined_cons, String.toList_append, List.append_assoc, scanFrom_source hl hends]
    exact ⟨pos', congrArg (l :: ·) hlexemes, herror⟩

theorem fuses_punct (l : Lexeme) (p : Punct) : l.fuses (.punct p) = false := by
  cases l <;> rfl

theorem punct_fuses (p : Punct) (l : Lexeme) : (Lexeme.punct p).fuses l = false := rfl

theorem source_ofWord (s : String) : (Lexeme.ofWord s).source = s := by
  unfold Lexeme.ofWord
  split
  · next h => exact Keyword.text_of_ofText? h
  · rfl

/-! ## 4. The key of an option as a text -/

theorem isChain_dottedNames (names : List String) :
    (dottedNames names).IsChain fun l m => l.fuses m = false := by
  induction names with
  | nil => exact List.isChain_nil
  | cons s names ih =>
    refine List.isChain_cons_cons.mpr ⟨punct_fuses _ _, List.isChain_cons.mpr ⟨?_, ih⟩⟩
    intro l hl
    cases names with
    | nil => exact absurd hl (by simp)
    | cons t names =>
      obtain rfl := Option.some.inj hl
      exact fuses_punct _ _

/-- Names with dots in front of them are their path with a dot in front of it. -/
theorem joined_dottedNames {names : List String} (hne : names ≠ []) :
    joined (dottedNames names) = "." ++ joinDots names := by
  induction names with
  | nil => exact absurd rfl hne
  | cons s names ih =>
    have hfirst : joined (dottedNames (s :: names)) = "." ++ (s ++ joined (dottedNames names)) := by
      rw [dottedNames, List.flatMap_cons, List.cons_append, List.cons_append, joined_cons,
        joined_cons, source_ofWord]
      rfl
    cases names with
    | nil =>
      rw [hfirst]
      simp [dottedNames, joined, joinDots]
    | cons t names =>
      rw [hfirst, ih (by simp)]
      simp only [joinDots, String.intercalate_cons_cons, String.append_assoc]

namespace OptionSetting

theorem isChain_keyLexemes (o : OptionSetting) :
    o.keyLexemes.IsChain fun l m => l.fuses m = false := by
  unfold keyLexemes
  split
  · refine .cons_cons (punct_fuses _ _) (.cons_cons (fuses_punct _ _) ?_)
    cases o.fieldPath with
    | none => exact .singleton _
    | some path => exact List.isChain_cons.mpr ⟨fun l _ => punct_fuses _ l, isChain_dottedNames _⟩
  · exact .singleton _

/-- The lexemes of an option's left side make its key. -/
theorem joined_keyLexemes (o : OptionSetting) : joined o.keyLexemes = o.key := by
  obtain ⟨name, isExtension, fieldPath, value⟩ := o
  have hparens (ls : List Lexeme) :
      joined (.punct .lparen :: .ofWord name :: .punct .rparen :: ls) =
        "(" ++ name ++ ")" ++ joined ls := by
    simp only [joined_cons, source_ofWord, String.append_assoc]
    rfl
  cases isExtension with
  | false => exact (joined_cons _ []).trans (by simp [source_ofWord, joined, key])
  | true =>
    refine (hparens _).trans ?_
    cases fieldPath with
    | none => simp [joined, key]
    | some path =>
      have hne : segments path ≠ [] := by simp [segments, pieces_ne_nil]
      have hmarks : ")" ++ ("." ++ path) = ")." ++ path := String.append_assoc.symm
      rw [Option.elim_some, joined_dottedNames hne, joinDots_segments, key, if_pos rfl]
      simp [String.append_assoc, hmarks]

theorem Conforming.wellFormed_keyLexemes {o : OptionSetting} (h : o.Conforming) :
    ∀ l ∈ o.keyLexemes, l.WellFormed := by
  intro l hl
  obtain ⟨t, -, ht⟩ := h.exists_tree
  refine (t.readable l ?_).wellFormed
  rw [ht]
  exact List.mem_append_left _ hl

/-- The same option, set to zero. -/
def zeroed (o : OptionSetting) : OptionSetting := { o with value := .numeric 0 }

theorem Conforming.zeroed {o : OptionSetting} (h : o.Conforming) : o.zeroed.Conforming where
  name := h.name
  plain := h.plain
  fieldPath := h.fieldPath
  value := ⟨Int.le_refl 0, by decide⟩

end OptionSetting

/-! ## 5. A key is read again -/

/-- The end of a statement that sets an option to zero. -/
theorem scanFrom_isZero (rules : Rules) (pos : Position) :
    (scanFrom rules pos [' ', '=', ' ', '0', ';']).lexemes =
        [.punct .equals, .integer "0", .punct .semicolon] ∧
      (scanFrom rules pos [' ', '=', ' ', '0', ';']).error? = none := by
  have hblank : munch rules ' ' ['=', ' ', '0', ';'] = .gap [' '] ['=', ' ', '0', ';'] := rfl
  have hequals : munch rules '=' [' ', '0', ';'] =
      .lexeme (.punct .equals) ['='] [' ', '0', ';'] := rfl
  have hbefore : munch rules ' ' ['0', ';'] = .gap [' '] ['0', ';'] := rfl
  have hzero : munch rules '0' [';'] = .lexeme (.integer "0") ['0'] [';'] := rfl
  have hend : munch rules ';' [] = .lexeme (.punct .semicolon) [';'] [] := rfl
  rw [scanFrom_gap hblank, scanFrom_lexeme hequals, scanFrom_gap hbefore, scanFrom_lexeme hzero,
    scanFrom_lexeme hend, scanFrom_nil]
  exact ⟨rfl, rfl⟩

/-- The key of a conforming option stands in a text as the left side of the option. -/
theorem scan_key (rules : Rules) (h : o.Conforming) :
    (scan rules ("option " ++ o.key ++ " = 0;")).lexemes = o.zeroed.statement ∧
      (scan rules ("option " ++ o.key ++ " = 0;")).error? = none := by
  have htext : ("option " ++ o.key ++ " = 0;").toList = "option".toList ++
      ' ' :: ((joined o.keyLexemes).toList ++ [' ', '=', ' ', '0', ';']) := by
    rw [o.joined_keyLexemes, String.toList_append, String.toList_append, List.append_assoc]
    rfl
  obtain ⟨pos, hkey, herror⟩ := @scanFrom_joined rules _ _ h.wellFormed_keyLexemes
    o.isChain_keyLexemes (startsApart_blank ['=', ' ', '0', ';'])
    ((Position.start.past "option".toList).past [' '])
  obtain ⟨hzero, hend⟩ := scanFrom_isZero rules pos
  have hword (rest : List Char) : scanFrom rules .start ("option".toList ++ ' ' :: rest) =
      .token ⟨.keyword .kwOption, .start⟩
        (scanFrom rules ((Position.start.past "option".toList).past [' ']) rest) := by
    have hgap : munch rules ' ' rest = .gap [' '] rest := rfl
    rw [← scanFrom_gap hgap]
    exact @scanFrom_source rules (.keyword .kwOption) _ trivial (startsApart_blank rest) .start
  rw [scan, htext, hword]
  rw [hzero] at hkey
  refine ⟨(congrArg (Lexeme.keyword .kwOption :: ·) hkey).trans ?_, herror.trans hend⟩
  rw [OptionSetting.statement, OptionSetting.lexemes, List.append_assoc]
  rfl

/-- **A key is read again** in both dialects, as the one option that it is the key of. -/
theorem parse_key (d : Dialect) (h : o.Conforming) :
    Document.parse d ("option " ++ o.key ++ " = 0;") = .ok ⟨[.setting o.zeroed]⟩ := by
  obtain ⟨hlexemes, hend⟩ := scan_key d.rules h
  obtain ⟨t, ht, hstatement⟩ := h.zeroed.exists_statement
  have hallowed : DocumentTree.Allowed d.rules ⟨[.setting t]⟩ := {
    lines := List.forall_mem_singleton.mpr trivial
    nonempty := fun _ => List.cons_ne_nil _ _ }
  have htree : DocumentTree.lexemes ⟨[.setting t]⟩ = o.zeroed.statement :=
    (List.append_nil _).trans hstatement
  rw [parse_of_derives hend ⟨hallowed, htree.trans hlexemes.symm⟩, ← ht]
  rfl

/-- **The key of an option tells it apart** from all others but those that set the same option, and
it is read again, in both dialects, as the option that it is the key of.  The options may stand
anywhere in texts of any dialects. -/
theorem key_eq_iff_and_parse_key {d₁ d₂ : Dialect} {source₁ source₂ : String}
    {doc₁ doc₂ : Document} {o₁ o₂ : OptionSetting} (h₁ : Document.parse d₁ source₁ = .ok doc₁)
    (h₂ : Document.parse d₂ source₂ = .ok doc₂) (ho₁ : o₁ ∈ doc₁.allSettings)
    (ho₂ : o₂ ∈ doc₂.allSettings) :
    (o₁.key = o₂.key ↔
        o₁.name = o₂.name ∧ o₁.isExtension = o₂.isExtension ∧ o₁.fieldPath = o₂.fieldPath) ∧
      ∀ d, ∃ o, Document.parse d ("option " ++ o₁.key ++ " = 0;") = .ok ⟨[.setting o]⟩ ∧
        o.name = o₁.name ∧ o.isExtension = o₁.isExtension ∧ o.fieldPath = o₁.fieldPath ∧
        o.key = o₁.key := by
  have hconforming₁ := (conforming_of_parse h₁).conforming_of_mem_allSettings ho₁
  have hconforming₂ := (conforming_of_parse h₂).conforming_of_mem_allSettings ho₂
  refine ⟨⟨fun hkey => ?_, ?_⟩, fun d => ⟨o₁.zeroed, parse_key d hconforming₁, rfl, rfl, rfl, rfl⟩⟩
  · -- one text is read in one way
    have hparse := parse_key .legacy hconforming₁
    rw [hkey, parse_key .legacy hconforming₂] at hparse
    have hzeroed : o₂.zeroed = o₁.zeroed := by simpa using hparse
    simp only [OptionSetting.zeroed, OptionSetting.mk.injEq, and_true] at hzeroed
    exact ⟨hzeroed.1.symm, hzeroed.2.1.symm, hzeroed.2.2.symm⟩
  · rintro ⟨hname, hextension, hpath⟩
    rw [OptionSetting.key, OptionSetting.key, hname, hextension, hpath]

/-- Options that no text sets may share a key. -/
example : OptionSetting.key ⟨"(a)", false, none, .numeric 0⟩ =
    OptionSetting.key ⟨"a", true, none, .numeric 0⟩ := by decide

/-- An option with keywords for names, once in brackets and once as a statement. -/
theorem parse_key_keywords :
    let o : OptionSetting := ⟨"option", true, some "map.a", .boolean true⟩
    let p : OptionSetting := ⟨"option", true, some "map.a", .string ""⟩
    let doc : Document :=
      ⟨[.message ⟨"M", [.message "N" [.field ⟨none, .named "A", "x", 1, [o]⟩]]⟩]⟩
    let source := "message M\x7bmessage N\x7bA x=1[(option).map.a=true];\x7d\x7d"
    Document.parse .legacy source = .ok doc ∧
      Document.parse .strict "option(option).map.a=\"\";" = .ok ⟨[.setting p]⟩ ∧
      (o.key = p.key ↔
        o.name = p.name ∧ o.isExtension = p.isExtension ∧ o.fieldPath = p.fieldPath) ∧
      ∀ d, ∃ q, Document.parse d ("option " ++ o.key ++ " = 0;") = .ok ⟨[.setting q]⟩ ∧
        q.name = o.name ∧ q.isExtension = o.isExtension ∧ q.fieldPath = o.fieldPath ∧
        q.key = o.key := by
  intro o p doc source
  have h₁ : Document.parse .legacy source = .ok doc := by
    rw [Document.parse, scan_eq_scanWithin]
    decide +kernel
  have h₂ : Document.parse .strict "option(option).map.a=\"\";" = .ok ⟨[.setting p]⟩ := by
    rw [Document.parse, scan_eq_scanWithin]
    decide +kernel
  have ho : o ∈ doc.allSettings := by decide
  have hp : p ∈ Document.allSettings ⟨[.setting p]⟩ := by decide
  exact ⟨h₁, h₂, key_eq_iff_and_parse_key h₁ h₂ ho hp⟩

end SchemaLang
