/-
# Documents and their trees

A syntax tree that the grammar reads builds a conforming document (`conforming_document`), and
every conforming document is built by a tree that derives it as it is written
(`exists_tree_of_conforming`).  Between them they say that the conforming documents are the
documents of trees.

A tree keeps the names of a path apart and a document joins them.  Nothing is lost, as no name
holds a dot (`segments_joinDots`), so trees can be found from documents again.
-/
import SchemaLang.Proofs.Document.Written
import SchemaLang.Proofs.Grammar.Leaves
import SchemaLang.Proofs.Grammar.Sound
import SchemaLang.Proofs.Text.Runs

namespace SchemaLang

open Text Grammar

/-! ## 1. Paths -/

theorem pieces_eq_splitOn (c : Char) (cs : List Char) : pieces (· == c) cs = cs.splitOn c := by
  induction cs with
  | nil => rfl
  | cons d ds ih =>
    rw [pieces, List.splitOn_cons_eq_if_modifyHead, ih]
    split
    · rfl
    · cases hs : ds.splitOn c with
      | nil => exact absurd hs (List.splitOn_ne_nil _ _)
      | cons p ps => rfl

/-- Joining what was split at the dots gives the text back. -/
theorem joinDots_segments (path : String) : joinDots (segments path) = path := by
  rw [← String.toList_inj, joinDots, String.toList_intercalate, segments, List.map_map,
    pieces_eq_splitOn]
  have hmap : (path.toList.splitOn '.').map (String.toList ∘ String.ofList) =
      path.toList.splitOn '.' := by
    simp [Function.comp_def]
  rw [hmap]
  exact List.intercalate_splitOn '.'

theorem dot_notMem_of_isName {cs : List Char} (h : isName cs) : '.' ∉ cs := by
  intro hdot
  have := isNamePart_of_isName h '.' hdot
  exact absurd this (by decide)

/-- Splitting joined names gives the names back. -/
theorem segments_joinDots {names : List String} (hne : names ≠ [])
    (hnames : ∀ s ∈ names, isName s.toList) : segments (joinDots names) = names := by
  have hdot : ∀ cs ∈ names.map String.toList, '.' ∉ cs := by
    intro cs hcs
    obtain ⟨s, hs, rfl⟩ := List.mem_map.mp hcs
    exact dot_notMem_of_isName (hnames s hs)
  rw [segments, joinDots, String.toList_intercalate, pieces_eq_splitOn]
  have hsplit := List.splitOn_intercalate '.' hdot (by simpa using hne)
  rw [show ".".toList = ['.'] from rfl, hsplit, List.map_map]
  simp [Function.comp_def]

theorem isName_of_mem_words {v : Word} {vs : List Word} :
    ∀ s ∈ v.text :: vs.map Word.text, isName s.toList := by
  intro s hs
  rcases List.mem_cons.mp hs with rfl | hs
  · exact v.spelled
  · obtain ⟨w, -, rfl⟩ := List.mem_map.mp hs
    exact w.spelled

theorem segments_joinDots_words (v : Word) (vs : List Word) :
    segments (joinDots (v.text :: vs.map Word.text)) = v.text :: vs.map Word.text :=
  segments_joinDots (by simp) isName_of_mem_words

theorem isDottedName_joinDots (v : Word) (vs : List Word) :
    isDottedName (joinDots (v.text :: vs.map Word.text)).toList := by
  have h := segments_joinDots_words v vs
  unfold isDottedName
  rw [List.all_eq_true]
  intro cs hcs
  have hmem : String.ofList cs ∈ v.text :: vs.map Word.text := by
    rw [← h, segments]
    exact List.mem_map_of_mem hcs
  simpa using isName_of_mem_words _ hmem

/-- Dotted names are the texts of one or more words. -/
theorem exists_words_of_isDottedName {path : String} (h : isDottedName path.toList) :
    ∃ (v : Word) (vs : List Word), joinDots (v.text :: vs.map Word.text) = path := by
  have hnames : ∀ s ∈ segments path, isName s.toList := by
    intro s hs
    obtain ⟨cs, hcs, rfl⟩ := List.mem_map.mp hs
    rw [String.toList_ofList]
    exact List.all_eq_true.mp h cs hcs
  have hwords : ∀ ss : List String, (∀ s ∈ ss, isName s.toList) →
      ∃ vs : List Word, vs.map Word.text = ss := by
    intro ss hss
    induction ss with
    | nil => exact ⟨[], rfl⟩
    | cons s ss ih =>
      obtain ⟨vs, rfl⟩ := ih fun t ht => hss t (List.mem_cons_of_mem _ ht)
      exact ⟨⟨s, hss s List.mem_cons_self⟩ :: vs, rfl⟩
  obtain ⟨vs, hvs⟩ := hwords _ hnames
  cases vs with
  | nil =>
    have hnil : pieces (· == '.') path.toList = [] := by
      simpa [segments] using hvs.symm
    exact absurd hnil (pieces_ne_nil _ _)
  | cons v vs => exact ⟨v, vs, (congrArg joinDots hvs).trans (joinDots_segments path)⟩

theorem dottedNames_words (vs : List Word) : dottedNames (vs.map Word.text) = dotted vs := by
  rw [dottedNames, dotted, List.flatMap_map]
  rfl

/-- The text of a path is written as the path. -/
theorem pathLexemes_text (p : Path) : pathLexemes p.text = p.lexemes := by
  rw [pathLexemes, Path.text, segments_joinDots_words]
  exact congrArg (_ :: ·) (dottedNames_words p.tail)

/-! ## 2. Numbers -/

theorem Grammar.Numeral.value_fits (n : Numeral) : NumberFits n.value where
  nonneg := Int.natCast_nonneg _
  short := by
    have hpos : 0 < maxDigits := by decide
    rw [Int.toNat_natCast, length_toDigits_le_iff hpos]
    exact Nat.lt_of_lt_of_le (digitsValue_lt n.decimal) (tenTo_le_tenTo n.short)

/-- A number that fits is written as a numeral of that value. -/
theorem NumberFits.exists_numeral {k : Int} (h : NumberFits k) :
    ∃ n : Numeral, (n.value : Int) = k ∧ n.lexeme = numberLexeme k := by
  have hdigits : k.toNat.repr.toList = Nat.toDigits 10 k.toNat := Nat.toList_repr
  refine ⟨⟨k.toNat.repr, ?_, ?_, ?_⟩, ?_, rfl⟩
  · rw [hdigits]
    exact Nat.toDigits_ne_nil
  · rw [hdigits]
    exact fun c hc => Nat.isDigit_of_mem_toDigits (by decide) (by decide) hc
  · rw [hdigits]
    exact h.short
  · rw [Numeral.value, hdigits, digitsValue_toDigits]
    exact Int.toNat_of_nonneg h.nonneg

/-! ## 3. Trees build conforming documents -/

theorem Grammar.Literal.conforming (x : Literal) : x.constant.Conforming := by
  cases x with
  | number n => exact n.value_fits
  | text q => exact q.inside
  | boolean b => trivial

theorem Grammar.TypeTree.conforming (t : TypeTree) : t.type.Conforming := by
  induction t with
  | primitive p => trivial
  | map key value hkey hvalue => exact ⟨hkey, hvalue⟩
  | named path free =>
    refine ⟨isDottedName_joinDots path.head path.tail, fun s hs => ?_⟩
    rw [Path.text, segments_joinDots_words] at hs
    obtain rfl := Option.some.inj hs
    exact free

theorem Grammar.SettingTree.conforming (o : SettingTree) : o.setting.Conforming := by
  obtain ⟨key, value⟩ := o
  cases key with
  | plain v => exact ⟨v.spelled, fun _ => rfl, nofun, value.conforming⟩
  | extension v vs =>
    cases vs with
    | nil => exact ⟨v.spelled, nofun, nofun, value.conforming⟩
    | cons w ws =>
      refine ⟨v.spelled, nofun, fun path hp => ?_, value.conforming⟩
      obtain rfl := Option.some.inj hp
      exact isDottedName_joinDots w ws

theorem Grammar.conforming_settings (os : List SettingTree) :
    ∀ o ∈ os.map SettingTree.setting, o.Conforming := by
  intro o ho
  obtain ⟨t, -, rfl⟩ := List.mem_map.mp ho
  exact t.conforming

theorem strict_of_allowed {d : Dialect} {α : Type} {os : List SettingTree} {f : SettingTree → α}
    {enabled : Bool} (h : enabled = false → os = []) (hd : d = .strict → enabled = false) :
    d = .strict → os.map f = [] := fun e => by rw [h (hd e), List.map_nil]

theorem Grammar.EnumTree.conforming {d : Dialect} (e : EnumTree) (h : e.Allowed d.rules) :
    e.enumeration.Conforming d := by
  refine ⟨e.name.spelled, fun i hi => ?_⟩
  obtain ⟨l, hl, hitem⟩ := List.mem_filterMap.mp hi
  have hallowed := h l hl
  cases l with
  | newline => exact absurd hitem (by simp [EnumLine.item?])
  | setting o =>
    obtain rfl := Option.some.inj hitem
    exact o.conforming
  | entry e =>
    obtain rfl := Option.some.inj hitem
    refine ⟨e.name.spelled, e.tag.value_fits, conforming_settings e.options, ?_⟩
    exact strict_of_allowed hallowed fun hd => by rw [hd]; rfl

/-- A type of the text `option` is the one word. -/
theorem lexemes_of_type_option {t : TypeTree} (h : t.type = .named "option") :
    t.lexemes = [.keyword .kwOption] := by
  cases t with
  | primitive p => exact absurd h (by simp [TypeTree.type])
  | map key value => exact absurd h (by simp [TypeTree.type])
  | named path free =>
    rw [TypeTree.lexemes, ← pathLexemes_text, TypeRef.named.inj h]
    decide

theorem Grammar.FieldTree.conforming {d : Dialect} (f : FieldTree)
    (h : d.rules.fieldOptions = false → f.options = []) (hf : f.asSetting? = none) :
    f.field.Conforming d where
  type := f.type.conforming
  name := f.name.spelled
  tag := f.tag.value_fits
  options := conforming_settings f.options
  unmodified := fun hm path hpath s hs => by
    cases ht : f.type with
    | primitive p => simp [FieldTree.field, ht, TypeTree.type] at hpath
    | map key value => simp [FieldTree.field, ht, TypeTree.type] at hpath
    | named p free =>
      obtain rfl : p.text = path := by simpa [FieldTree.field, ht, TypeTree.type] using hpath
      rw [Path.text, segments_joinDots_words] at hs
      obtain rfl := Option.some.inj hs
      exact f.free hm p.head.lexeme (by rw [ht]; rfl)
  noOption := fun hm htype hoptions => by
    have hlexemes := lexemes_of_type_option htype
    have hnil : f.options = [] := List.map_eq_nil_iff.mp hoptions
    rw [FieldTree.asSetting?, if_pos ⟨hm, hlexemes, hnil⟩] at hf
    exact absurd hf (by simp)
  strict := strict_of_allowed h fun hd => by rw [hd]; rfl

namespace Grammar.MessageLine

/-- A line that is its own preferred one is no field that reads like an option. -/
theorem asSetting?_of_preferred {f : FieldTree} (h : (field f).preferred = field f) :
    f.asSetting? = none := by
  rw [preferred] at h
  cases hf : f.asSetting? with
  | none => rfl
  | some o =>
    rw [hf] at h
    exact absurd h (by simp)

mutual

theorem conforming {d : Dialect} (l : MessageLine) (h : l.Allowed d.rules)
    (hp : l.preferred = l) : ∀ i ∈ l.item?, i.Conforming d := by
  intro i hi
  cases l with
  | newline => exact absurd hi (by simp [item?])
  | setting o =>
    rw [item?] at hi
    obtain rfl := Option.some.inj hi
    rw [MessageItem.Conforming]
    exact o.conforming
  | message name body =>
    rw [Allowed] at h
    rw [preferred, message.injEq] at hp
    rw [item?] at hi
    obtain rfl := Option.some.inj hi
    rw [MessageItem.Conforming]
    exact ⟨name.spelled, allConforming body h hp.2⟩
  | enumeration e =>
    rw [Allowed] at h
    rw [item?] at hi
    obtain rfl := Option.some.inj hi
    rw [MessageItem.Conforming]
    refine ⟨?_, e.conforming h.2⟩
    rintro rfl
    exact absurd h.1 (by decide)
  | field f =>
    rw [Allowed] at h
    rw [item?] at hi
    obtain rfl := Option.some.inj hi
    rw [MessageItem.Conforming]
    exact f.conforming h (asSetting?_of_preferred hp)

theorem allConforming {d : Dialect} (ls : List MessageLine) (h : AllAllowed d.rules ls)
    (hp : allPreferred ls = ls) : MessageItem.AllConforming d (items ls) := by
  cases ls with
  | nil => exact trivial
  | cons l ls =>
    rw [AllAllowed] at h
    rw [allPreferred, List.cons.injEq] at hp
    rw [items]
    have hhead := conforming l h.1 hp.1
    have htail := allConforming ls h.2 hp.2
    cases hi : l.item? with
    | none => exact htail
    | some i => exact ⟨hhead i hi, htail⟩

end

end Grammar.MessageLine

/-- **What a tree builds conforms.** -/
theorem conforming_document {d : Dialect} {t : DocumentTree} (h : t.Allowed d.rules)
    (hp : t.preferred = t) : t.document.Conforming d := by
  intro s hs
  obtain ⟨l, hl, hstatement⟩ := List.mem_filterMap.mp hs
  have hallowed := h.lines l hl
  have hpreferred : l.preferred = l :=
    List.map_inj_left.mp ((congrArg DocumentTree.lines hp).trans (List.map_id _).symm) l hl
  cases l with
  | newline => exact absurd hstatement (by simp [DocumentLine.statement?])
  | syntaxDecl v =>
    obtain rfl := Option.some.inj hstatement
    cases d with
    | legacy => exact v.spelled
    | strict => exact hallowed _ rfl
  | packageDecl path =>
    obtain rfl := Option.some.inj hstatement
    exact isDottedName_joinDots path.head path.tail
  | importDecl n path =>
    obtain rfl := Option.some.inj hstatement
    exact path.joined
  | setting o =>
    obtain rfl := Option.some.inj hstatement
    exact o.conforming
  | message v body =>
    obtain rfl := Option.some.inj hstatement
    have hbody : MessageLine.allPreferred body = body := by
      simpa [DocumentLine.preferred] using hpreferred
    show (MessageItem.message _ _).Conforming d
    rw [MessageItem.Conforming]
    exact ⟨v.spelled, MessageLine.allConforming body hallowed hbody⟩
  | enumeration e =>
    obtain rfl := Option.some.inj hstatement
    exact e.conforming hallowed

/-! ## 4. Conforming documents have trees -/

/-- Where each item has a tree, items in a row have trees in a row. -/
theorem exists_trees {α τ : Type} {P : τ → Prop} {g : τ → Option α} {f : τ → List Lexeme}
    {write : α → List Lexeme} {as : List α}
    (h : ∀ a ∈ as, ∃ t, P t ∧ g t = some a ∧ f t = write a) :
    ∃ ts : List τ, (∀ t ∈ ts, P t) ∧ ts.filterMap g = as ∧ ts.flatMap f = as.flatMap write := by
  induction as with
  | nil => exact ⟨[], by simp, rfl, rfl⟩
  | cons a as ih =>
    obtain ⟨t, ht, hitem, hlexemes⟩ := h a List.mem_cons_self
    obtain ⟨ts, hts, rfl, hall⟩ := ih fun b hb => h b (List.mem_cons_of_mem _ hb)
    refine ⟨t :: ts, fun u hu => ?_, List.filterMap_cons_some hitem, ?_⟩
    · rcases List.mem_cons.mp hu with rfl | hu
      · exact ht
      · exact hts u hu
    · rw [List.flatMap_cons, List.flatMap_cons, hlexemes, hall]

theorem Constant.Conforming.exists_tree {c : Constant} (h : c.Conforming) :
    ∃ x : Literal, x.constant = c ∧ x.lexeme = c.lexeme := by
  cases c with
  | numeric k =>
    obtain ⟨n, rfl, hn⟩ := NumberFits.exists_numeral h
    exact ⟨.number n, rfl, hn⟩
  | string text => exact ⟨.text ⟨text, h⟩, rfl, rfl⟩
  | boolean b => exact ⟨.boolean b, rfl, by cases b <;> rfl⟩

theorem TypeRef.Conforming.exists_tree {r : TypeRef} (h : r.Conforming) :
    ∃ t : TypeTree, t.type = r ∧ t.lexemes = r.lexemes := by
  induction r with
  | primitive p => exact ⟨.primitive p, rfl, rfl⟩
  | map key value hkey hvalue =>
    obtain ⟨k, rfl, hk⟩ := hkey h.1
    obtain ⟨v, rfl, hv⟩ := hvalue h.2
    exact ⟨.map k v, rfl, by rw [TypeTree.lexemes, TypeRef.lexemes, hk, hv]⟩
  | named path =>
    obtain ⟨v, vs, rfl⟩ := exists_words_of_isDottedName h.1
    have free : primitive? v.lexeme = none := by
      refine h.2 v.text ?_
      rw [segments_joinDots_words]
      rfl
    exact ⟨.named ⟨v, vs⟩ free, rfl, (pathLexemes_text ⟨v, vs⟩).symm⟩

theorem OptionSetting.Conforming.exists_tree {o : OptionSetting} (h : o.Conforming) :
    ∃ t : SettingTree, t.setting = o ∧ t.lexemes = o.lexemes := by
  obtain ⟨name, isExtension, fieldPath, value⟩ := o
  obtain ⟨x, rfl, hx⟩ := h.value.exists_tree
  cases isExtension with
  | false =>
    obtain rfl : fieldPath = none := h.plain rfl
    refine ⟨⟨.plain ⟨name, h.name⟩, x⟩, rfl, ?_⟩
    rw [SettingTree.lexemes, OptionSetting.lexemes, hx]
    rfl
  | true =>
    cases fieldPath with
    | none =>
      refine ⟨⟨.extension ⟨name, h.name⟩ [], x⟩, rfl, ?_⟩
      rw [SettingTree.lexemes, OptionSetting.lexemes, hx]
      rfl
    | some path =>
      obtain ⟨w, ws, rfl⟩ := exists_words_of_isDottedName (h.fieldPath path rfl)
      refine ⟨⟨.extension ⟨name, h.name⟩ (w :: ws), x⟩, rfl, ?_⟩
      have hpath : dottedNames (segments (joinDots (w.text :: ws.map Word.text))) =
          dotted (w :: ws) := by
        rw [segments_joinDots_words]
        exact dottedNames_words (w :: ws)
      rw [SettingTree.lexemes, OptionSetting.lexemes, hx]
      simp only [KeyTree.lexemes, OptionSetting.keyLexemes, if_true, Option.elim_some, hpath]
      rfl

theorem OptionSetting.Conforming.exists_statement {o : OptionSetting} (h : o.Conforming) :
    ∃ t : SettingTree, t.setting = o ∧ t.statement = o.statement := by
  obtain ⟨t, rfl, ht⟩ := h.exists_tree
  exact ⟨t, rfl, by rw [SettingTree.statement, OptionSetting.statement, ht]⟩

theorem exists_settings {os : List OptionSetting} (h : ∀ o ∈ os, o.Conforming) :
    ∃ ts : List SettingTree, ts.map SettingTree.setting = os ∧
      bracketRow ts = os.flatMap OptionSetting.bracket := by
  obtain ⟨ts, -, hts, hlexemes⟩ : ∃ ts : List SettingTree, (∀ t ∈ ts, True) ∧
      ts.filterMap (fun t => some t.setting) = os ∧
      ts.flatMap SettingTree.bracket = os.flatMap OptionSetting.bracket :=
    exists_trees fun o ho => by
      obtain ⟨t, rfl, ht⟩ := (h o ho).exists_tree
      exact ⟨t, trivial, rfl, by rw [SettingTree.bracket, OptionSetting.bracket, ht]⟩
  exact ⟨ts, by rwa [List.filterMap_eq_map'] at hts, hlexemes⟩

theorem EnumItem.Conforming.exists_tree {d : Dialect} {i : EnumItem} (h : i.Conforming d) :
    ∃ l : EnumLine, l.Allowed d.rules ∧ l.item? = some i ∧ l.lexemes = i.lexemes := by
  cases i with
  | setting o =>
    obtain ⟨t, rfl, ht⟩ := OptionSetting.Conforming.exists_statement h
    exact ⟨.setting t, trivial, rfl, ht⟩
  | entry e =>
    have h : e.Conforming d := h
    obtain ⟨name, tag, options⟩ := e
    obtain ⟨n, rfl, hn⟩ := h.tag.exists_numeral
    obtain ⟨ts, rfl, hts⟩ := exists_settings h.options
    refine ⟨.entry ⟨⟨name, h.name⟩, n, ts⟩, fun hd => ?_, rfl, ?_⟩
    · refine List.map_eq_nil_iff.mp (h.strict ?_)
      cases d with
      | legacy => exact absurd hd (by decide)
      | strict => rfl
    · rw [EnumLine.lexemes, EntryTree.lexemes, hn, hts]
      rfl

theorem Enumeration.Conforming.exists_tree {d : Dialect} {e : Enumeration}
    (h : e.Conforming d) :
    ∃ t : EnumTree, t.Allowed d.rules ∧ t.enumeration = e ∧ t.lexemes = e.lexemes := by
  obtain ⟨name, body⟩ := e
  obtain ⟨ls, hls, rfl, hlexemes⟩ := exists_trees fun i hi => (h.body i hi).exists_tree
  exact ⟨⟨⟨name, h.name⟩, ls⟩, hls, rfl, by rw [EnumTree.lexemes, hlexemes]; rfl⟩

/-- The word `option` alone is a type of that text. -/
theorem type_of_lexemes_option {t : TypeTree} (h : t.lexemes = [.keyword .kwOption]) :
    t.type = .named "option" := by
  cases t with
  | primitive p => cases p <;> exact absurd h (by decide)
  | map key value => exact absurd h (by simp [TypeTree.lexemes])
  | named path free =>
    obtain ⟨v, vs⟩ := path
    obtain ⟨hhead, htail⟩ := List.cons.inj h
    obtain rfl : vs = [] := by
      cases vs with
      | nil => rfl
      | cons w ws => exact absurd htail (by simp [dotted])
    have htext : some v.text = some "option" := by
      rw [← v.name?_lexeme, hhead]
      rfl
    rw [TypeTree.type, Path.text, Option.some.inj htext]
    rfl

theorem Field.Conforming.exists_tree {d : Dialect} {f : Field} (h : f.Conforming d) :
    ∃ t : FieldTree, (d.rules.fieldOptions = false → t.options = []) ∧ t.asSetting? = none ∧
      t.field = f ∧ t.lexemes = f.lexemes := by
  obtain ⟨modifier, type, name, tag, options⟩ := f
  obtain ⟨n, rfl, hn⟩ := h.tag.exists_numeral
  obtain ⟨ts, rfl, hts⟩ := exists_settings h.options
  obtain ⟨t, rfl, ht⟩ := h.type.exists_tree
  have free : modifier = none → ∀ l ∈ t.lexemes.head?, modifier? l = none := by
    intro hm l hl
    cases t with
    | primitive p =>
      obtain rfl := Option.some.inj hl
      cases p <;> rfl
    | map key value =>
      obtain rfl := Option.some.inj hl
      rfl
    | named path hfree =>
      obtain rfl := Option.some.inj hl
      refine h.unmodified hm path.text rfl path.head.text ?_
      rw [Path.text, segments_joinDots_words]
      rfl
  refine ⟨⟨modifier, t, ⟨name, h.name⟩, n, ts, free⟩, fun hd => ?_, ?_, rfl, ?_⟩
  · refine List.map_eq_nil_iff.mp (h.strict ?_)
    cases d with
    | legacy => exact absurd hd (by decide)
    | strict => rfl
  · rw [FieldTree.asSetting?, if_neg]
    rintro ⟨hm, hoption, hnil⟩
    refine h.noOption hm (type_of_lexemes_option hoption) ?_
    rw [show ts = [] from hnil, List.map_nil]
  · rw [FieldTree.lexemes, Field.lexemes, ht, hn, hts]
    rfl

namespace MessageItem

mutual

theorem exists_tree {d : Dialect} (i : MessageItem) (h : i.Conforming d) :
    ∃ l : MessageLine, l.Read d.rules ∧ l.item? = some i ∧ l.lexemes = i.lexemes := by
  cases i with
  | setting o =>
    rw [Conforming] at h
    obtain ⟨t, rfl, ht⟩ := h.exists_statement
    refine ⟨.setting t, ⟨?_, ?_⟩, ?_, ?_⟩
    · rw [MessageLine.Allowed]
      trivial
    · rw [MessageLine.preferred]
    · rw [MessageLine.item?]
    · rw [MessageLine.lexemes, lexemes, ht]
  | message name body =>
    rw [Conforming] at h
    obtain ⟨ls, hallowed, hpreferred, hitems, hlexemes⟩ := exists_trees body h.2
    refine ⟨.message ⟨name, h.1⟩ ls, ⟨?_, ?_⟩, ?_, ?_⟩
    · rwa [MessageLine.Allowed]
    · rw [MessageLine.preferred, hpreferred]
    · rw [MessageLine.item?, hitems]
    · rw [MessageLine.lexemes, lexemes, hlexemes]
      rfl
  | enumeration e =>
    rw [Conforming] at h
    obtain ⟨t, hallowed, rfl, ht⟩ := h.2.exists_tree
    refine ⟨.enumeration t, ⟨?_, ?_⟩, ?_, ?_⟩
    · rw [MessageLine.Allowed]
      refine ⟨?_, hallowed⟩
      cases d with
      | legacy => rfl
      | strict => exact absurd rfl h.1
    · rw [MessageLine.preferred]
    · rw [MessageLine.item?]
    · rw [MessageLine.lexemes, lexemes, ht]
  | field f =>
    rw [Conforming] at h
    obtain ⟨t, hallowed, hnone, rfl, ht⟩ := h.exists_tree
    refine ⟨.field t, ⟨?_, ?_⟩, ?_, ?_⟩
    · rwa [MessageLine.Allowed]
    · rw [MessageLine.preferred, hnone]
      rfl
    · rw [MessageLine.item?]
    · rw [MessageLine.lexemes, lexemes, ht]

theorem exists_trees {d : Dialect} (is : List MessageItem) (h : AllConforming d is) :
    ∃ ls : List MessageLine, MessageLine.AllAllowed d.rules ls ∧
      MessageLine.allPreferred ls = ls ∧ MessageLine.items ls = is ∧
      MessageLine.allLexemes ls = allLexemes is := by
  cases is with
  | nil => exact ⟨[], trivial, rfl, rfl, rfl⟩
  | cons i is =>
    rw [AllConforming] at h
    obtain ⟨l, ⟨hallowed, hpreferred⟩, hitem, hlexemes⟩ := exists_tree i h.1
    obtain ⟨ls, hallAllowed, hallPreferred, hitems, hallLexemes⟩ := exists_trees is h.2
    refine ⟨l :: ls, ?_, ?_, ?_, ?_⟩
    · rw [MessageLine.AllAllowed]
      exact ⟨hallowed, hallAllowed⟩
    · rw [MessageLine.allPreferred, hpreferred, hallPreferred]
    · rw [MessageLine.items, hitem, hitems]
      rfl
    · rw [MessageLine.allLexemes, allLexemes, hlexemes, hallLexemes]

end

end MessageItem

theorem Statement.Conforming.exists_tree {d : Dialect} {s : Statement} (h : s.Conforming d) :
    ∃ l : DocumentLine, l.Read d.rules ∧ l.statement? = some s ∧ l.lexemes = s.lexemes := by
  cases s with
  | syntaxDecl value =>
    obtain ⟨v, hv, hvalues⟩ : IsSyntaxValue d.rules (.string value) := by
      cases d with
      | legacy => exact isSyntaxValue_legacy.mpr h
      | strict => exact isSyntaxValue_strict.mpr h
    obtain rfl := Lexeme.string.inj hv
    exact ⟨.syntaxDecl v, ⟨hvalues, rfl⟩, rfl, rfl⟩
  | packageDecl name =>
    obtain ⟨v, vs, rfl⟩ := exists_words_of_isDottedName h
    refine ⟨.packageDecl ⟨v, vs⟩, ⟨trivial, rfl⟩, rfl, ?_⟩
    rw [DocumentLine.lexemes, ← pathLexemes_text]
    rfl
  | importDecl i =>
    obtain ⟨path, isPublic⟩ := i
    cases isPublic with
    | false => exact ⟨.importDecl 0 ⟨path, h⟩, ⟨fun _ => Nat.zero_le 1, rfl⟩, rfl, rfl⟩
    | true => exact ⟨.importDecl 1 ⟨path, h⟩, ⟨fun _ => Nat.le_refl 1, rfl⟩, rfl, rfl⟩
  | setting o =>
    obtain ⟨t, rfl, ht⟩ := OptionSetting.Conforming.exists_statement h
    exact ⟨.setting t, ⟨trivial, rfl⟩, rfl, ht⟩
  | message m =>
    have h : (MessageItem.message m.name m.body).Conforming d := h
    rw [MessageItem.Conforming] at h
    obtain ⟨ls, hallowed, hpreferred, hitems, hlexemes⟩ := MessageItem.exists_trees m.body h.2
    refine ⟨.message ⟨m.name, h.1⟩ ls, ⟨hallowed, ?_⟩, ?_, ?_⟩
    · rw [DocumentLine.preferred, hpreferred]
    · rw [DocumentLine.statement?, hitems]
    · rw [DocumentLine.lexemes, MessageLine.lexemes, hlexemes, Statement.lexemes,
        MessageItem.ofMessage, MessageItem.lexemes]
      rfl
  | enumeration e =>
    obtain ⟨t, hallowed, rfl, ht⟩ := Enumeration.Conforming.exists_tree h
    exact ⟨.enumeration t, ⟨hallowed, rfl⟩, rfl, ht⟩

/-- **A conforming document has a tree** that derives it as it is written, without a line break. -/
theorem exists_tree_of_conforming {d : Dialect} {doc : Document} (h : doc.Conforming d) :
    ∃ t : DocumentTree, (∀ l ∈ t.lines, l.Allowed d.rules) ∧ t.preferred = t ∧ t.document = doc ∧
      t.lexemes = doc.lexemes ∧ (doc.statements ≠ [] → t.lines ≠ []) := by
  obtain ⟨statements⟩ := doc
  obtain ⟨ls, hls, rfl, hlexemes⟩ := exists_trees fun s hs => (h s hs).exists_tree
  refine ⟨⟨ls⟩, fun l hl => (hls l hl).1, ?_, rfl, hlexemes, ?_⟩
  · rw [DocumentTree.preferred, List.map_congr_left fun l hl => (hls l hl).2, List.map_id']
  · rintro hne rfl
    exact hne rfl

end SchemaLang
