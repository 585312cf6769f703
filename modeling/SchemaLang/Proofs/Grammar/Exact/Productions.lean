/-
# The grammar is exact

Every production is exact for the language of its trees, in front of any text that does not run
into it: a path must not be followed by a dot, nor a type by an angle bracket.  The productions
come in the order of the grammar, and each one is put together from the ones before it with the
rule for the combinator that puts it together.

Allowances do not show in these statements.  A run that exceeds its allowance is exact for lack of
anything it says, and whole texts never do.
-/
import SchemaLang.Proofs.Grammar.Exact.Choice
import SchemaLang.Proofs.Grammar.Languages

namespace SchemaLang.Grammar

open Text SchemaLang.Grammar.Parser Computability

variable {rules : Rules} {past : List Lexeme} {K : Language Lexeme}

/-! ## 1. Single lexemes -/

instance (l : Lexeme) : Productive (the l) := ⟨_, mem_the l⟩

theorem nil_notMem_one {P : Lexeme → Prop} : [] ∉ one P := by
  rintro ⟨l, -, e⟩
  exact absurd e (by simp)

theorem begins_one {P : Lexeme → Prop} {l : Lexeme} : Begins (one P) l ↔ P l := by
  constructor
  · rintro ⟨w, m, hm, e⟩
    obtain ⟨rfl, -⟩ := List.cons.inj e
    exact hm
  · exact fun hl => ⟨[], l, hl, rfl⟩

theorem begins_the {l m : Lexeme} : Begins (the l) m ↔ m = l := begins_one

/-- What starts with one given lexeme begins with no other. -/
theorem begins_the_mul {l m : Lexeme} (h : Begins (the l * K) m) : m = l :=
  begins_the.mp (begins_mul_of_nil_notMem nil_notMem_one h)

theorem begins_the_mul_mul {l m : Lexeme} {M : Language Lexeme} (h : Begins (the l * M * K) m) :
    m = l := by
  rw [mul_assoc] at h
  exact begins_the_mul h

/-- One given lexeme, asked for by an expectation that it alone meets. -/
theorem names_the {l : Lexeme} {e : Expectation} (h : e.MetBy rules past (some l)) :
    Names rules past (· = l) [e] where
  asks := by simp
  met := by
    rintro _ rfl
    exact ⟨e, by simp, h⟩
  used := by
    rintro e' he'
    obtain rfl : e' = e := by simpa using he'
    exact ⟨l, rfl, h⟩

theorem exact_given [Productive K] {l : Lexeme} {e : Expectation} (hl : l.WellFormed)
    (h : e.MetBy rules past (some l)) :
    Exact rules past (the l) K (lexeme [e] fun x => if x = l then some () else none) :=
  exact_lexeme (names_the h) (fun x _ => by by_cases hx : x = l <;> simp [hx])
    fun _ hx => hx ▸ hl

theorem exact_keyword [Productive K] (k : Keyword) :
    Exact rules past (the (.keyword k)) K (keyword k) := exact_given trivial rfl

theorem exact_mark [Productive K] (p : Punct) :
    Exact rules past (the (.punct p)) K (mark p) := exact_given trivial rfl

theorem exact_newline [Productive K] : Exact rules past (the .newline) K newline :=
  exact_given trivial rfl

/-- A name to stand for all of them. -/
def Word.sample : Word := ⟨"x", by decide⟩

instance : Productive words := ⟨_, _, ⟨Word.sample, rfl⟩, rfl⟩

theorem exact_name [Productive K] : Exact rules past words K name := by
  refine exact_lexeme {
    asks := by simp
    met := ?_
    used := ?_ } (fun l hl => ⟨fun h => ?_, ?_⟩) ?_
  · rintro _ ⟨v, rfl⟩
    exact ⟨.identifier, by simp, .inl ⟨_, _, rfl, v.name?_lexeme⟩⟩
  · intro e he
    obtain rfl : e = .identifier := by simpa using he
    exact ⟨_, ⟨Word.sample, rfl⟩, .inl ⟨_, _, rfl, Word.sample.name?_lexeme⟩⟩
  · obtain ⟨s, hs⟩ := Option.isSome_iff_exists.mp h
    obtain ⟨rfl, hname⟩ := hl.eq_ofWord hs
    exact ⟨⟨s, hname⟩, rfl⟩
  · rintro ⟨v, rfl⟩
    simp
  · rintro _ ⟨v, rfl⟩
    exact Lexeme.wellFormed_ofWord v.spelled

/-- A string of a class, where the wording of the miss depends on whether a string stands there
at all. -/
theorem exact_stringWhere [Productive K] {P : Lexeme → Prop} {passes : String → Bool}
    {expected : List Expectation} (hpasses : ∀ s, passes s = true ↔ P (.string s))
    (hstring : ∀ l, P l → ∃ s, l = .string s) (hexpected : Names rules past P expected) :
    Exact rules past (one P) K (stringWhere passes expected) := by
  have hliteral : Names rules past P [.stringLiteral] := {
    asks := by simp
    met := fun l hl => by
      obtain ⟨s, rfl⟩ := hstring l hl
      exact ⟨.stringLiteral, by simp, s, rfl⟩
    used := fun e he => by
      obtain rfl : e = .stringLiteral := by simpa using he
      obtain ⟨l, hl⟩ := hexpected.exists_mem
      obtain ⟨s, rfl⟩ := hstring l hl
      exact ⟨_, hl, s, rfl⟩ }
  refine exact_look (fun t a h => ?_) (fun t es h => ?_)
  · cases t with
    | none => exact absurd h (by simp)
    | some l =>
      cases l with
      | string s =>
        refine ⟨_, rfl, fun _ => (hpasses s).mp ?_⟩
        by_contra hs
        simp [hs] at h
      | keyword k => exact absurd h (by simp)
      | punct p => exact absurd h (by simp)
      | integer ds => exact absurd h (by simp)
      | identifier s => exact absurd h (by simp)
      | newline => exact absurd h (by simp)
  · by_cases ht : ∃ s, t = some (.string s)
    · obtain ⟨s, rfl⟩ := ht
      by_cases hs : passes s = true
      · simp [hs] at h
      · obtain rfl : expected = es := by simpa [hs] using h
        refine ⟨hexpected, fun l hl hPl => hs ((hpasses s).mpr ?_)⟩
        rwa [Option.some.inj hl]
    · have hes : es = [.stringLiteral] := by
        split at h
        · exact absurd ⟨_, rfl⟩ ht
        · exact (Except.error.inj h).symm
      rw [hes]
      refine ⟨hliteral, fun l hl hPl => ht ?_⟩
      obtain ⟨s, rfl⟩ := hstring l hPl
      exact ⟨s, hl⟩

/-- A path to stand for all of them. -/
def ImportPath.sample : ImportPath := ⟨"x", by decide⟩

instance : Productive importPaths := ⟨_, _, ⟨ImportPath.sample, rfl⟩, rfl⟩

theorem exact_importPath [Productive K] : Exact rules past importPaths K
    (stringWhere (fun s => isImportPath s.toList) [.importPath]) := by
  refine exact_stringWhere (fun s => ⟨fun h => ⟨⟨s, h⟩, rfl⟩, ?_⟩) ?_ {
    asks := by simp
    met := ?_
    used := ?_ }
  · rintro ⟨p, hp⟩
    rw [← Lexeme.string.inj hp]
    exact p.joined
  · rintro _ ⟨p, rfl⟩
    exact ⟨p.text, rfl⟩
  · rintro _ ⟨p, rfl⟩
    exact ⟨.importPath, by simp, p.text, rfl, p.joined⟩
  · intro e he
    obtain rfl : e = .importPath := by simpa using he
    exact ⟨_, ⟨ImportPath.sample, rfl⟩, _, rfl, ImportPath.sample.joined⟩

/-- A number to stand for all of them. -/
def Numeral.sample : Numeral := ⟨"0", by decide, List.all_eq_true.mp (by decide), by decide⟩

instance : Productive numerals := ⟨_, _, ⟨Numeral.sample, rfl⟩, rfl⟩

instance : Productive literals := ⟨_, _, ⟨.boolean true, rfl⟩, rfl⟩

/-- An integer is read, or it is too long. -/
theorem readNumeral_cases {ds : String} (h : (Lexeme.integer ds).WellFormed) :
    (∃ n : Numeral, n.digits = ds ∧ readNumeral ds.toList = .ok n.value) ∨
      ((∃ e, readNumeral ds.toList = .error e) ∧ maxDigits < ds.toList.length) := by
  by_cases hlen : ds.toList.length ≤ maxDigits
  · exact .inl ⟨⟨ds, h.1, h.2, hlen⟩, rfl, readNumeral_of_length_le hlen⟩
  · have hlong := Nat.not_le.mp hlen
    exact .inr ⟨⟨_, if_pos hlong⟩, hlong⟩

theorem exact_tag [Productive K] : Exact rules past numerals K tag := by
  refine exact_settled {
    asks := by simp
    met := ?_
    used := ?_ } ?_ fun l ds hl hds => ?_
  · rintro _ ⟨n, rfl⟩
    exact ⟨.integer, by simp, n.digits, rfl⟩
  · intro e he
    obtain rfl : e = .integer := by simpa using he
    exact ⟨_, ⟨Numeral.sample, rfl⟩, _, rfl⟩
  · rintro _ ⟨n, rfl⟩
    rfl
  · cases l with
    | integer ds' =>
      obtain rfl := Option.some.inj hds
      rcases readNumeral_cases hl with ⟨n, rfl, hn⟩ | ⟨⟨e, he⟩, hlong⟩
      · exact .inl ⟨⟨n, rfl⟩, n.value, by rw [hn]; rfl⟩
      · exact .inr ⟨⟨e, by rw [he]; rfl⟩, ds', rfl, hlong⟩
    | keyword k => exact absurd hds (by simp)
    | punct p => exact absurd hds (by simp)
    | string s => exact absurd hds (by simp)
    | identifier s => exact absurd hds (by simp)
    | newline => exact absurd hds (by simp)

theorem exact_constant [Productive K] : Exact rules past literals K constant := by
  refine exact_settled {
    asks := by simp
    met := ?_
    used := ?_ } ?_ fun l r hl hr => ?_
  · rintro _ ⟨x, rfl⟩
    cases x with
    | number n => exact ⟨.integer, by simp, n.digits, rfl⟩
    | text q => exact ⟨.stringLiteral, by simp, q.text, rfl⟩
    | boolean b => cases b <;> exact ⟨.keyword _, by simp, rfl⟩
  · intro e he
    simp only [List.mem_cons, List.not_mem_nil, or_false] at he
    rcases he with rfl | rfl | rfl | rfl
    · exact ⟨_, ⟨.number Numeral.sample, rfl⟩, _, rfl⟩
    · exact ⟨_, ⟨.text ⟨"", by simp⟩, rfl⟩, _, rfl⟩
    · exact ⟨_, ⟨.boolean true, rfl⟩, rfl⟩
    · exact ⟨_, ⟨.boolean false, rfl⟩, rfl⟩
  · rintro _ ⟨x, rfl⟩
    cases x with
    | number n => rfl
    | text q => rfl
    | boolean b => cases b <;> rfl
  · unfold constant? at hr
    split at hr
    · next ds =>
      obtain rfl := Option.some.inj hr
      rcases readNumeral_cases hl with ⟨n, rfl, hn⟩ | ⟨⟨e, he⟩, hlong⟩
      · exact .inl ⟨⟨.number n, rfl⟩, .numeric n.value, by rw [hn]; rfl⟩
      · exact .inr ⟨⟨e, by rw [he]; rfl⟩, ds, rfl, hlong⟩
    · next s =>
      obtain rfl := Option.some.inj hr
      exact .inl ⟨⟨.text ⟨s, hl⟩, rfl⟩, _, rfl⟩
    · obtain rfl := Option.some.inj hr
      exact .inl ⟨⟨.boolean true, rfl⟩, _, rfl⟩
    · obtain rfl := Option.some.inj hr
      exact .inl ⟨⟨.boolean false, rfl⟩, _, rfl⟩
    · exact absurd hr (by simp)

/-! ## 2. Paths and types -/

instance : Productive dottedWords := ⟨[], Language.nil_mem_kstar _⟩

instance : Productive types := ⟨_, .primitive .int32, trivial, rfl⟩

/-- A text that no path runs into. -/
def EndsPaths (K : Language Lexeme) : Prop := ¬ Begins K (.punct .dot)

/-- A text that no type runs into: `map` may be a path, and `map <` starts a map type. -/
structure EndsTypes (K : Language Lexeme) : Prop where
  path : EndsPaths K
  angle : ¬ Begins K (.punct .langle)

theorem endsPaths_the_mul {l : Lexeme} (h : l ≠ .punct .dot) : EndsPaths (the l * K) :=
  fun hb => h (begins_the_mul hb).symm

theorem endsPaths_the_mul_mul {l : Lexeme} {M : Language Lexeme} (h : l ≠ .punct .dot) :
    EndsPaths (the l * M * K) := fun hb => h (begins_the_mul_mul hb).symm

theorem endsTypes_the_mul {l : Lexeme} (hdot : l ≠ .punct .dot) (hangle : l ≠ .punct .langle) :
    EndsTypes (the l * K) := ⟨endsPaths_the_mul hdot, fun hb => hangle (begins_the_mul hb).symm⟩

theorem endsTypes_the_mul_mul {l : Lexeme} {M : Language Lexeme} (hdot : l ≠ .punct .dot)
    (hangle : l ≠ .punct .langle) : EndsTypes (the l * M * K) := by
  rw [mul_assoc]
  exact endsTypes_the_mul hdot hangle

theorem EndsTypes.endsType_cons (h : EndsTypes K) {l : Lexeme} (hl : Begins K l)
    (w : List Lexeme) : EndsType (l :: w) := by
  constructor
  · intro e
    obtain rfl := Option.some.inj e
    exact h.path hl
  · intro e
    obtain rfl := Option.some.inj e
    exact h.angle hl

theorem EndsTypes.endsType (h : EndsTypes K) {z : List Lexeme} (hz : z ∈ K) : EndsType z := by
  cases z with
  | nil => exact ⟨by simp, by simp⟩
  | cons l z => exact h.endsType_cons (begins_of_cons hz) z

theorem exact_dotted [Productive K] (hK : EndsPaths K) (budget : Nat) :
    Exact rules past dottedWords K (eachAfter (mark .dot) name budget) := by
  refine exact_eachAfter nil_notMem_one (fun l hl => ?_) (fun _ => exact_mark _)
    (fun _ => exact_name) budget
  rw [begins_the.mp hl]
  exact hK

theorem exact_path [Productive K] (hK : EndsPaths K) (budget : Nat) :
    Exact rules past paths K (path budget) := by
  rw [paths_eq]
  exact exact_name.andThen fun _ _ _ => (exact_dotted hK budget).map

theorem exact_primitiveType [Productive K] :
    Exact rules past (one IsPrimitive) K primitiveType := by
  refine (exact_lexeme {
    asks := by simp
    met := ?_
    used := ?_ } (fun _ _ => Iff.rfl) ?_).map
  · intro l hl
    obtain ⟨p, rfl⟩ := isPrimitive_iff.mp hl
    cases p <;> exact ⟨.keyword _, by simp [primitiveKeyword], rfl⟩
  · intro e he
    simp only [List.mem_cons, List.not_mem_nil, or_false] at he
    rcases he with rfl | rfl | rfl | rfl <;> exact ⟨.keyword _, rfl, rfl⟩
  · intro l hl
    obtain ⟨p, rfl⟩ := isPrimitive_iff.mp hl
    trivial

theorem lexeme_start {α : Type} {es : List Expectation} {f : Lexeme → Option α} {c : Cursor}
    {m : Miss} (h : lexeme es f c = .fail m) : m.index = c.index := by
  unfold lexeme look at h
  split at h
  · exact absurd h (by simp)
  · split at h
    · exact absurd h (by simp)
    · exact (Reply.fail.inj h) ▸ rfl
  · split at h
    · exact absurd h (by simp)
    · exact (Reply.fail.inj h) ▸ rfl

/-- Working on a value misses nothing more. -/
theorem of_map_fail {α β : Type} {p : Parser α} {g : α → β} {c : Cursor} {m : Miss}
    (h : (andThen p fun a => succeed (g a)) c = .fail m) : p c = .fail m := by
  unfold andThen at h
  cases hp : p c with
  | ok a next miss =>
    rw [hp] at h
    exact absurd h (by simp [succeed, Reply.behind])
  | fail n =>
    rw [hp] at h
    rw [Reply.fail.inj h]
  | interrupted cause => simp [hp] at h
  | exhausted => simp [hp] at h

theorem exact_mapType {part : Parser TypeRef}
    (hpart : ∀ past K, [Productive K] → EndsTypes K → Exact rules past types K part)
    [Productive K] : Exact rules past mapTypes K (mapType part) := by
  refine (exact_keyword _).andThen fun _ _ _ => ?_
  refine (exact_mark _).andThen fun _ _ _ => ?_
  refine (hpart _ _ (endsTypes_the_mul_mul (by simp) (by simp))).andThen fun _ _ _ => ?_
  refine (exact_mark _).andThen fun _ _ _ => ?_
  refine (hpart _ _ (endsTypes_the_mul (by simp) (by simp))).andThen fun _ _ _ => ?_
  exact (exact_mark _).map

theorem nil_notMem_paths : [] ∉ paths := by
  rw [paths_eq]
  exact nil_notMem_mul nil_notMem_one

theorem nil_notMem_mapTypes : [] ∉ mapTypes := nil_notMem_mul nil_notMem_one

instance : Productive paths := by
  rw [paths_eq]
  infer_instance

/-- A map type is tried before a path.  The two share the word `map` and nothing else, as no angle
bracket follows. -/
theorem exact_mapType_orElse_path [Productive K] {p q : Parser TypeRef} (hK : EndsTypes K)
    (hp : Exact rules past mapTypes K p) (hq : Exact rules past paths K q) :
    Exact rules past (mapTypes + paths) K (orElse p q) := by
  refine hp.orElse (fun v hv z hz => ?_) (fun v hv l w hw hl => ?_) hq
  · obtain ⟨k, x, rfl⟩ := mem_mapTypes.mp hv
    obtain ⟨_, ⟨path, -, rfl⟩, y, hy, e⟩ := hz
    exact absurd e.symm (map_ne_path (hK.endsType hy))
  · obtain ⟨k, x, hmap⟩ := mem_mapTypes.mp hw
    obtain ⟨path, -, rfl⟩ := hv
    exact absurd hmap (map_ne_path (hK.endsType_cons hl w))

/-- **A type is exact**, at every depth of maps. -/
theorem exact_typeRef (budget : Nat) : ∀ past K, [Productive K] → EndsTypes K →
    Exact rules past types K (typeRef budget) := by
  induction budget with
  | zero => exact fun _ _ _ _ _ _ => trivial
  | succ budget ih =>
    intro past K _ hK
    rw [types_eq]
    have hrest : Exact rules past (mapTypes + paths) K
        (orElse (mapType (typeRef budget)) (namedType budget)) :=
      exact_mapType_orElse_path hK (exact_mapType ih) (exact_path hK.path budget).map
    refine exact_primitiveType.orElse_without (fun l => begins_one.symm)
      (fun _ _ h => lexeme_start (of_map_fail h)) nil_notMem_one ?_ hrest
    rintro (h | h)
    · exact nil_notMem_mapTypes h
    · exact nil_notMem_paths h

/-! ## 3. Options -/

theorem begins_words {l : Lexeme} (h : Begins words l) : ∃ w : Word, w.lexeme = l := begins_one.mp h

theorem not_begins_words_punct {p : Punct} : ¬ Begins words (.punct p) := by
  intro h
  obtain ⟨w, hw⟩ := begins_words h
  exact w.lexeme_ne_punct p hw

/-- What starts with a name starts with no mark. -/
theorem not_begins_words_mul {p : Punct} : ¬ Begins (words * K) (.punct p) :=
  fun h => not_begins_words_punct (begins_mul_of_nil_notMem nil_notMem_one h)

theorem not_begins_words_mul_mul {M : Language Lexeme} {p : Punct} :
    ¬ Begins (words * M * K) (.punct p) := by
  rw [mul_assoc]
  exact not_begins_words_mul

theorem exact_extensionKey [Productive K] (hK : EndsPaths K) (budget : Nat) :
    Exact rules past (words * (the (.punct .rparen) * dottedWords)) K (extensionKey budget) := by
  refine exact_name.andThen fun _ _ _ => ?_
  refine (exact_mark _).andThen fun _ _ _ => ?_
  exact (exact_dotted hK budget).map

theorem exact_optionKey [Productive K] (hK : EndsPaths K) (budget : Nat) :
    Exact rules past keys K (optionKey budget) := by
  rw [keys_eq]
  refine Exact.optional_andThen nil_notMem_one (fun l hl => ?_) (exact_mark _) (fun _ _ _ => ?_) ?_
  · rw [begins_the.mp hl]
    exact not_begins_words_mul
  · exact exact_extensionKey hK budget
  · exact exact_name.map

instance : Productive keys := ⟨_, .plain Word.sample, trivial, rfl⟩

instance : Productive settings := by
  rw [settings_eq]
  infer_instance

theorem exact_setting [Productive K] (budget : Nat) :
    Exact rules past settings K (setting budget) := by
  rw [settings_eq]
  refine (exact_optionKey (endsPaths_the_mul_mul (by simp)) budget).andThen fun _ _ _ => ?_
  refine (exact_mark _).andThen fun _ _ _ => ?_
  exact exact_constant.map

theorem exact_optionStatement [Productive K] (budget : Nat) :
    Exact rules past optionStatements K (optionStatement budget) := by
  rw [optionStatements_eq]
  refine (exact_keyword _).andThen fun _ _ _ => ?_
  refine (exact_setting budget).andThen fun _ _ _ => ?_
  exact (exact_mark _).map

theorem exact_bracketed [Productive K] (budget : Nat) :
    Exact rules past (settings * the (.punct .rbracket)) K (bracketed budget) :=
  (exact_setting budget).andThen fun _ _ _ => (exact_mark _).map

theorem exact_brackets [Productive K] (hK : ¬ Begins K (.punct .lbracket)) (enabled : Bool)
    (budget : Nat) : Exact rules past (bracketRows enabled) K (brackets enabled budget) := by
  cases enabled with
  | true =>
    rw [bracketRows_true]
    refine exact_eachAfter nil_notMem_one (fun l hl => ?_) (fun _ => exact_mark _)
      (fun _ => exact_bracketed budget) budget
    rw [begins_the.mp hl]
    exact hK
  | false =>
    rw [bracketRows_false]
    exact exact_succeed []

/-! ## 4. Enumerations -/

instance (enabled : Bool) : Productive (bracketRows enabled) := ⟨_, [], fun _ => rfl, rfl⟩

instance (enabled : Bool) : Productive (tagged enabled) := by
  unfold tagged
  infer_instance

instance (lines : Language Lexeme) : Productive (bodies lines) := by
  unfold bodies
  infer_instance

/-- Every word of a language begins with a name or a keyword. -/
structure StartsWithWord (L : Language Lexeme) : Prop where
  nil : [] ∉ L
  name : ∀ l, Begins L l → l.name? ≠ none

theorem StartsWithWord.add {L M : Language Lexeme} (hL : StartsWithWord L)
    (hM : StartsWithWord M) : StartsWithWord (L + M) where
  nil := fun h => h.elim hL.nil hM.nil
  name := fun l h => (begins_add.mp h).elim (hL.name l) (hM.name l)

theorem StartsWithWord.mul {L M : Language Lexeme} (hL : StartsWithWord L) :
    StartsWithWord (L * M) where
  nil := nil_notMem_mul hL.nil
  name := fun l h => hL.name l (begins_mul_of_nil_notMem hL.nil h)

theorem startsWithWord_keyword (k : Keyword) : StartsWithWord (the (.keyword k)) where
  nil := nil_notMem_one
  name := fun l h => by simp [begins_the.mp h, Lexeme.name?]

theorem startsWithWord_words : StartsWithWord words where
  nil := nil_notMem_one
  name := fun l h => by
    obtain ⟨w, rfl⟩ := begins_words h
    simp

theorem startsWithWord_optionStatements : StartsWithWord optionStatements := by
  rw [optionStatements_eq]
  exact (startsWithWord_keyword _).mul

/-- A body is exact where its items are, whatever follows them. -/
theorem exact_body {α : Type} [Productive K] {I : Language Lexeme} {item : Parser α}
    (hI : StartsWithWord I)
    (hitem : ∀ past K, [Productive K] → Exact rules past I K item) (budget : Nat) :
    Exact rules past (bodies (the .newline + I)) K (body budget item) := by
  have hline : ∀ past K, [Productive K] → Exact rules past (the .newline + I) K (lineOr item) := by
    intro past K _
    refine exact_newline.map.orElse_of_begins nil_notMem_one hI.nil (fun l hl h => ?_)
      (hitem past K).map
    rw [begins_the.mp hl] at h
    exact hI.name _ h rfl
  refine (exact_mark _).andThen fun _ _ _ => ?_
  refine (exact_many (fun h => h.elim nil_notMem_one hI.nil) (fun l hl hb => ?_)
    (fun _ _ => hline _ _) budget).andThen fun _ _ _ => (exact_mark _).map
  rw [begins_the_mul hb] at hl
  rcases begins_add.mp hl with h | h
  · exact absurd (begins_the.mp h) (by simp)
  · exact hI.name _ h rfl

/-- A name, its number and its bracketed options, whatever is made of them. -/
theorem exact_tagged {α : Type} [Productive K] (enabled : Bool) (budget : Nat)
    (make : String → Int → List OptionSetting → α) : Exact rules past (tagged enabled) K
      (andThen name fun v => andThen (mark .equals) fun _ => andThen tag fun n =>
        andThen (brackets enabled budget) fun os => andThen (mark .semicolon) fun _ =>
          succeed (make v n os)) := by
  refine exact_name.andThen fun _ _ _ => ?_
  refine (exact_mark _).andThen fun _ _ _ => ?_
  refine exact_tag.andThen fun _ _ _ => ?_
  refine (exact_brackets ?_ enabled budget).andThen fun _ _ _ => (exact_mark _).map
  exact fun h => absurd (begins_the_mul h) (by simp)

theorem exact_entry [Productive K] (budget : Nat) :
    Exact rules past (tagged rules.entryOptions) K (entry rules budget) :=
  exact_tagged rules.entryOptions budget fun v n os => EnumEntry.mk v n os

/-- An option and an entry are told apart by their second lexeme, neither being part of the
other. -/
theorem exact_enumItem [Productive K] (budget : Nat) :
    Exact rules past (enumItems rules) K (enumItem rules budget) := by
  refine (exact_optionStatement budget).map.orElse_of_level ?_ (exact_entry budget).map
  rintro _ ⟨o, -, rfl⟩ w hw y z e
  obtain ⟨v, n, os, -, rfl⟩ := mem_tagged.mp hw
  exact absurd e (statement_ne_entry (e := ⟨v, n, os⟩))

theorem exact_enumeration [Productive K] (budget : Nat) :
    Exact rules past (enumerations rules) K (enumeration rules budget) := by
  rw [enumerations_eq, enumLines_eq]
  refine (exact_keyword _).andThen fun _ _ _ => ?_
  refine exact_name.andThen fun _ _ _ => ?_
  have hitems : StartsWithWord (enumItems rules) :=
    startsWithWord_optionStatements.add startsWithWord_words.mul
  exact (exact_body hitems (fun _ _ => exact_enumItem budget) budget).map

/-! ## 5. Messages -/

instance (rules : Rules) : Productive (bareFields rules) := by
  unfold bareFields
  infer_instance

theorem startsWithWord_types : StartsWithWord types where
  nil := by
    rintro ⟨t, -, e⟩
    exact t.lexemes_ne_nil e
  name := by
    rintro l ⟨w, t, -, e⟩
    cases t with
    | primitive p =>
      obtain ⟨rfl, -⟩ := List.cons.inj e
      simp [Lexeme.name?]
    | map k v =>
      obtain ⟨rfl, -⟩ := List.cons.inj e
      simp [Lexeme.name?]
    | named path free =>
      obtain ⟨rfl, -⟩ := List.cons.inj e
      simp

theorem startsWithWord_bareFields (rules : Rules) : StartsWithWord (bareFields rules) :=
  startsWithWord_types.mul

theorem startsWithWord_fields (rules : Rules) : StartsWithWord (fields rules) := by
  rw [fields_eq]
  refine .add (.mul {
    nil := nil_notMem_one
    name := fun l h => ?_ }) {
    nil := fun h => (startsWithWord_bareFields rules).nil h.1
    name := fun l h => ?_ }
  · obtain ⟨m, rfl⟩ := isModifier_iff.mp (begins_one.mp h)
    simp [Lexeme.name?]
  · obtain ⟨w, hw, -⟩ := h
    exact (startsWithWord_bareFields rules).name l ⟨w, hw⟩

/-- A field is exact.  Behind a modifier any type may stand; without one, no type is met that starts
with the word of a modifier, as that word was read as a modifier. -/
theorem exact_field [Productive K] (budget : Nat) :
    Exact rules past (fields rules) K (field rules budget) := by
  have hbare : ∀ past m, Exact rules past (bareFields rules) K
      (andThen (typeRef budget) fun t => andThen name fun v => andThen (mark .equals) fun _ =>
        andThen tag fun n => andThen (brackets rules.fieldOptions budget) fun os =>
          andThen (mark .semicolon) fun _ => succeed (Field.mk m t v n os)) := by
    intro past m
    refine (exact_typeRef budget _ _ ⟨?_, ?_⟩).andThen fun t _ _ =>
      exact_tagged rules.fieldOptions budget fun v n os => Field.mk m t v n os
    · exact not_begins_words_mul_mul
    · exact not_begins_words_mul_mul
  rw [fields_eq]
  refine Exact.optional_without (fun l => begins_one.symm) (fun _ _ => lexeme_start)
    nil_notMem_one (startsWithWord_bareFields rules).nil ?_ (fun m _ _ => hbare _ (some m))
    (hbare _ none)
  refine exact_lexeme {
    asks := by simp
    met := ?_
    used := ?_ } (fun _ _ => Iff.rfl) ?_
  · intro l hl
    obtain ⟨m, rfl⟩ := isModifier_iff.mp hl
    cases m <;> exact ⟨.keyword _, by simp [modifierKeyword], rfl⟩
  · intro e he
    simp only [List.mem_cons, List.not_mem_nil, or_false] at he
    rcases he with rfl | rfl | rfl
    · exact ⟨.keyword .kwRequired, rfl, rfl⟩
    · exact ⟨.keyword .kwOptional, rfl, rfl⟩
    · exact ⟨.keyword .kwRepeated, rfl, rfl⟩
  · intro l hl
    obtain ⟨m, rfl⟩ := isModifier_iff.mp hl
    trivial

/-- Two rules for trees of one kind, none of which derives a part of what another one does. -/
theorem Exact.orElse_of_cuts {α τ σ : Type} {L M : Language Lexeme} {f : τ → List Lexeme}
    {g : τ → σ} (hf : Cuts f g) (hL : ∀ w ∈ L, ∃ a, f a = w) (hM : ∀ w ∈ M, ∃ a, f a = w)
    {p q : Parser α} (hp : Exact rules past L K p) (hq : Exact rules past M K q) :
    Exact rules past (L + M) K (Parser.orElse p q) := by
  refine hp.orElse_of_level (fun v hv w hw y z e => ?_) hq
  obtain ⟨a, rfl⟩ := hL v hv
  obtain ⟨b, rfl⟩ := hM w hw
  exact (hf a b y z e).2

theorem startsWithWord_messages (rules : Rules) : StartsWithWord (messages rules) := by
  rw [messages_eq]
  exact (startsWithWord_keyword _).mul

theorem startsWithWord_messageItems (rules : Rules) : StartsWithWord (messageItems rules) := by
  have henum : StartsWithWord (enumerations rules) := by
    rw [enumerations_eq]
    exact (startsWithWord_keyword _).mul
  unfold messageItems
  split
  · exact startsWithWord_optionStatements.add ((startsWithWord_messages rules).add
      (henum.add (startsWithWord_fields rules)))
  · exact startsWithWord_optionStatements.add ((startsWithWord_messages rules).add
      (startsWithWord_fields rules))

/-- What stands in a message is exact.  The alternatives may start alike, but each of them ends a
line, and a line that is read as one of them is no front of another. -/
theorem exact_messageItem [Productive K] {nested : Parser Message} (budget : Nat)
    (hnested : ∀ past K, [Productive K] → Exact rules past (messages rules) K nested) :
    Exact rules past (messageItems rules) K (messageItem rules budget nested) := by
  have hcuts : Cuts MessageLine.lexemes MessageLine.preferred := MessageLine.cuts
  have hline : ∀ w ∈ messageItems rules, ∃ l : MessageLine, l.lexemes = w := by
    intro w hw
    obtain ⟨l, -, rfl⟩ : w ∈ messageLines rules := by
      rw [messageLines_eq]
      exact .inr hw
    exact ⟨l, rfl⟩
  have hfield : Exact rules past (fields rules) K
      (andThen (field rules budget) fun f => succeed (MessageItem.field f)) :=
    (exact_field budget).map
  unfold messageItems at hline ⊢
  unfold messageItem
  split
  · next h =>
    simp only [h, if_true] at hline ⊢
    have henum : Exact rules past (enumerations rules + fields rules) K
        (firstOf [andThen (enumeration rules budget) fun e => succeed (MessageItem.enumeration e),
          andThen (field rules budget) fun f => succeed (MessageItem.field f)]) :=
      (exact_enumeration budget).map.orElse_of_cuts hcuts
        (fun w hw => hline w (.inr (.inr (.inl hw)))) (fun w hw => hline w (.inr (.inr (.inr hw))))
        hfield
    refine (exact_optionStatement budget).map.orElse_of_cuts hcuts (fun w hw => hline w (.inl hw))
      (fun w hw => hline w (.inr hw)) ?_
    exact (hnested past K).map.orElse_of_cuts hcuts (fun w hw => hline w (.inr (.inl hw)))
      (fun w hw => hline w (.inr (.inr hw))) henum
  · next h =>
    simp only [h, Bool.false_eq_true, if_false] at hline ⊢
    refine (exact_optionStatement budget).map.orElse_of_cuts hcuts (fun w hw => hline w (.inl hw))
      (fun w hw => hline w (.inr hw)) ?_
    exact (hnested past K).map.orElse_of_cuts hcuts (fun w hw => hline w (.inr (.inl hw)))
      (fun w hw => hline w (.inr (.inr hw))) hfield

/-- **A message is exact**, at every depth of nesting. -/
theorem exact_message (budget : Nat) : ∀ past K, [Productive K] →
    Exact rules past (messages rules) K (message rules budget) := by
  induction budget with
  | zero => exact fun _ _ _ _ _ => trivial
  | succ budget ih =>
    intro past K _
    rw [messages_eq, messageLines_eq]
    refine (exact_keyword _).andThen fun _ _ _ => ?_
    refine exact_name.andThen fun _ _ _ => ?_
    exact (exact_body (startsWithWord_messageItems rules)
      (fun _ _ => exact_messageItem budget ih) budget).map

end SchemaLang.Grammar
