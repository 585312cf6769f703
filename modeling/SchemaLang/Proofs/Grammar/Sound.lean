/-
# Matches come from syntax trees

Where a production matches, the tokens that it has read are the leaves of a syntax tree, and the
value that it returns is the value of that tree.  The statement is made of every production, one
after the other, and put together with one rule for each combinator.

The trees found this way make the choice that the grammar leaves open: a field that reads like an
option is never met, because the option is tried first and an option that stands there is never
missed (`Stuck.lexemes_notMem`).
-/
import SchemaLang.Proofs.Grammar.Exact.Documents

namespace SchemaLang.Grammar

open Text SchemaLang.Grammar.Parser Computability

variable {α β τ : Type} {rules : Rules}

/-! ## 1. What a match guarantees -/

/-- Wherever the rule matches, what it has read and what it returns are so related. -/
def Makes (R : List Lexeme → α → Prop) (p : Parser α) : Prop :=
  ∀ c a next miss, c.ahead.WellFormed → p c = .ok a next miss →
    ∃ ts, Spans c ts next ∧ R (lexemesOf ts) a

/-- The leaves and the value of a tree. -/
def Builds (P : τ → Prop) (f : τ → List Lexeme) (g : τ → α) (w : List Lexeme) (a : α) : Prop :=
  ∃ t, P t ∧ f t = w ∧ g t = a

theorem Makes.mono {R S : List Lexeme → α → Prop} {p : Parser α} (hp : Makes R p)
    (h : ∀ w a, R w a → S w a) : Makes S p := by
  intro c a next miss hc hpc
  obtain ⟨ts, hr, hR⟩ := hp c a next miss hc hpc
  exact ⟨ts, hr, h _ _ hR⟩

theorem makes_succeed {R : List Lexeme → α → Prop} {a : α} (h : R [] a) :
    Makes R (succeed a) := by
  intro c b next miss _ hpc
  obtain ⟨rfl, rfl, -⟩ := Reply.ok.inj hpc
  exact ⟨[], .refl c, h⟩

theorem Makes.andThen {R : List Lexeme → α → Prop} {T : List Lexeme → β → Prop} {p : Parser α}
    {f : α → Parser β} (hp : Makes R p)
    (hf : ∀ a u, R u a → Makes (fun v b => T (u ++ v) b) (f a)) :
    Makes T (Parser.andThen p f) := by
  intro c b next miss hc h
  obtain ⟨a, mid, m, m', hpc, hfc⟩ := of_andThen_ok h
  obtain ⟨ts, hr, hR⟩ := hp c a mid m hc hpc
  obtain ⟨us, hs, hT⟩ := hf a _ hR mid b next m' (hr.wellFormed hc) hfc
  exact ⟨ts ++ us, hr.trans hs, by rwa [lexemesOf_append]⟩

theorem Makes.map {R : List Lexeme → α → Prop} {T : List Lexeme → β → Prop} {p : Parser α}
    {g : α → β} (hp : Makes R p) (h : ∀ w a, R w a → T w (g a)) :
    Makes T (Parser.andThen p fun a => succeed (g a)) :=
  hp.andThen fun a u hR => makes_succeed (by
    rw [List.append_nil]
    exact h u a hR)

/-- Two rules.  What the second one returns may rely on the first one having missed. -/
theorem Makes.orElse_of_miss {R T : List Lexeme → α → Prop} {p q : Parser α} (hp : Makes T p)
    (hq : Makes R q) (h : ∀ c m ts next a, c.ahead.WellFormed → p c = .fail m →
      Spans c ts next → R (lexemesOf ts) a → T (lexemesOf ts) a) :
    Makes T (Parser.orElse p q) := by
  intro c a next miss hc hpq
  rcases of_orElse_ok hpq with hpc | ⟨m, m', hpc, hqc⟩
  · exact hp c a next miss hc hpc
  · obtain ⟨ts, hr, hR⟩ := hq c a next m' hc hqc
    exact ⟨ts, hr, h c m ts next a hc hpc hr hR⟩

theorem Makes.orElse {T : List Lexeme → α → Prop} {p q : Parser α} (hp : Makes T p)
    (hq : Makes T q) : Makes T (Parser.orElse p q) :=
  hp.orElse_of_miss hq fun _ _ _ _ _ _ _ _ h => h

/-- A rule that may as well not match, and what follows in either case. -/
theorem Makes.optional_of_miss {R : List Lexeme → α → Prop} {N T : List Lexeme → β → Prop}
    {p : Parser α} {f : Option α → Parser β} (hp : Makes R p)
    (hsome : ∀ a u, R u a → Makes (fun v b => T (u ++ v) b) (f (some a)))
    (hnone : Makes N (f none)) (h : ∀ c m ts next b, c.ahead.WellFormed → p c = .fail m →
      Spans c ts next → N (lexemesOf ts) b → T (lexemesOf ts) b) :
    Makes T (Parser.andThen (Parser.optional p) f) := by
  intro c b next miss hc hf
  obtain ⟨x, mid, m, m', hopt, hfc⟩ := of_andThen_ok hf
  rcases of_orElse_ok hopt with hmatch | ⟨n, n', hmiss, hn⟩
  · obtain ⟨a, mid', k, k', hpc, hs⟩ := of_andThen_ok hmatch
    obtain ⟨rfl, rfl, -⟩ := Reply.ok.inj hs
    obtain ⟨ts, hr, hR⟩ := hp c a _ k hc hpc
    obtain ⟨us, hus, hT⟩ := hsome a _ hR _ b next m' (hr.wellFormed hc) hfc
    exact ⟨ts ++ us, hr.trans hus, by rwa [lexemesOf_append]⟩
  · obtain ⟨rfl, rfl, -⟩ := Reply.ok.inj hn
    obtain ⟨ts, hr, hN⟩ := hnone _ b next m' hc hfc
    exact ⟨ts, hr, h _ n ts next b hc (of_map_fail hmiss) hr hN⟩

theorem Makes.optional_andThen {R : List Lexeme → α → Prop} {T : List Lexeme → β → Prop}
    {p : Parser α} {f : Option α → Parser β} (hp : Makes R p)
    (hsome : ∀ a u, R u a → Makes (fun v b => T (u ++ v) b) (f (some a)))
    (hnone : Makes T (f none)) : Makes T (Parser.andThen (Parser.optional p) f) :=
  hp.optional_of_miss hsome hnone fun _ _ _ _ _ _ _ _ h => h

/-- Trees in a row. -/
def BuildsAll (P : τ → Prop) (f : τ → List Lexeme) (g : τ → α) : List Lexeme → List α → Prop :=
  Builds (fun ts => ∀ t ∈ ts, P t) (List.flatMap f) (List.map g)

theorem buildsAll_nil {P : τ → Prop} {f : τ → List Lexeme} {g : τ → α} : BuildsAll P f g [] [] :=
  ⟨[], by simp, rfl, rfl⟩

theorem Builds.cons {P : τ → Prop} {f : τ → List Lexeme} {g : τ → α} {u v : List Lexeme} {a : α}
    {as : List α} (h : Builds P f g u a) (hs : BuildsAll P f g v as) :
    BuildsAll P f g (u ++ v) (a :: as) := by
  obtain ⟨t, ht, rfl, rfl⟩ := h
  obtain ⟨ts, hts, rfl, rfl⟩ := hs
  refine ⟨t :: ts, fun s hs => ?_, rfl, rfl⟩
  rcases List.mem_cons.mp hs with rfl | hs
  · exact ht
  · exact hts s hs

theorem makes_many {P : τ → Prop} {f : τ → List Lexeme} {g : τ → α} {p : Parser α}
    (hp : Makes (Builds P f g) p) (budget : Nat) : Makes (BuildsAll P f g) (many budget p) := by
  induction budget with
  | zero => exact fun _ _ _ _ _ h => absurd h (by simp [many])
  | succ budget ih =>
    refine hp.optional_andThen (fun a u ha => ?_) (makes_succeed buildsAll_nil)
    exact ih.map fun w as has => ha.cons has

theorem makes_eachAfter {P : τ → Prop} {f : τ → List Lexeme} {g : τ → α} {lead : Parser β}
    {p : Parser α} {l : Lexeme} (hlead : Makes (fun w _ => w = [l]) lead)
    (hp : Makes (Builds P f g) p) (budget : Nat) :
    Makes (BuildsAll P (fun t => l :: f t) g) (eachAfter lead p budget) := by
  induction budget with
  | zero => exact fun _ _ _ _ _ h => absurd h (by simp [eachAfter])
  | succ budget ih =>
    refine hlead.optional_andThen (fun _ u hu => ?_) (makes_succeed buildsAll_nil)
    refine hp.andThen fun a v ha => ih.map fun w as has => ?_
    obtain ⟨t, ht, rfl, rfl⟩ := ha
    rw [hu, ← List.append_assoc]
    exact Builds.cons (f := fun t => l :: f t) ⟨t, ht, rfl, rfl⟩ has

/-! ## 2. Single lexemes -/

/-- Any tree will do. -/
def BuildsAny (f : τ → List Lexeme) (g : τ → α) : List Lexeme → α → Prop :=
  Builds (fun _ => True) f g

theorem makes_look {judge : Option Lexeme → Except (List Expectation) α}
    (h : ∀ a, judge none ≠ .ok a) :
    Makes (fun w a => ∃ l, l.WellFormed ∧ judge (some l) = .ok a ∧ w = [l]) (look judge) := by
  rintro ⟨i, s⟩ a next miss hc hl
  cases s with
  | done p =>
    simp only [look] at hl
    split at hl
    · next b hb => exact absurd hb (h b)
    · exact absurd hl (by simp)
  | fault e => exact absurd hl (by simp [look])
  | token t rest =>
    simp only [look] at hl
    split at hl
    · next b hb =>
      obtain ⟨rfl, rfl, -⟩ := Reply.ok.inj hl
      exact ⟨[t], ⟨rfl, rfl⟩, t.lexeme, hc t List.mem_cons_self, hb, rfl⟩
    · exact absurd hl (by simp)

theorem makes_lexeme {es : List Expectation} {f : Lexeme → Option α} :
    Makes (fun w a => ∃ l, l.WellFormed ∧ f l = some a ∧ w = [l]) (lexeme es f) := by
  refine (makes_look (by simp)).mono ?_
  rintro w a ⟨l, hl, hj, rfl⟩
  refine ⟨l, hl, ?_, rfl⟩
  cases hf : f l with
  | none => simp [hf] at hj
  | some b => simpa [hf] using hj

/-- One given lexeme. -/
theorem makes_given {es : List Expectation} {l : Lexeme} :
    Makes (fun w _ => w = [l]) (lexeme es fun x => if x = l then some () else none) := by
  refine makes_lexeme.mono ?_
  rintro w _ ⟨x, -, hx, rfl⟩
  by_cases h : x = l
  · rw [h]
  · simp [h] at hx

theorem makes_keyword (k : Keyword) : Makes (fun w _ => w = [.keyword k]) (keyword k) := makes_given

theorem makes_mark (p : Punct) : Makes (fun w _ => w = [.punct p]) (mark p) := makes_given

theorem makes_newline : Makes (fun w _ => w = [.newline]) newline := makes_given

theorem makes_settle {R : List Lexeme → α → Prop} {e : Except LongNumeral α}
    (h : ∀ a, e = .ok a → R [] a) : Makes R (settle e) := by
  cases e with
  | ok a => exact makes_succeed (h a rfl)
  | error e => exact fun _ _ _ _ _ hs => absurd hs (by simp [settle])

theorem makes_name : Makes (BuildsAny (fun v : Word => [v.lexeme]) Word.text) name := by
  refine makes_lexeme.mono ?_
  rintro w s ⟨l, hl, hs, rfl⟩
  obtain ⟨rfl, hname⟩ := hl.eq_ofWord hs
  exact ⟨⟨s, hname⟩, trivial, rfl, rfl⟩

theorem makes_stringWhere {passes : String → Bool} {expected : List Expectation} :
    Makes (fun w s => passes s = true ∧ w = [.string s]) (stringWhere passes expected) := by
  refine (makes_look (by simp)).mono ?_
  rintro w s ⟨l, -, hj, rfl⟩
  split at hj
  · next text e =>
    obtain rfl := Option.some.inj e
    split at hj
    · next hp =>
      obtain rfl := Except.ok.inj hj
      exact ⟨hp, rfl⟩
    · exact absurd hj (by simp)
  · exact absurd hj (by simp)

/-- An integer that was read is short. -/
theorem numeral_of_readNumeral {ds : String} {n : Nat} (hl : (Lexeme.integer ds).WellFormed)
    (hn : readNumeral ds.toList = .ok n) :
    ∃ m : Numeral, m.lexeme = .integer ds ∧ m.value = n := by
  rcases readNumeral_cases hl with ⟨m, rfl, hm⟩ | ⟨⟨e, he⟩, -⟩
  · rw [hm] at hn
    exact ⟨m, rfl, Except.ok.inj hn⟩
  · rw [he] at hn
    exact absurd hn (by simp)

theorem makes_tag :
    Makes (BuildsAny (fun n : Numeral => [n.lexeme]) fun n => (n.value : Int)) tag := by
  refine makes_lexeme.andThen ?_
  rintro ds _ ⟨l, hl, hds, rfl⟩
  refine makes_settle fun a ha => ?_
  cases l with
  | integer ds' =>
    obtain rfl := Option.some.inj hds
    cases hn : readNumeral ds'.toList with
    | ok n =>
      obtain ⟨m, hm, rfl⟩ := numeral_of_readNumeral hl hn
      rw [hn] at ha
      exact ⟨m, trivial, by rw [← hm]; rfl, Except.ok.inj ha⟩
    | error e => simp [hn, Except.map] at ha
  | keyword k => exact absurd hds (by simp)
  | punct p => exact absurd hds (by simp)
  | string s => exact absurd hds (by simp)
  | identifier s => exact absurd hds (by simp)
  | newline => exact absurd hds (by simp)

theorem makes_constant :
    Makes (BuildsAny (fun x : Literal => [x.lexeme]) Literal.constant) constant := by
  refine makes_lexeme.andThen ?_
  rintro r _ ⟨l, hl, hr, rfl⟩
  refine makes_settle fun a ha => ?_
  unfold constant? at hr
  split at hr
  · next ds =>
    obtain rfl := Option.some.inj hr
    cases hn : readNumeral ds.toList with
    | ok n =>
      obtain ⟨m, hm, rfl⟩ := numeral_of_readNumeral hl hn
      rw [hn] at ha
      exact ⟨.number m, trivial, by rw [← hm]; rfl, Except.ok.inj ha⟩
    | error e => simp [hn, Except.map] at ha
  · next s =>
    obtain rfl := Option.some.inj hr
    exact ⟨.text ⟨s, hl⟩, trivial, rfl, Except.ok.inj ha⟩
  · obtain rfl := Option.some.inj hr
    exact ⟨.boolean true, trivial, rfl, Except.ok.inj ha⟩
  · obtain rfl := Option.some.inj hr
    exact ⟨.boolean false, trivial, rfl, Except.ok.inj ha⟩
  · exact absurd hr (by simp)

/-! ## 3. Paths and types -/

theorem makes_dotted (budget : Nat) : Makes (BuildsAny dotted (List.map Word.text))
    (eachAfter (mark .dot) name budget) := by
  refine (makes_eachAfter (makes_mark .dot) makes_name budget).mono ?_
  rintro w ss ⟨vs, -, rfl, rfl⟩
  exact ⟨vs, trivial, rfl, rfl⟩

theorem makes_path (budget : Nat) : Makes (BuildsAny Path.lexemes Path.text) (path budget) := by
  refine makes_name.andThen ?_
  rintro s _ ⟨v, -, rfl, rfl⟩
  refine (makes_dotted budget).map ?_
  rintro w ss ⟨vs, -, rfl, rfl⟩
  exact ⟨⟨v, vs⟩, trivial, rfl, rfl⟩

theorem primitive?_eq_some {l : Lexeme} {p : PrimitiveType} (h : primitive? l = some p) :
    l = .keyword (primitiveKeyword p) := by
  obtain ⟨q, rfl⟩ := isPrimitive_iff.mp (Option.isSome_of_eq_some h)
  rw [primitive?_primitiveKeyword] at h
  rw [Option.some.inj h]

theorem modifier?_eq_some {l : Lexeme} {m : FieldModifier} (h : modifier? l = some m) :
    l = .keyword (modifierKeyword m) := by
  obtain ⟨n, rfl⟩ := isModifier_iff.mp (Option.isSome_of_eq_some h)
  rw [modifier?_modifierKeyword] at h
  rw [Option.some.inj h]

theorem makes_primitiveType : Makes (BuildsAny TypeTree.lexemes TypeTree.type) primitiveType := by
  refine makes_lexeme.map ?_
  rintro w p ⟨l, -, hp, rfl⟩
  rw [primitive?_eq_some hp]
  exact ⟨.primitive p, trivial, rfl, rfl⟩

theorem makes_mapType {part : Parser TypeRef}
    (hpart : Makes (BuildsAny TypeTree.lexemes TypeTree.type) part) :
    Makes (BuildsAny TypeTree.lexemes TypeTree.type) (mapType part) := by
  refine (makes_keyword _).andThen ?_
  rintro _ _ rfl
  refine (makes_mark _).andThen ?_
  rintro _ _ rfl
  refine hpart.andThen ?_
  rintro _ _ ⟨k, -, rfl, rfl⟩
  refine (makes_mark _).andThen ?_
  rintro _ _ rfl
  refine hpart.andThen ?_
  rintro _ _ ⟨v, -, rfl, rfl⟩
  refine (makes_mark _).map ?_
  rintro _ _ rfl
  exact ⟨.map k v, trivial, by simp [TypeTree.lexemes], rfl⟩

/-- Where a single step has missed, what stands there is not what it asks for. -/
theorem lexeme_missed {es : List Expectation} {f : Lexeme → Option α} {c next : Cursor} {m : Miss}
    {t : Token} {ts : List Token} (h : lexeme es f c = .fail m) (hr : Spans c (t :: ts) next) :
    f t.lexeme = none := by
  cases hf : f t.lexeme with
  | none => rfl
  | some a =>
    have hc : c.ahead = .token t (next.ahead.prepend ts) := hr.ahead
    simp [lexeme, look, hc, hf] at h

theorem makes_typeRef (budget : Nat) :
    Makes (BuildsAny TypeTree.lexemes TypeTree.type) (typeRef budget) := by
  induction budget with
  | zero => exact fun _ _ _ _ _ h => absurd h (by simp [typeRef])
  | succ budget ih =>
    have hrest : Makes (fun w a => BuildsAny TypeTree.lexemes TypeTree.type w a ∨
        BuildsAny Path.lexemes (fun p => .named p.text) w a)
        (Parser.orElse (mapType (typeRef budget)) (namedType budget)) :=
      .orElse ((makes_mapType ih).mono fun _ _ => .inl) ((makes_path budget).map (by
        rintro _ _ ⟨p, -, rfl, rfl⟩
        exact .inr ⟨p, trivial, rfl, rfl⟩))
    refine makes_primitiveType.orElse_of_miss hrest ?_
    rintro c m ts next a hc hmiss hr (h | ⟨p, -, hp, rfl⟩)
    · exact h
    · cases ts with
      | nil => exact absurd hp (by simp [Path.lexemes])
      | cons t ts =>
        have hhead : t.lexeme = p.head.lexeme := (List.cons.inj hp.symm).1
        refine ⟨.named p ?_, trivial, hp, rfl⟩
        rw [← hhead]
        exact lexeme_missed (of_map_fail hmiss) hr

/-! ## 4. Options -/

/-- The name, whether it stands in parentheses, and the dotted names behind it. -/
def KeyTree.parts : KeyTree → String × Bool × Option String
  | plain v => (v.text, false, none)
  | extension v [] => (v.text, true, none)
  | extension v (x :: xs) => (v.text, true, some (joinDots (x.text :: xs.map Word.text)))

theorem makes_optionKey (budget : Nat) :
    Makes (BuildsAny KeyTree.lexemes KeyTree.parts) (optionKey budget) := by
  refine (makes_mark .lparen).optional_andThen ?_ ?_
  · rintro _ _ rfl
    refine makes_name.andThen ?_
    rintro _ _ ⟨v, -, rfl, rfl⟩
    refine (makes_mark _).andThen ?_
    rintro _ _ rfl
    refine (makes_dotted budget).map ?_
    rintro _ _ ⟨vs, -, rfl, rfl⟩
    refine ⟨.extension v vs, trivial, rfl, ?_⟩
    cases vs <;> rfl
  · refine makes_name.map ?_
    rintro _ _ ⟨v, -, rfl, rfl⟩
    exact ⟨.plain v, trivial, rfl, rfl⟩

theorem makes_setting (budget : Nat) :
    Makes (BuildsAny SettingTree.lexemes SettingTree.setting) (setting budget) := by
  refine (makes_optionKey budget).andThen ?_
  rintro _ _ ⟨k, -, rfl, rfl⟩
  refine (makes_mark _).andThen ?_
  rintro _ _ rfl
  refine makes_constant.map ?_
  rintro _ _ ⟨x, -, rfl, rfl⟩
  refine ⟨⟨k, x⟩, trivial, rfl, ?_⟩
  cases k with
  | plain v => rfl
  | extension v vs => cases vs <;> rfl

theorem makes_optionStatement (budget : Nat) :
    Makes (BuildsAny SettingTree.statement SettingTree.setting) (optionStatement budget) := by
  refine (makes_keyword _).andThen ?_
  rintro _ _ rfl
  refine (makes_setting budget).andThen ?_
  rintro _ _ ⟨o, -, rfl, rfl⟩
  refine (makes_mark _).map ?_
  rintro _ _ rfl
  exact ⟨o, trivial, rfl, rfl⟩

/-- Bracketed options in a row, none where they are not enabled. -/
theorem makes_brackets (enabled : Bool) (budget : Nat) :
    Makes (Builds (fun os => enabled = false → os = []) bracketRow
      (List.map SettingTree.setting)) (brackets enabled budget) := by
  cases enabled with
  | false => exact makes_succeed ⟨[], fun _ => rfl, rfl, rfl⟩
  | true =>
    have hp : Makes (BuildsAny (fun o => o.lexemes ++ [Lexeme.punct .rbracket]) SettingTree.setting)
        (bracketed budget) := by
      refine (makes_setting budget).andThen ?_
      rintro _ _ ⟨o, -, rfl, rfl⟩
      refine (makes_mark _).map ?_
      rintro _ _ rfl
      exact ⟨o, trivial, rfl, rfl⟩
    refine (makes_eachAfter (makes_mark .lbracket) hp budget).mono ?_
    rintro w ss ⟨os, -, rfl, rfl⟩
    exact ⟨os, nofun, rfl, rfl⟩

/-! ## 5. Enumerations -/

/-- A tree for a line break. -/
structure IsNewline (P : τ → Prop) (f : τ → List Lexeme) (g : τ → Option α) (t : τ) : Prop where
  allowed : P t
  lexemes : f t = [.newline]
  item : g t = none

theorem makes_lineOr {P : τ → Prop} {f : τ → List Lexeme} {g : τ → Option α} {t : τ}
    {item : Parser α} (ht : IsNewline P f g t)
    (hitem : Makes (fun w a => Builds P f g w (some a)) item) :
    Makes (Builds P f g) (lineOr item) := by
  refine .orElse (makes_newline.map ?_) (hitem.map fun _ _ h => h)
  rintro _ _ rfl
  exact ⟨t, ht.allowed, ht.lexemes, ht.item⟩

theorem filterMap_id_map {g : τ → Option α} (ts : List τ) :
    (ts.map g).filterMap id = ts.filterMap g := by
  rw [List.filterMap_map, Function.id_comp]

theorem makes_body {P : τ → Prop} {f : τ → List Lexeme} {g : τ → Option α} {t : τ}
    {item : Parser α} (ht : IsNewline P f g t)
    (hitem : Makes (fun w a => Builds P f g w (some a)) item) (budget : Nat) :
    Makes (Builds (fun ts => ∀ t ∈ ts, P t)
      (fun ts => .punct .lbrace :: (ts.flatMap f ++ [Lexeme.punct .rbrace])) (List.filterMap g))
      (body budget item) := by
  refine (makes_mark _).andThen ?_
  rintro _ _ rfl
  refine (makes_many (makes_lineOr ht hitem) budget).andThen ?_
  rintro _ _ ⟨ts, hts, rfl, rfl⟩
  refine (makes_mark _).map ?_
  rintro _ _ rfl
  exact ⟨ts, hts, rfl, (filterMap_id_map ts).symm⟩

/-- A name, its number and its bracketed options, whatever is made of them. -/
theorem makes_tagged {T : List Lexeme → α → Prop} (enabled : Bool) (budget : Nat)
    (make : String → Int → List OptionSetting → α)
    (h : ∀ (v : Word) (n : Numeral) (os : List SettingTree), (enabled = false → os = []) →
      T (v.lexeme :: .punct .equals :: n.lexeme :: (bracketRow os ++ [Lexeme.punct .semicolon]))
        (make v.text n.value (os.map SettingTree.setting))) :
    Makes T (Parser.andThen name fun v => Parser.andThen (mark .equals) fun _ =>
      Parser.andThen tag fun n => Parser.andThen (brackets enabled budget) fun os =>
        Parser.andThen (mark .semicolon) fun _ => succeed (make v n os)) := by
  refine makes_name.andThen ?_
  rintro _ _ ⟨v, -, rfl, rfl⟩
  refine (makes_mark _).andThen ?_
  rintro _ _ rfl
  refine makes_tag.andThen ?_
  rintro _ _ ⟨n, -, rfl, rfl⟩
  refine (makes_brackets enabled budget).andThen ?_
  rintro _ _ ⟨os, hos, rfl, rfl⟩
  refine (makes_mark _).map ?_
  rintro _ _ rfl
  exact h v n os hos

theorem makes_entry (rules : Rules) (budget : Nat) :
    Makes (Builds (fun e => rules.entryOptions = false → e.options = []) EntryTree.lexemes
      EntryTree.entry) (entry rules budget) :=
  makes_tagged rules.entryOptions budget (fun v n os => EnumEntry.mk v n os)
    fun v n os hos => ⟨⟨v, n, os⟩, hos, rfl, rfl⟩

theorem makes_enumItem (rules : Rules) (budget : Nat) :
    Makes (fun w i => Builds (EnumLine.Allowed rules) EnumLine.lexemes EnumLine.item? w (some i))
      (enumItem rules budget) := by
  refine .orElse ((makes_optionStatement budget).map ?_) ((makes_entry rules budget).map ?_)
  · rintro _ _ ⟨o, -, rfl, rfl⟩
    exact ⟨.setting o, trivial, rfl, rfl⟩
  · rintro _ _ ⟨e, he, rfl, rfl⟩
    exact ⟨.entry e, he, rfl, rfl⟩

theorem makes_enumeration (rules : Rules) (budget : Nat) :
    Makes (Builds (EnumTree.Allowed rules) EnumTree.lexemes EnumTree.enumeration)
      (enumeration rules budget) := by
  have hnewline : IsNewline (EnumLine.Allowed rules) EnumLine.lexemes EnumLine.item? .newline :=
    ⟨trivial, rfl, rfl⟩
  refine (makes_keyword _).andThen ?_
  rintro _ _ rfl
  refine makes_name.andThen ?_
  rintro _ _ ⟨v, -, rfl, rfl⟩
  refine (makes_body hnewline (makes_enumItem rules budget) budget).map ?_
  rintro _ _ ⟨ls, hls, rfl, rfl⟩
  exact ⟨⟨v, ls⟩, hls, rfl, rfl⟩

/-! ## 6. Messages -/

theorem makes_field (rules : Rules) (budget : Nat) :
    Makes (Builds (fun f => rules.fieldOptions = false → f.options = []) FieldTree.lexemes
      FieldTree.field) (field rules budget) := by
  -- without the modifier, whatever it is
  have hbare : ∀ m, Makes (fun w f => ∃ (t : TypeTree) (v : Word) (n : Numeral)
      (os : List SettingTree), (rules.fieldOptions = false → os = []) ∧
        t.lexemes ++ (v.lexeme :: .punct .equals :: n.lexeme ::
          (bracketRow os ++ [Lexeme.punct .semicolon])) = w ∧
        Field.mk m t.type v.text n.value (os.map SettingTree.setting) = f)
      (Parser.andThen (typeRef budget) fun t => Parser.andThen name fun v =>
        Parser.andThen (mark .equals) fun _ => Parser.andThen tag fun n =>
          Parser.andThen (brackets rules.fieldOptions budget) fun os =>
            Parser.andThen (mark .semicolon) fun _ => succeed (Field.mk m t v n os)) := by
    intro m
    refine (makes_typeRef budget).andThen ?_
    rintro _ _ ⟨t, -, rfl, rfl⟩
    exact makes_tagged rules.fieldOptions budget (fun v n os => Field.mk m t.type v n os)
      fun v n os hos => ⟨t, v, n, os, hos, rfl, rfl⟩
  refine makes_lexeme.optional_of_miss ?_ (hbare none) ?_
  · rintro m _ ⟨l, -, hm, rfl⟩
    refine (hbare (some m)).mono ?_
    rintro _ _ ⟨t, v, n, os, hos, rfl, rfl⟩
    refine ⟨⟨some m, t, v, n, os, nofun⟩, hos, ?_, rfl⟩
    rw [modifier?_eq_some hm, FieldTree.lexemes_of_some rfl]
    rfl
  · rintro c m ts next _ hc hmiss hr ⟨t, v, n, os, hos, hts, rfl⟩
    have free : ∀ l ∈ t.lexemes.head?, modifier? l = none := by
      intro l hl
      rw [← List.head?_append_of_ne_nil _ t.lexemes_ne_nil, hts] at hl
      cases ts with
      | nil => exact absurd hl (by simp)
      | cons x ts =>
        obtain rfl := Option.some.inj hl
        exact lexeme_missed hmiss hr
    exact ⟨⟨none, t, v, n, os, fun _ => free⟩, hos, (FieldTree.lexemes_of_none rfl).trans hts, rfl⟩

/-- A text that starts with what is in sight, read to its end. -/
theorem sees_lexemes (c : Cursor) : Sees c c.ahead.lexemes := by
  intro x hx
  cases hs : c.ahead with
  | done p =>
    rw [hs] at hx
    obtain rfl := Option.some.inj hx
    rfl
  | fault e => simp [hs, TokenStream.sight?] at hx
  | token t rest =>
    rw [hs] at hx
    obtain rfl := Option.some.inj hx
    rfl

/-- **An exact rule does not miss what is there**: where it misses, the text ahead is none that it
could read with what may follow. -/
theorem Stuck.lexemes_notMem {past : List Lexeme} {L K : Language Lexeme} {c : Cursor} {m : Miss}
    (h : Stuck rules past L K c m) : c.ahead.lexemes ∉ L * K := by
  obtain ⟨ts, mid, h⟩ := h
  rw [h.reads.lexemes]
  exact h.not_mem (sees_lexemes mid)

/-- Any text at all. -/
def anything : Language Lexeme := Set.univ

instance : Productive anything := ⟨[], trivial⟩

/-- An option that stands there is never missed. -/
theorem optionStatement_missed {c next : Cursor} {m : Miss} {ts : List Token} {budget : Nat}
    (hc : c.ahead.WellFormed) (h : optionStatement budget c = .fail m) (hr : Spans c ts next) :
    lexemesOf ts ∉ optionStatements := by
  intro hts
  have hexact : Exact Dialect.strict.rules [] optionStatements anything (optionStatement budget) :=
    exact_optionStatement budget
  have hreply := hexact c hc
  rw [h] at hreply
  refine Stuck.lexemes_notMem hreply ?_
  rw [hr.lexemes]
  exact Language.append_mem_mul hts trivial

/-- The lines of a message that the grammar reads: allowed, and no field where an option could
stand. -/
def MessageLine.Read (rules : Rules) (l : MessageLine) : Prop := l.Allowed rules ∧ l.preferred = l

theorem MessageLine.allPreferred_eq_self {ls : List MessageLine}
    (h : ∀ l ∈ ls, l.preferred = l) : allPreferred ls = ls := by
  rw [allPreferred_eq]
  exact (List.map_congr_left h).trans (List.map_id ls)

/-- The line that a message is in the body of another one. -/
def messageLine (m : Word × List MessageLine) : MessageLine := .message m.1 m.2

/-- The message that a name and a body make. -/
def messageOf (m : Word × List MessageLine) : Message := ⟨m.1.text, MessageLine.items m.2⟩

/-- The leaves and the item of a line that the grammar reads. -/
def IsItem (rules : Rules) (w : List Lexeme) (i : MessageItem) : Prop :=
  Builds (MessageLine.Read rules) MessageLine.lexemes MessageLine.item? w (some i)

/-- The leaves and the item of a field, whether or not it reads like an option. -/
def IsField (rules : Rules) (w : List Lexeme) (i : MessageItem) : Prop :=
  Builds (fun f => rules.fieldOptions = false → f.options = []) FieldTree.lexemes
    (fun f => MessageItem.field f.field) w i

/-- A field that reads like an option would have been read as one. -/
theorem IsField.isItem {c next : Cursor} {m : Miss} {ts : List Token} {i : MessageItem}
    {budget : Nat} (h : IsField rules (lexemesOf ts) i) (hc : c.ahead.WellFormed)
    (hmiss : optionStatement budget c = .fail m) (hr : Spans c ts next) :
    IsItem rules (lexemesOf ts) i := by
  obtain ⟨f, hf, hts, rfl⟩ := h
  refine ⟨.field f, ⟨?_, ?_⟩, ?_, ?_⟩
  · rwa [MessageLine.Allowed]
  · rw [MessageLine.preferred]
    cases ho : f.asSetting? with
    | none => rfl
    | some o =>
      refine absurd ?_ (optionStatement_missed hc hmiss hr)
      exact ⟨o, trivial, (FieldTree.statement_of_asSetting? ho).trans hts⟩
  · rwa [MessageLine.lexemes]
  · rw [MessageLine.item?]

/-- What stands in a message comes from a line of it. -/
theorem makes_messageItem (rules : Rules) (budget : Nat) {nested : Parser Message}
    (hnested : Makes (Builds (fun m => (messageLine m).Read rules)
      (fun m => (messageLine m).lexemes) messageOf) nested) :
    Makes (IsItem rules) (messageItem rules budget nested) := by
  have hsetting : Makes (IsItem rules) (Parser.andThen (optionStatement budget) fun o =>
      succeed (MessageItem.setting o)) := by
    refine (makes_optionStatement budget).map ?_
    rintro _ _ ⟨o, -, rfl, rfl⟩
    refine ⟨.setting o, ⟨?_, ?_⟩, ?_, ?_⟩
    · rw [MessageLine.Allowed]
      trivial
    · rw [MessageLine.preferred]
    · rw [MessageLine.lexemes]
    · rw [MessageLine.item?]
  have hmessage : Makes (fun w i => IsItem rules w i ∨ IsField rules w i)
      (Parser.andThen nested fun m => succeed (MessageItem.ofMessage m)) := by
    refine hnested.map ?_
    rintro _ _ ⟨m, hm, rfl, rfl⟩
    refine .inl ⟨messageLine m, hm, rfl, ?_⟩
    rw [messageLine, MessageLine.item?]
    rfl
  have hfield : Makes (fun w i => IsItem rules w i ∨ IsField rules w i)
      (Parser.andThen (field rules budget) fun f => succeed (MessageItem.field f)) := by
    refine (makes_field rules budget).map ?_
    rintro _ _ ⟨f, hf, rfl, rfl⟩
    exact .inr ⟨f, hf, rfl, rfl⟩
  unfold messageItem
  split
  · next h =>
    have henum : Makes (fun w i => IsItem rules w i ∨ IsField rules w i)
        (Parser.andThen (enumeration rules budget) fun e =>
          succeed (MessageItem.enumeration e)) := by
      refine (makes_enumeration rules budget).map ?_
      rintro _ _ ⟨e, he, rfl, rfl⟩
      refine .inl ⟨.enumeration e, ⟨?_, ?_⟩, ?_, ?_⟩
      · rw [MessageLine.Allowed]
        exact ⟨h, he⟩
      · rw [MessageLine.preferred]
      · rw [MessageLine.lexemes]
      · rw [MessageLine.item?]
    exact hsetting.orElse_of_miss (hmessage.orElse (henum.orElse hfield))
      fun _ _ _ _ _ hc hmiss hr h => h.elim id (·.isItem hc (of_map_fail hmiss) hr)
  · exact hsetting.orElse_of_miss (hmessage.orElse hfield)
      fun _ _ _ _ _ hc hmiss hr h => h.elim id (·.isItem hc (of_map_fail hmiss) hr)

theorem makes_message (rules : Rules) (budget : Nat) :
    Makes (Builds (fun m => (messageLine m).Read rules) (fun m => (messageLine m).lexemes)
      messageOf) (message rules budget) := by
  induction budget with
  | zero => exact fun _ _ _ _ _ h => absurd h (by simp [message])
  | succ budget ih =>
    have hnewline : IsNewline (MessageLine.Read rules) MessageLine.lexemes MessageLine.item?
        .newline := by
      refine ⟨⟨?_, ?_⟩, ?_, ?_⟩
      · rw [MessageLine.Allowed]
        trivial
      · rw [MessageLine.preferred]
      · rw [MessageLine.lexemes]
      · rw [MessageLine.item?]
    refine (makes_keyword _).andThen ?_
    rintro _ _ rfl
    refine makes_name.andThen ?_
    rintro _ _ ⟨v, -, rfl, rfl⟩
    refine (makes_body hnewline (makes_messageItem rules budget ih) budget).map ?_
    rintro _ _ ⟨ls, hls, rfl, rfl⟩
    refine ⟨⟨v, ls⟩, ⟨?_, ?_⟩, ?_, ?_⟩
    · rw [messageLine, MessageLine.Allowed, MessageLine.allAllowed_iff]
      exact fun l hl => (hls l hl).1
    · rw [messageLine, MessageLine.preferred,
        MessageLine.allPreferred_eq_self fun l hl => (hls l hl).2]
    · simp only [messageLine, MessageLine.lexemes, MessageLine.allLexemes_eq]
      rfl
    · rw [messageOf, MessageLine.items_eq]

/-! ## 7. Statements and documents -/

/-- The lines of a document that the grammar reads. -/
def DocumentLine.Read (rules : Rules) (l : DocumentLine) : Prop :=
  l.Allowed rules ∧ l.preferred = l

/-- The leaves and the statement of a line that the grammar reads. -/
def IsStatement (rules : Rules) (w : List Lexeme) (s : Statement) : Prop :=
  Builds (DocumentLine.Read rules) DocumentLine.lexemes DocumentLine.statement? w (some s)

theorem makes_syntaxValue (d : Dialect) : Makes (fun w s => w = [.string s] ∧
    IsSyntaxValue d.rules (.string s)) (syntaxValue d.rules) := by
  cases d with
  | legacy =>
    refine makes_stringWhere.mono ?_
    rintro _ s ⟨hs, rfl⟩
    exact ⟨rfl, isSyntaxValue_legacy.mpr hs⟩
  | strict =>
    refine makes_stringWhere.mono ?_
    rintro _ s ⟨hs, rfl⟩
    exact ⟨rfl, isSyntaxValue_strict.mpr (List.contains_iff_mem.mp hs)⟩

theorem makes_syntaxStatement (d : Dialect) : Makes (IsStatement d.rules)
    (Parser.andThen (syntaxStatement d.rules) fun v => succeed (.syntaxDecl v)) := by
  have h : Makes (fun w s => ∃ v : Word, (DocumentLine.syntaxDecl v).Allowed d.rules ∧
      (DocumentLine.syntaxDecl v).lexemes = w ∧ v.text = s) (syntaxStatement d.rules) := by
    refine (makes_keyword _).andThen ?_
    rintro _ _ rfl
    refine (makes_mark _).andThen ?_
    rintro _ _ rfl
    refine (makes_syntaxValue d).andThen ?_
    rintro _ _ ⟨rfl, v, hv, hvalues⟩
    refine (makes_mark _).map ?_
    rintro _ _ rfl
    exact ⟨v, hvalues, by rw [Lexeme.string.inj hv]; rfl, (Lexeme.string.inj hv).symm⟩
  refine h.map ?_
  rintro _ _ ⟨v, hv, rfl, rfl⟩
  exact ⟨.syntaxDecl v, ⟨hv, rfl⟩, rfl, rfl⟩

theorem makes_packageStatement (rules : Rules) (budget : Nat) : Makes (IsStatement rules)
    (Parser.andThen (packageStatement budget) fun n => succeed (.packageDecl n)) := by
  have h : Makes (BuildsAny (fun p => (DocumentLine.packageDecl p).lexemes) Path.text)
      (packageStatement budget) := by
    refine (makes_keyword _).andThen ?_
    rintro _ _ rfl
    refine (makes_path budget).andThen ?_
    rintro _ _ ⟨p, -, rfl, rfl⟩
    refine (makes_mark _).map ?_
    rintro _ _ rfl
    exact ⟨p, trivial, rfl, rfl⟩
  refine h.map ?_
  rintro _ _ ⟨p, -, rfl, rfl⟩
  exact ⟨.packageDecl p, ⟨trivial, rfl⟩, rfl, rfl⟩

/-- An import is public where `public` was written at all. -/
theorem makes_importModifier (rules : Rules) (budget : Nat) :
    Makes (Builds (fun n => rules.repeatsImportModifier = false → n ≤ 1)
      (fun n => List.replicate n (.keyword .kwPublic)) fun n => decide (0 < n))
      (importModifier rules budget) := by
  refine (makes_keyword _).optional_andThen ?_ ?_
  · rintro _ _ rfl
    have hunit : Makes (BuildsAny (fun _ : Unit => [.keyword .kwPublic]) id)
        (keyword .kwPublic) := by
      refine (makes_keyword _).mono ?_
      rintro _ _ rfl
      exact ⟨(), trivial, rfl, rfl⟩
    show Makes _ (ite _ _ _)
    split
    · next h =>
      refine (makes_many hunit budget).map ?_
      rintro _ _ ⟨us, -, rfl, -⟩
      exact ⟨us.length + 1, by simp [h], by rw [flatMap_public]; rfl, by simp⟩
    · exact makes_succeed ⟨1, fun _ => Nat.le_refl 1, rfl, rfl⟩
  · exact makes_succeed ⟨0, fun _ => Nat.zero_le 1, rfl, rfl⟩

theorem makes_importStatement (rules : Rules) (budget : Nat) : Makes (IsStatement rules)
    (Parser.andThen (importStatement rules budget) fun i => succeed (.importDecl i)) := by
  have h : Makes (fun w i => ∃ n p, (DocumentLine.importDecl n p).Allowed rules ∧
      (DocumentLine.importDecl n p).lexemes = w ∧ ⟨p.text, decide (0 < n)⟩ = i)
      (importStatement rules budget) := by
    refine (makes_keyword _).andThen ?_
    rintro _ _ rfl
    refine (makes_importModifier rules budget).andThen ?_
    rintro _ _ ⟨n, hn, rfl, rfl⟩
    refine makes_stringWhere.andThen ?_
    rintro s _ ⟨hs, rfl⟩
    refine (makes_mark _).map ?_
    rintro _ _ rfl
    exact ⟨n, ⟨s, hs⟩, hn, rfl, rfl⟩
  refine h.map ?_
  rintro _ _ ⟨n, p, hn, rfl, rfl⟩
  exact ⟨.importDecl n p, ⟨hn, rfl⟩, rfl, rfl⟩

theorem makes_statement (d : Dialect) (budget : Nat) :
    Makes (IsStatement d.rules) (statement d.rules budget) := by
  refine (makes_syntaxStatement d).orElse ?_
  refine (makes_packageStatement d.rules budget).orElse ?_
  refine (makes_importStatement d.rules budget).orElse ?_
  refine .orElse ((makes_optionStatement budget).map ?_) ?_
  · rintro _ _ ⟨o, -, rfl, rfl⟩
    exact ⟨.setting o, ⟨trivial, rfl⟩, rfl, rfl⟩
  refine .orElse ((makes_message d.rules budget).map ?_) ?_
  · rintro _ _ ⟨⟨v, ls⟩, ⟨hallowed, hpreferred⟩, rfl, rfl⟩
    rw [messageLine, MessageLine.Allowed] at hallowed
    rw [messageLine, MessageLine.preferred, MessageLine.message.injEq] at hpreferred
    refine ⟨.message v ls, ⟨hallowed, ?_⟩, rfl, rfl⟩
    rw [DocumentLine.preferred, hpreferred.2]
  · refine (makes_enumeration d.rules budget).map ?_
    rintro _ _ ⟨e, he, rfl, rfl⟩
    exact ⟨.enumeration e, ⟨he, rfl⟩, rfl, rfl⟩

theorem makes_lines (d : Dialect) (budget : Nat) (budget' : Nat) :
    Makes (BuildsAll (DocumentLine.Read d.rules) DocumentLine.lexemes DocumentLine.statement?)
      (many budget (lineOr (statement d.rules budget'))) := by
  have hnewline : IsNewline (DocumentLine.Read d.rules) DocumentLine.lexemes
      DocumentLine.statement? .newline := ⟨⟨trivial, rfl⟩, rfl, rfl⟩
  exact makes_many (makes_lineOr hnewline (makes_statement d budget')) budget

/-- Where the end of the text is met, it is there, and nothing is read. -/
theorem of_endOfText_ok {c next : Cursor} {miss : Option Miss}
    (h : endOfText c = .ok () next miss) : next = c ∧ ∃ p, c.ahead = .done p := by
  unfold endOfText look at h
  split at h
  · exact absurd h (by simp)
  · next p hp =>
    obtain ⟨-, rfl, -⟩ := Reply.ok.inj h
    exact ⟨rfl, p, hp⟩
  · exact absurd h (by simp)

/-- **A document that was read comes from a syntax tree** of the dialect, which derives the whole
text and makes the open choice. -/
theorem document_sound {d : Dialect} {budget : Nat} {s : TokenStream} {doc : Document}
    {next : Cursor} {miss : Option Miss} (hs : s.WellFormed)
    (h : document d.rules budget (.front s) = .ok doc next miss) :
    s.error? = none ∧ ∃ t : DocumentTree, t.Allowed d.rules ∧ t.preferred = t ∧
      t.lexemes = s.lexemes ∧ t.document = doc := by
  rw [document_eq] at h
  obtain ⟨lines, mid, m, m', hlines, hrest⟩ := of_andThen_ok h
  obtain ⟨ts, hr, ls, hls, hlexemes, rfl⟩ := makes_lines d budget budget _ lines mid m hs hlines
  split at hrest
  · rw [refuse_andThen] at hrest
    unfold refuse look at hrest
    split at hrest <;> exact absurd hrest (by simp)
  · next hne =>
    obtain ⟨_, last, n, n', hend, hdoc⟩ := of_andThen_ok hrest
    obtain ⟨rfl, p, hp⟩ := of_endOfText_ok hend
    obtain ⟨rfl, -, -⟩ := Reply.ok.inj hdoc
    refine ⟨?_, ⟨ls⟩, ⟨fun l hl => (hls l hl).1, ?_⟩, ?_, ?_, ?_⟩
    · exact hr.error?.trans (by rw [hp]; rfl)
    · rintro hempty rfl
      simp [hempty] at hne
    · rw [DocumentTree.preferred, List.map_congr_left fun l hl => (hls l hl).2, List.map_id']
    · have hread : s.lexemes = lexemesOf ts ++ last.ahead.lexemes := hr.lexemes
      rw [hread, hp, DocumentTree.lexemes, hlexemes]
      simp [TokenStream.lexemes, TokenStream.toList]
    · rw [DocumentTree.document, filterMap_id_map]

end SchemaLang.Grammar
