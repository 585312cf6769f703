/-
# The productions follow the grammar

Rule by rule, in the order of the grammar, every production of the reader is shown to follow its
rule.  Only the equals sign itself ends behind an equals sign, and only a value is asked for there.
All other rules start and end where none was just passed (`Whole`).
-/
import SchemaLang.Proofs.Reader.Combinators

namespace SchemaLang.Buffered

open Text Grammar SchemaLang.Grammar.Parser

variable {α : Type} {rules : Rules} {s : TokenStream} {P Q : List Lexeme → Prop}
  {expected : List Expectation}

/-! ## 1. Single lexemes -/

theorem judgeOf_bind (expected : List Expectation) (g : Lexeme → Option α) :
    look (judgeOf expected (·.bind g)) = lexeme expected g := by
  refine congrArg look (funext fun x => ?_)
  cases x <;> rfl

theorem noEquals_append {u : List Lexeme} {l : Lexeme} (h : l ≠ .punct .equals) :
    NoEquals (u ++ [l]) := by
  rw [NoEquals, List.getLast?_concat]
  exact fun heq => h (Option.some.inj heq)

/-- An action that starts and ends where no equals sign was just passed, and follows a rule. -/
abbrev Whole (rules : Rules) (s : TokenStream) (m : Action α) (p : Parser α) : Prop :=
  Follows rules s NoEquals NoEquals m p

theorem follows_lexeme {g : Lexeme → Option α} (hask : Asks rules P expected (·.bind g))
    (hkeep : ∀ u l a, P u → g l = some a → Q (u ++ [l])) :
    Follows rules s P Q (expect expected (·.bind g)) (lexeme expected g) := by
  rw [← judgeOf_bind]
  refine follows_expect hask fun u x a hu hx => ?_
  obtain ⟨l, rfl, hl⟩ := Option.bind_eq_some_iff.mp hx
  exact hkeep u l a hu hl

theorem whole_optional_lexeme {g : Lexeme → Option α}
    (hask : Asks rules NoEquals expected (·.bind g)) (hg : g (.punct .equals) = none) :
    Whole rules s (accept expected (·.bind g)) (optional (lexeme expected g)) := by
  rw [← judgeOf_bind]
  refine follows_accept hask fun u x a _ hx => ?_
  obtain ⟨l, rfl, hl⟩ := Option.bind_eq_some_iff.mp hx
  refine noEquals_append ?_
  rintro rfl
  exact absurd (hg.symm.trans hl) (by simp)

/-- One lexeme is asked for by an expectation that only it meets. -/
theorem asks_exactly {e : Expectation} {l : Lexeme}
    (he : ∀ u t, e.MetBy rules u t → t = some l) : Asks rules P [e] (·.bind (exactly l)) where
  asks := by simp
  unmet := by
    rintro u x - hx e' he' hmet
    obtain rfl := List.mem_singleton.mp he'
    obtain rfl := he u x hmet
    exact absurd hx (by simp [exactly])

theorem exactly_eq_some {l l' : Lexeme} {a : Unit} (h : exactly l l' = some a) : l' = l := by
  unfold exactly at h
  split at h
  · assumption
  · exact absurd h (by simp)

theorem whole_keyword (k : Keyword) : Whole rules s (keyword k) (Grammar.keyword k) :=
  follows_lexeme (asks_exactly fun _ _ => id) fun _ _ _ _ hl =>
    noEquals_append (by simp [exactly_eq_some hl])

theorem whole_acceptKeyword (k : Keyword) :
    Whole rules s (acceptKeyword k) (optional (Grammar.keyword k)) :=
  whole_optional_lexeme (asks_exactly fun _ _ => id) rfl

theorem whole_mark {p : Punct} (hp : p ≠ .equals) : Whole rules s (mark p) (Grammar.mark p) :=
  follows_lexeme (asks_exactly fun _ _ => id) fun _ _ _ _ hl =>
    noEquals_append (by simp [exactly_eq_some hl, hp])

theorem whole_acceptMark {p : Punct} (hp : p ≠ .equals) :
    Whole rules s (acceptMark p) (optional (Grammar.mark p)) :=
  whole_optional_lexeme (asks_exactly fun _ _ => id) (by simp [exactly, hp.symm])

/-- Behind the equals sign anything goes. -/
theorem follows_equals : Follows rules s NoEquals Anything (mark .equals) (Grammar.mark .equals) :=
  follows_lexeme (asks_exactly fun _ _ => id) fun _ _ _ _ _ => trivial

theorem whole_acceptNewline : Whole rules s acceptNewline (optional newline) :=
  whole_optional_lexeme (asks_exactly fun _ _ => id) rfl

theorem name_eq_expect : name = expect [.identifier] (·.bind Lexeme.name?) := by
  rw [expect, accept, action_bind_assoc]
  refine congrArg (current >>= ·) (funext fun x => Eq.symm ?_)
  cases x.lexeme.bind Lexeme.name? with
  | none => exact action_bind_assoc (note [.identifier]) (fun _ => pure none) _
  | some a => exact action_bind_assoc advance (fun _ => pure (some a)) _

/-- Where no equals sign was just passed, nothing but a name meets `identifier`. -/
theorem whole_name : Whole rules s name Grammar.name := by
  rw [name_eq_expect]
  refine follows_lexeme ⟨by simp, ?_⟩ fun u l a _ hl => noEquals_append ?_
  · rintro u x hu hx e he hmet
    obtain rfl := List.mem_singleton.mp he
    rcases hmet with ⟨l, a, rfl, hl⟩ | ⟨⟨w, -, rfl⟩, -⟩
    · exact absurd hx (by simp [hl])
    · exact hu (by simp)
  · rintro rfl
    exact absurd hl (by simp [Lexeme.name?])

theorem asks_string : Asks rules P [.stringLiteral] (·.bind string?) where
  asks := by simp
  unmet := by
    rintro u x - hx e he hmet
    obtain rfl := List.mem_singleton.mp he
    obtain ⟨text, rfl⟩ := hmet
    exact absurd hx (by simp [string?])

theorem string?_eq_some {l : Lexeme} {text : String} (h : string? l = some text) :
    l = .string text := by
  cases l <;> simp_all [string?]

/-- A string is read where its text passes. -/
theorem look_string {passes : String → Bool} {c : Cursor} {x : Sighting}
    (hx : c.ahead.sight? = some x) : Grammar.stringWhere passes expected c =
      match x.lexeme.bind string? with
      | some text => if passes text then .ok text (skip c) none else .fail ⟨c.index, x, expected⟩
      | none => .fail ⟨c.index, x, [.stringLiteral]⟩ := by
  rw [Grammar.stringWhere, look_of_sight hx]
  cases hl : x.lexeme with
  | none => rfl
  | some l =>
    cases l with
    | string text =>
      cases hpasses : passes text <;> simp [hpasses, string?]
    | _ => rfl

/-- A string whose text does not pass is put back, and what is asked for goes on record in front of
it. -/
theorem follows_stringWhere {passes : String → Bool} (hne : expected ≠ [])
    (hunmet : ∀ u text, passes text = false → ∀ e ∈ expected,
      ¬ e.MetBy rules u (some (.string text))) :
    Follows rules s P NoEquals (stringWhere passes expected)
      (Grammar.stringWhere passes expected) := by
  intro h o hs hP ho
  have ha := accepted_accept asks_string hs hP ho
  have hstring : stringWhere passes expected h = (expect [.stringLiteral] (·.bind string?) >>=
      fun text => if passes text then pure text else
        state >>= fun r => become { r with pos := h.now.pos } >>= fun _ => fail expected : Action _)
          h := rfl
  rw [hstring]
  generalize haccept : accept [.stringLiteral] (·.bind string?) h = out at ha
  cases ha with
  | broken he =>
    rw [bind_of_error (expect_of_error haccept), Grammar.stringWhere, look_of_fault he]
    exact .interrupted (.refl h)
  | missed hx hf k hcursor hpassed hm =>
    rw [bind_of_error (expect_of_none haccept), look_string hx, hf]
    exact .fail k hm
  | @taken x text h' hx hf k hcursor hpassed hm =>
    rw [bind_of_ok (expect_of_some haccept), look_string hx, hf]
    obtain ⟨l, hl, hl'⟩ := Option.bind_eq_some_iff.mp hf
    obtain rfl := string?_eq_some hl'
    dsimp only
    cases hpasses : passes text with
    | true =>
      rw [if_pos rfl, if_pos rfl, ← hcursor]
      refine .ok k ?_ hm
      rw [hpassed, hl]
      exact noEquals_append (by simp)
    | false =>
      rw [if_neg (by simp), if_neg (by simp)]
      exact answers_back hs hx (by simp [hl]) k hcursor hm hne (hl ▸ fun u => hunmet u text hpasses)

theorem follows_tag : Follows rules s Anything NoEquals tag Grammar.tag := by
  have hask : Asks rules Anything [.integer] (·.bind digits?) := by
    refine ⟨by simp, ?_⟩
    rintro u x - hx e he hmet
    obtain rfl := List.mem_singleton.mp he
    obtain ⟨ds, rfl⟩ := hmet
    exact absurd hx (by simp [digits?])
  refine (follows_lexeme hask fun u l ds _ hl => noEquals_append ?_).bind fun _ => follows_settle _
  rintro rfl
  exact absurd hl (by simp [digits?])

theorem follows_constant : Follows rules s Anything NoEquals constant Grammar.constant := by
  refine (follows_lexeme ⟨by simp, ?_⟩ fun u l a _ hl => noEquals_append ?_).bind fun _ =>
    follows_settle _
  · intro u x _ hx e he hmet
    simp only [List.mem_cons, List.not_mem_nil, or_false] at he
    rcases he with rfl | rfl | rfl | rfl
    · obtain ⟨ds, rfl⟩ := hmet
      exact absurd hx (by simp [constant?])
    · obtain ⟨text, rfl⟩ := hmet
      exact absurd hx (by simp [constant?])
    · exact absurd hx (by simp [show x = _ from hmet, constant?])
    · exact absurd hx (by simp [show x = _ from hmet, constant?])
  · rintro rfl
    exact absurd hl (by simp [constant?])

/-! ## 2. Paths and types -/

theorem whole_dotted (budget : Nat) :
    Whole rules s (dotted budget) (eachAfter (Grammar.mark .dot) Grammar.name budget) :=
  follows_whileLed (whole_acceptMark (by decide)) whole_name budget

theorem whole_path (budget : Nat) : Whole rules s (path budget) (Grammar.path budget) :=
  whole_name.bind fun _ => (whole_dotted budget).wrap _

theorem whole_mapType {part : Action TypeRef} {part' : Parser TypeRef}
    (h : Whole rules s part part') : Whole rules s (mapType part) (Grammar.mapType part') :=
  (whole_keyword _).bind fun _ => (whole_mark (by decide)).bind fun _ => h.bind fun _ =>
    (whole_mark (by decide)).bind fun _ => h.bind fun _ => (whole_mark (by decide)).wrap _

/-- Keywords are asked for by one expectation each. -/
theorem asks_keywords (ks : List Keyword) {g : Lexeme → Option α} (hne : ks ≠ [])
    (hg : ∀ k ∈ ks, g (.keyword k) ≠ none) : Asks rules P (ks.map .keyword) (·.bind g) where
  asks := by simpa using hne
  unmet := by
    intro u x _ hx e he hmet
    obtain ⟨k, hk, rfl⟩ := List.mem_map.mp he
    obtain rfl : x = some (.keyword k) := hmet
    exact hg k hk hx

theorem whole_primitiveType : Whole rules s
    (accept [.keyword .kwInt32, .keyword .kwInt64, .keyword .kwString, .keyword .kwBoolean]
      (·.bind primitive?))
    (optional (lexeme
      [.keyword .kwInt32, .keyword .kwInt64, .keyword .kwString, .keyword .kwBoolean]
      primitive?)) :=
  whole_optional_lexeme (asks_keywords [.kwInt32, .kwInt64, .kwString, .kwBoolean]
    (by decide) (by decide)) rfl

theorem whole_typeRef (budget : Nat) :
    Whole rules s (typeRef budget) (Grammar.typeRef budget) := by
  induction budget with
  | zero => exact follows_exhausted
  | succ budget ih =>
    have hrule : Grammar.typeRef (budget + 1) = orElse primitiveType
        (orElse (Grammar.mapType (Grammar.typeRef budget)) (namedType budget)) := rfl
    rw [hrule, primitiveType, orElse_wrap]
    refine whole_primitiveType.bind fun p => ?_
    cases p with
    | some p => exact follows_pure _
    | none =>
      dsimp only
      rw [orElse_eq_andThen]
      refine (whole_mapType ih).attempt.bind fun t => ?_
      cases t with
      | some t => exact follows_pure _
      | none => exact (whole_path budget).wrap _

/-! ## 3. Options -/

theorem whole_optionKey (budget : Nat) :
    Whole rules s (optionKey budget) (Grammar.optionKey budget) := by
  refine (whole_acceptMark (by decide)).bind fun a => ?_
  cases a with
  | some _ =>
    exact whole_name.bind fun _ => (whole_mark (by decide)).bind fun _ =>
      (whole_dotted budget).wrap _
  | none => exact whole_name.wrap _

theorem whole_setting (budget : Nat) :
    Whole rules s (setting budget) (Grammar.setting budget) :=
  (whole_optionKey budget).bind fun _ => follows_equals.bind fun _ => follows_constant.wrap _

theorem whole_optionStatement (budget : Nat) :
    Whole rules s (optionStatement budget) (Grammar.optionStatement budget) :=
  (whole_keyword _).bind fun _ => (whole_setting budget).bind fun _ =>
    (whole_mark (by decide)).wrap _

theorem whole_bracketed (budget : Nat) :
    Whole rules s (bracketed budget) (Grammar.bracketed budget) :=
  (whole_setting budget).bind fun _ => (whole_mark (by decide)).wrap _

theorem whole_brackets (enabled : Bool) (budget : Nat) :
    Whole rules s (brackets enabled budget) (Grammar.brackets enabled budget) := by
  cases enabled with
  | true => exact follows_whileLed (whole_acceptMark (by decide)) (whole_bracketed budget) budget
  | false => exact follows_pure _

/-! ## 4. Bodies, enumerations and messages -/

theorem whole_lineOr {item : Action (Option α)} {p : Parser α}
    (h : Whole rules s item (optional p)) :
    Whole rules s (lineOr item) (optional (Grammar.lineOr p)) := by
  rw [optional_lineOr]
  refine whole_acceptNewline.bind fun a => ?_
  cases a with
  | some _ => exact follows_pure _
  | none =>
    refine h.bind fun a => ?_
    cases a with
    | some a => exact follows_pure _
    | none => exact follows_pure _

theorem whole_body {item : Action (Option α)} {p : Parser α}
    (h : Whole rules s item (optional p)) (budget : Nat) :
    Whole rules s (body budget item) (Grammar.body budget p) :=
  (whole_mark (by decide)).bind fun _ => (follows_whileSome (whole_lineOr h) budget).bind fun _ =>
    (whole_mark (by decide)).wrap _

theorem whole_entry (budget : Nat) :
    Whole rules s (entry rules budget) (Grammar.entry rules budget) :=
  whole_name.bind fun _ => follows_equals.bind fun _ => follows_tag.bind fun _ =>
    (whole_brackets _ budget).bind fun _ => (whole_mark (by decide)).wrap _

theorem whole_enumItem (budget : Nat) :
    Whole rules s (enumItem rules budget) (optional (Grammar.enumItem rules budget)) :=
  follows_choice (.cons ((whole_optionStatement budget).wrap _)
    (.cons ((whole_entry budget).wrap _) .nil)) (by simp)

theorem whole_enumeration (budget : Nat) :
    Whole rules s (enumeration rules budget) (Grammar.enumeration rules budget) :=
  (whole_keyword _).bind fun _ => whole_name.bind fun _ =>
    (whole_body (whole_enumItem budget) budget).wrap _

theorem whole_modifier : Whole rules s
    (accept [.keyword .kwRequired, .keyword .kwOptional, .keyword .kwRepeated] (·.bind modifier?))
    modifier :=
  whole_optional_lexeme (asks_keywords [.kwRequired, .kwOptional, .kwRepeated]
    (by decide) (by decide)) rfl

theorem whole_field (budget : Nat) :
    Whole rules s (field rules budget) (Grammar.field rules budget) :=
  whole_modifier.bind fun _ => (whole_typeRef budget).bind fun _ => whole_name.bind fun _ =>
    follows_equals.bind fun _ => follows_tag.bind fun _ => (whole_brackets _ budget).bind fun _ =>
    (whole_mark (by decide)).wrap _

theorem whole_messageItem {nested : Action Message} {nested' : Parser Message}
    (h : Whole rules s nested nested') (budget : Nat) :
    Whole rules s (messageItem rules budget nested)
      (optional (Grammar.messageItem rules budget nested')) := by
  have hoption : Whole rules s _ _ := (whole_optionStatement budget).wrap MessageItem.setting
  have henum : Whole rules s _ _ := (whole_enumeration budget).wrap MessageItem.enumeration
  have hfield : Whole rules s _ _ := (whole_field budget).wrap MessageItem.field
  unfold messageItem Grammar.messageItem
  cases rules.nestsEnumerations with
  | true =>
    exact follows_choice (.cons hoption (.cons (h.wrap _) (.cons henum (.cons hfield .nil))))
      (by simp)
  | false => exact follows_choice (.cons hoption (.cons (h.wrap _) (.cons hfield .nil))) (by simp)

theorem whole_message (budget : Nat) :
    Whole rules s (message rules budget) (Grammar.message rules budget) := by
  induction budget with
  | zero => exact follows_exhausted
  | succ budget ih =>
    exact (whole_keyword _).bind fun _ => whole_name.bind fun _ =>
      (whole_body (whole_messageItem ih budget) budget).wrap _

/-! ## 5. Statements and documents -/

section Dialects

variable {d : Dialect}

/-- What a string does not pass as, it does not meet. -/
theorem follows_syntaxValue :
    Follows d.rules s Anything NoEquals (syntaxValue d.rules) (Grammar.syntaxValue d.rules) := by
  cases d with
  | legacy =>
    refine follows_stringWhere (by simp) fun u text hpasses e he hmet => ?_
    obtain rfl := List.mem_singleton.mp he
    rcases hmet with ⟨l, a, hl, hname⟩ | ⟨-, text', htext, hname⟩
    · obtain rfl := Option.some.inj hl
      exact absurd hname (by simp [Lexeme.name?])
    · obtain rfl := Lexeme.string.inj (Option.some.inj htext)
      exact absurd hname (by simp [hpasses])
  | strict =>
    refine follows_stringWhere (by simp) fun u text hpasses e he hmet => ?_
    obtain ⟨value, hvalue, rfl⟩ := List.mem_map.mp he
    obtain rfl : text = value := by simpa using Option.some.inj hmet
    exact absurd ((List.contains_iff_mem.mpr hvalue).symm.trans hpasses) (by simp)

theorem whole_syntaxStatement :
    Whole d.rules s (syntaxStatement d.rules) (Grammar.syntaxStatement d.rules) :=
  (whole_keyword _).bind fun _ => follows_equals.bind fun _ => follows_syntaxValue.bind fun _ =>
    (whole_mark (by decide)).wrap _

theorem whole_packageStatement (budget : Nat) :
    Whole rules s (packageStatement budget) (Grammar.packageStatement budget) :=
  (whole_keyword _).bind fun _ => (whole_path budget).bind fun _ => (whole_mark (by decide)).wrap _

theorem whole_importModifier (budget : Nat) :
    Whole rules s (importModifier rules budget) (Grammar.importModifier rules budget) := by
  refine (whole_acceptKeyword .kwPublic).bind fun a => ?_
  cases a with
  | none => exact follows_pure _
  | some _ =>
    show Whole rules s (ite _ _ _) (ite _ _ _)
    split
    · exact (follows_whileSome (whole_acceptKeyword _) budget).wrap _
    · exact follows_pure _

theorem whole_importStatement (budget : Nat) :
    Whole rules s (importStatement rules budget) (Grammar.importStatement rules budget) := by
  refine (whole_keyword _).bind fun _ => (whole_importModifier budget).bind fun _ => ?_
  refine (follows_stringWhere (by simp) fun u text hpasses e he hmet => ?_).bind fun _ =>
    (whole_mark (by decide)).wrap _
  obtain rfl := List.mem_singleton.mp he
  obtain ⟨text', htext, hpath⟩ := hmet
  obtain rfl := Lexeme.string.inj (Option.some.inj htext)
  exact absurd hpath (by simp [hpasses])

theorem whole_statement (budget : Nat) :
    Whole d.rules s (statement d.rules budget) (optional (Grammar.statement d.rules budget)) :=
  follows_choice (.cons (whole_syntaxStatement.wrap _)
    (.cons ((whole_packageStatement budget).wrap _)
    (.cons ((whole_importStatement budget).wrap _)
    (.cons ((whole_optionStatement budget).wrap _)
    (.cons ((whole_message budget).wrap _)
    (.cons ((whole_enumeration budget).wrap _) .nil)))))) (by simp)

theorem whole_endOfText : Whole rules s
    (expect [.endOfText] fun x => if x.isNone then some () else none) endOfText := by
  have hjudge : look (judgeOf [.endOfText] fun x => if x.isNone then some () else none) =
      endOfText := by
    refine congrArg look (funext fun x => ?_)
    cases x <;> rfl
  rw [← hjudge]
  refine follows_expect ⟨by simp, fun u x _ hx e he hmet => ?_⟩ fun u x a hu hx => ?_
  · obtain rfl := List.mem_singleton.mp he
    obtain rfl : x = none := hmet
    exact absurd hx (by simp)
  · cases x with
    | none => simpa using hu
    | some l => exact absurd hx (by simp)

theorem whole_finish (lines : List (Option Statement)) :
    Whole rules s (finish lines) (Grammar.finish lines) := whole_endOfText.wrap _

theorem grammar_document_insists {rules : Rules} (h : rules.allowsEmptyDocument = false)
    (budget : Nat) : Grammar.document rules (budget + 1) =
      andThen (Grammar.lineOr (Grammar.statement rules (budget + 1))) fun line =>
        andThen (many budget (Grammar.lineOr (Grammar.statement rules (budget + 1)))) fun lines =>
          Grammar.finish (line :: lines) := by
  rw [document_eq, many, andThen_assoc, ← andThen_optional_refuse _ fun _ _ => lineOr_of_fail]
  refine congrArg (andThen _) (funext fun line => ?_)
  cases line with
  | none => 
    rw [succeed_andThen, h]
    exact refuse_andThen _
  | some line =>
    refine (andThen_assoc _ _ _).trans (congrArg (andThen _) (funext fun lines => ?_))
    exact succeed_andThen _ _

/-- A document that must not be empty insists on its first line. -/
theorem document_insists {rules : Rules} (h : rules.allowsEmptyDocument = false) (budget : Nat) :
    document rules (budget + 1) = lineOr (statement rules (budget + 1)) >>= fun found =>
      found.elim (stop .noMatch) fun line =>
        whileSome (lineOr (statement rules (budget + 1))) budget >>= fun lines =>
          finish (line :: lines) := by
  rw [document, whileSome, action_bind_assoc]
  refine congrArg (_ >>= ·) (funext fun line => ?_)
  cases line with
  | none => 
    show (if _ then _ else _) = _
    rw [h]
    rfl
  | some line =>
    refine (action_bind_assoc _ _ _).trans ?_
    rfl

theorem whole_document (budget : Nat) :
    Whole d.rules s (document d.rules budget) (Grammar.document d.rules budget) := by
  have hline : Whole d.rules s (lineOr (statement d.rules budget))
      (optional (Grammar.lineOr (Grammar.statement d.rules budget))) :=
    whole_lineOr (whole_statement budget)
  cases hempty : d.rules.allowsEmptyDocument with
  | true =>
    rw [document_eq, document]
    refine (follows_whileSome hline budget).bind fun lines => ?_
    rw [hempty, Bool.not_true, Bool.and_false, if_neg Bool.false_ne_true, if_neg Bool.false_ne_true]
    exact whole_finish lines
  | false =>
    cases budget with
    | zero => exact follows_exhausted
    | succ budget =>
      rw [grammar_document_insists hempty, document_insists hempty]
      exact hline.insist fun line => (follows_whileSome hline budget).bind fun lines =>
        whole_finish (line :: lines)

end Dialects

end SchemaLang.Buffered
