/-
# The allowance is never used up

Rules that repeat or nest are given an allowance and spend one of it with every round and with
every level.  Each round and each level also reads at least one token, so an allowance that
exceeds the number of tokens ahead lasts to the end.

`Fits k n p` says this of a rule `p` together with what makes it provable: wherever fewer than
`n` tokens are ahead, `p` is not exhausted, and where it matches it has read at least `k` of them.
The statements go through the combinators first and the productions after them, in the order of
their definitions; the last one, `document_ne_exhausted`, is about whole texts.
-/
import SchemaLang.Grammar.Productions

namespace SchemaLang.Grammar

open Text SchemaLang.Grammar.Parser

variable {α β : Type}

/-! ## 1. Rules that fit an allowance -/

/-- How many tokens are ahead. -/
def Cursor.left (c : Cursor) : Nat := c.ahead.size

/-- The reply is no exhaustion, and a match has read at least `k` of the `left` tokens. -/
def Reply.Reads (k left : Nat) : Reply α → Prop
  | .ok _ next _ => next.left + k ≤ left
  | .fail _ => True
  | .interrupted _ => True
  | .exhausted => False

/-- With fewer than `n` tokens ahead the rule is not exhausted, and it reads at least `k` of
them where it matches. -/
def Fits (k n : Nat) (p : Parser α) : Prop := ∀ c : Cursor, c.left < n → (p c).Reads k c.left

theorem Reply.Reads.behind {k left : Nat} {r : Reply α} (h : r.Reads k left) (m : Option Miss) :
    (r.behind m).Reads k left := by
  cases r <;> exact h

/-- A later cursor has fewer tokens ahead, so reading from there reads the more from here. -/
theorem Reply.Reads.trans {j k left mid : Nat} {r : Reply α} (h : r.Reads j mid)
    (hm : mid + k ≤ left) : r.Reads (k + j) left := by
  cases r with
  | ok a next miss =>
    have hn : next.left + j ≤ mid := h
    exact show next.left + (k + j) ≤ left by omega
  | fail miss => trivial
  | interrupted cause => trivial
  | exhausted => exact h

theorem Reply.Reads.mono {j k left : Nat} {r : Reply α} (h : r.Reads k left) (hj : j ≤ k) :
    r.Reads j left := by
  cases r with
  | ok a next miss => exact Nat.le_trans (Nat.add_le_add_left hj _) h
  | fail miss => trivial
  | interrupted cause => trivial
  | exhausted => exact h

theorem Fits.of_le {k m n : Nat} {p : Parser α} (h : Fits k n p) (hm : m ≤ n) : Fits k m p :=
  fun c hc => h c (Nat.lt_of_lt_of_le hc hm)

theorem Fits.weaken {n : Nat} {p : Parser α} (h : Fits 1 n p) : Fits 0 n p :=
  fun c hc => (h c hc).mono (Nat.zero_le _)

/-- With an empty allowance there is nothing to show: no number of tokens is below it. -/
theorem fits_zero (k : Nat) (p : Parser α) : Fits k 0 p :=
  fun _ hc => absurd hc (Nat.not_lt_zero _)

/-! ## 2. Combinators -/

theorem fits_succeed (n : Nat) (a : α) : Fits 0 n (succeed a) :=
  fun _ _ => Nat.le_refl _

theorem fits_settle (n : Nat) (e : Except LongNumeral α) : Fits 0 n (settle e) := by
  intro c _
  cases e with
  | ok a => exact Nat.le_refl _
  | error e => trivial

/-- What follows a rule that has read `k` tokens has `k` fewer ahead. -/
theorem Fits.andThen {j k n : Nat} {p : Parser α} {f : α → Parser β} (hp : Fits k n p)
    (hf : ∀ a, Fits j (n - k) (f a)) : Fits (k + j) n (andThen p f) := by
  intro c hc
  have hr := hp c hc
  unfold Parser.andThen
  cases h : p c with
  | ok a next miss =>
    rw [h] at hr
    have hnext : next.left + k ≤ c.left := hr
    exact ((hf a next (by omega)).trans hnext).behind miss
  | fail miss => trivial
  | interrupted cause => trivial
  | exhausted => rw [h] at hr; exact hr

/-- The first step of a rule reads a token; the steps after it may read what they like. -/
theorem Fits.first {n : Nat} {p : Parser α} {f : α → Parser β} (hp : Fits 1 n p)
    (hf : ∀ a, Fits 0 (n - 1) (f a)) : Fits 1 n (Parser.andThen p f) := hp.andThen hf

/-- A step that may read what it likes. -/
theorem Fits.step {n : Nat} {p : Parser α} {f : α → Parser β} (hp : Fits 0 n p)
    (hf : ∀ a, Fits 0 n (f a)) : Fits 0 n (Parser.andThen p f) := hp.andThen hf

/-- Any judgement leaves at most what was ahead. -/
theorem fits_look_zero (judge : Option Lexeme → Except (List Expectation) α) (n : Nat) :
    Fits 0 n (look judge) := by
  rintro ⟨i, s⟩ _
  cases s with
  | fault e => trivial
  | done p =>
    simp only [look]
    cases judge none with
    | ok a => exact Nat.le_refl _
    | error expected => trivial
  | token t rest =>
    simp only [look]
    cases judge (some t.lexeme) with
    | ok a => exact Nat.le_succ _
    | error expected => trivial

/-- A judgement that approves of lexemes only reads one where it matches. -/
theorem fits_look {judge : Option Lexeme → Except (List Expectation) α}
    (h : ∀ a, judge none ≠ .ok a) (n : Nat) : Fits 1 n (look judge) := by
  rintro ⟨i, s⟩ _
  cases s with
  | fault e => trivial
  | done p =>
    simp only [look]
    cases hj : judge none with
    | ok a => exact absurd hj (h a)
    | error expected => trivial
  | token t rest =>
    simp only [look]
    cases judge (some t.lexeme) with
    | ok a => exact Nat.le_refl _
    | error expected => trivial

theorem fits_refuse (n : Nat) : Fits 1 n (refuse : Parser α) := fits_look nofun n

theorem fits_lexeme (expected : List Expectation) (f : Lexeme → Option α) (n : Nat) :
    Fits 1 n (lexeme expected f) := fits_look nofun n

theorem fits_endOfText (n : Nat) : Fits 0 n endOfText := fits_look_zero _ n

theorem Fits.orElse {k n : Nat} {p q : Parser α} (hp : Fits k n p) (hq : Fits k n q) :
    Fits k n (orElse p q) := by
  intro c hc
  have hr := hp c hc
  unfold Parser.orElse
  cases h : p c with
  | fail miss => exact (hq c hc).behind _
  | ok a next miss => rw [h] at hr; exact hr
  | interrupted cause => trivial
  | exhausted => rw [h] at hr; exact hr

theorem fits_firstOf {n : Nat} : ∀ {ps : List (Parser α)}, (∀ p ∈ ps, Fits 1 n p) →
    Fits 1 n (firstOf ps)
  | [], _ => fits_refuse n
  | [p], h => h p (by simp)
  | p :: q :: ps, h =>
    (h p (by simp)).orElse (fits_firstOf fun r hr => h r (List.mem_cons_of_mem _ hr))

theorem Fits.optional {n : Nat} {p : Parser α} (hp : Fits 0 n p) :
    Fits 0 n (Parser.optional p) :=
  (hp.step fun _ => fits_succeed _ _).orElse (fits_succeed _ _)

/-- Where an optional rule matched it has read a token. -/
theorem Fits.optional_andThen {n : Nat} {p : Parser α} {f : Option α → Parser β}
    (hp : Fits 1 n p) (hnone : Fits 0 n (f none)) (hsome : ∀ a, Fits 0 (n - 1) (f (some a))) :
    Fits 0 n (Parser.andThen (Parser.optional p) f) := by
  intro c hc
  have hr := hp c hc
  unfold Parser.andThen Parser.optional Parser.orElse Parser.andThen
  cases h : p c with
  | fail miss => exact (hnone c hc).behind _
  | ok a next miss =>
    rw [h] at hr
    have hnext : next.left + 1 ≤ c.left := hr
    exact (((hsome a next (by omega)).trans hnext).mono (Nat.zero_le _)).behind _
  | interrupted cause => trivial
  | exhausted => rw [h] at hr; exact hr

/-- Each round reads a token and spends one of the allowance. -/
theorem fits_many {n : Nat} {p : Parser α} (hp : Fits 1 n p) :
    ∀ budget, budget ≤ n → Fits 0 budget (many budget p)
  | 0, _ => fits_zero _ _
  | budget + 1, hb =>
    (hp.of_le hb).optional_andThen (fits_succeed _ _) fun _ =>
      (fits_many hp budget (Nat.le_of_succ_le hb)).step fun _ => fits_succeed _ _

theorem fits_eachAfter {n : Nat} {lead : Parser β} {p : Parser α} (hl : Fits 1 n lead)
    (hp : Fits 0 n p) : ∀ budget, budget ≤ n → Fits 0 budget (eachAfter lead p budget)
  | 0, _ => fits_zero _ _
  | budget + 1, hb =>
    (hl.of_le hb).optional_andThen (fits_succeed _ _) fun _ =>
      (hp.of_le (Nat.le_of_succ_le hb)).step fun _ =>
        (fits_eachAfter hl hp budget (Nat.le_of_succ_le hb)).step fun _ => fits_succeed _ _

/-! ## 3. Single lexemes, paths and types -/

theorem fits_keyword (k : Keyword) (n : Nat) : Fits 1 n (keyword k) := fits_lexeme _ _ n

theorem fits_mark (p : Punct) (n : Nat) : Fits 1 n (mark p) := fits_lexeme _ _ n

theorem fits_newline (n : Nat) : Fits 1 n newline := fits_lexeme _ _ n

theorem fits_name (n : Nat) : Fits 1 n name := fits_lexeme _ _ n

theorem fits_stringWhere (passes : String → Bool) (expected : List Expectation) (n : Nat) :
    Fits 1 n (stringWhere passes expected) := fits_look nofun n

theorem fits_tag (n : Nat) : Fits 1 n tag :=
  (fits_lexeme _ _ n).first fun _ => fits_settle _ _

theorem fits_constant (n : Nat) : Fits 1 n constant :=
  (fits_lexeme _ _ n).first fun _ => fits_settle _ _

theorem fits_dotted (n : Nat) : Fits 0 n (eachAfter (mark .dot) name n) :=
  fits_eachAfter (fits_mark _ n) (fits_name n).weaken n (Nat.le_refl _)

/-- A path has read a name before its allowance matters, so it fits one token more. -/
theorem fits_path (n : Nat) : Fits 1 (n + 1) (path n) :=
  (fits_name _).first fun _ => (fits_dotted n).step fun _ => fits_succeed _ _

theorem fits_primitiveType (n : Nat) : Fits 1 n primitiveType :=
  (fits_lexeme _ _ n).first fun _ => fits_succeed _ _

/-- A map type has read its keyword before it reads the types in it. -/
theorem fits_mapType {n : Nat} {part : Parser TypeRef} (h : Fits 1 n part) :
    Fits 1 (n + 1) (mapType part) :=
  (fits_keyword _ _).first fun _ => (fits_mark _ _).weaken.step fun _ => h.weaken.step fun _ =>
    (fits_mark _ _).weaken.step fun _ => h.weaken.step fun _ =>
    (fits_mark _ _).weaken.step fun _ => fits_succeed _ _

theorem fits_namedType (n : Nat) : Fits 1 (n + 1) (namedType n) :=
  (fits_path n).first fun _ => fits_succeed _ _

theorem fits_typeRef : ∀ n, Fits 1 n (typeRef n)
  | 0 => fits_zero _ _
  | n + 1 => by
    refine fits_firstOf fun p hp => ?_
    simp only [List.mem_cons, List.not_mem_nil, or_false] at hp
    rcases hp with rfl | rfl | rfl
    · exact fits_primitiveType _
    · exact fits_mapType (fits_typeRef n)
    · exact fits_namedType n

/-! ## 4. Options -/

theorem fits_optionKey (n : Nat) : Fits 0 n (optionKey n) := by
  refine (fits_mark .lparen n).optional_andThen ?_ fun _ => ?_
  · exact (fits_name n).weaken.step fun _ => fits_succeed _ _
  · exact ((fits_name n).weaken.step fun _ => (fits_mark _ _).weaken.step fun _ =>
      (fits_dotted n).step fun _ => fits_succeed _ _).of_le (Nat.sub_le _ _)

theorem fits_setting (n : Nat) : Fits 0 n (setting n) :=
  (fits_optionKey n).step fun _ => (fits_mark _ _).weaken.step fun _ =>
    (fits_constant _).weaken.step fun _ => fits_succeed _ _

theorem fits_optionStatement (n : Nat) : Fits 1 (n + 1) (optionStatement n) :=
  (fits_keyword _ _).first fun _ => (fits_setting n).step fun _ =>
    (fits_mark _ _).weaken.step fun _ => fits_succeed _ _

theorem fits_bracketed (n : Nat) : Fits 0 n (bracketed n) :=
  (fits_setting n).step fun _ => (fits_mark _ _).weaken.step fun _ => fits_succeed _ _

theorem fits_brackets (enabled : Bool) (n : Nat) : Fits 0 n (brackets enabled n) := by
  unfold brackets
  split
  · exact fits_eachAfter (fits_mark _ n) (fits_bracketed n) n (Nat.le_refl _)
  · exact fits_succeed _ _

/-! ## 5. Bodies -/

theorem fits_lineOr {n : Nat} {p : Parser α} (h : Fits 1 n p) : Fits 1 n (lineOr p) :=
  ((fits_newline n).first fun _ => fits_succeed _ _).orElse (h.first fun _ => fits_succeed _ _)

theorem fits_body {n : Nat} {p : Parser α} (h : Fits 1 n p) : Fits 0 n (body n p) :=
  (fits_mark _ _).weaken.step fun _ =>
    (fits_many (fits_lineOr h) n (Nat.le_refl _)).step fun _ =>
    (fits_mark _ _).weaken.step fun _ => fits_succeed _ _

/-! ## 6. Enumerations and messages -/

theorem fits_entry (rules : Rules) (n : Nat) : Fits 1 (n + 1) (entry rules n) :=
  (fits_name _).first fun _ => (fits_mark _ _).weaken.step fun _ =>
    (fits_tag _).weaken.step fun _ => (fits_brackets _ n).step fun _ =>
    (fits_mark _ _).weaken.step fun _ => fits_succeed _ _

theorem fits_enumItem (rules : Rules) (n : Nat) : Fits 1 (n + 1) (enumItem rules n) := by
  refine fits_firstOf fun p hp => ?_
  simp only [List.mem_cons, List.not_mem_nil, or_false] at hp
  rcases hp with rfl | rfl
  · exact (fits_optionStatement n).first fun _ => fits_succeed _ _
  · exact (fits_entry rules n).first fun _ => fits_succeed _ _

theorem fits_enumeration (rules : Rules) (n : Nat) : Fits 1 (n + 1) (enumeration rules n) :=
  (fits_keyword _ _).first fun _ => (fits_name _).weaken.step fun _ =>
    (fits_body ((fits_enumItem rules n).of_le (Nat.le_succ _))).step fun _ => fits_succeed _ _

theorem fits_modifier (n : Nat) : Fits 0 n modifier := (fits_lexeme _ _ n).weaken.optional

/-- A field starts with a type where it does not start with a modifier, so it reads a token. -/
theorem fits_field (rules : Rules) (n : Nat) : Fits 1 n (field rules n) :=
  (fits_modifier n).andThen fun _ => (fits_typeRef n).first fun _ =>
    ((fits_name _).weaken.step fun _ => (fits_mark _ _).weaken.step fun _ =>
    (fits_tag _).weaken.step fun _ => (fits_brackets _ n).step fun _ =>
    (fits_mark _ _).weaken.step fun _ => fits_succeed _ _).of_le (Nat.sub_le _ _)

theorem fits_messageItem (rules : Rules) {n : Nat} {nested : Parser Message}
    (h : Fits 1 n nested) : Fits 1 n (messageItem rules n nested) := by
  have hoption : Fits 1 n (andThen (optionStatement n) fun o => succeed (MessageItem.setting o)) :=
    ((fits_optionStatement n).of_le (Nat.le_succ _)).first fun _ => fits_succeed _ _
  have hmessage : Fits 1 n (andThen nested fun m => succeed (MessageItem.ofMessage m)) :=
    h.first fun _ => fits_succeed _ _
  have henum : Fits 1 n
      (andThen (enumeration rules n) fun e => succeed (MessageItem.enumeration e)) :=
    ((fits_enumeration rules n).of_le (Nat.le_succ _)).first fun _ => fits_succeed _ _
  have hfield : Fits 1 n (andThen (field rules n) fun f => succeed (MessageItem.field f)) :=
    (fits_field rules n).first fun _ => fits_succeed _ _
  refine fits_firstOf fun p hp => ?_
  split at hp
  · simp only [List.mem_cons, List.not_mem_nil, or_false] at hp
    rcases hp with rfl | rfl | rfl | rfl
    · exact hoption
    · exact hmessage
    · exact henum
    · exact hfield
  · simp only [List.mem_cons, List.not_mem_nil, or_false] at hp
    rcases hp with rfl | rfl | rfl
    · exact hoption
    · exact hmessage
    · exact hfield

/-- A message has read its keyword before it reads the messages in it. -/
theorem fits_message (rules : Rules) : ∀ n, Fits 1 n (message rules n)
  | 0 => fits_zero _ _
  | n + 1 =>
    (fits_keyword _ _).first fun _ => (fits_name _).weaken.step fun _ =>
      (fits_body (fits_messageItem rules (fits_message rules n))).step fun _ => fits_succeed _ _

/-! ## 7. Statements and documents -/

theorem fits_syntaxValue (rules : Rules) (n : Nat) : Fits 1 n (syntaxValue rules) := by
  unfold syntaxValue
  split
  · exact fits_stringWhere _ _ n
  · exact fits_stringWhere _ _ n

theorem fits_syntaxStatement (rules : Rules) (n : Nat) : Fits 1 n (syntaxStatement rules) :=
  (fits_keyword _ _).first fun _ => (fits_mark _ _).weaken.step fun _ =>
    (fits_syntaxValue _ _).weaken.step fun _ => (fits_mark _ _).weaken.step fun _ =>
    fits_succeed _ _

theorem fits_packageStatement (n : Nat) : Fits 1 (n + 1) (packageStatement n) :=
  (fits_keyword _ _).first fun _ => ((fits_path n).of_le (Nat.le_succ _)).weaken.step fun _ =>
    (fits_mark _ _).weaken.step fun _ => fits_succeed _ _

theorem fits_importModifier (rules : Rules) (n : Nat) : Fits 0 n (importModifier rules n) := by
  refine (fits_keyword .kwPublic n).optional_andThen (fits_succeed _ _) fun _ => ?_
  refine Fits.of_le ?_ (Nat.sub_le _ _)
  show Fits 0 n (ite _ _ _)
  split
  · exact (fits_many (fits_keyword _ n) n (Nat.le_refl _)).step fun _ => fits_succeed _ _
  · exact fits_succeed _ _

theorem fits_importStatement (rules : Rules) (n : Nat) :
    Fits 1 (n + 1) (importStatement rules n) :=
  (fits_keyword _ _).first fun _ => (fits_importModifier rules n).step fun _ =>
    (fits_stringWhere _ _ _).weaken.step fun _ => (fits_mark _ _).weaken.step fun _ =>
    fits_succeed _ _

theorem fits_statement (rules : Rules) (n : Nat) : Fits 1 n (statement rules n) := by
  refine fits_firstOf fun p hp => ?_
  simp only [List.mem_cons, List.not_mem_nil, or_false] at hp
  rcases hp with rfl | rfl | rfl | rfl | rfl | rfl
  · exact (fits_syntaxStatement rules n).first fun _ => fits_succeed _ _
  · exact ((fits_packageStatement n).of_le (Nat.le_succ _)).first fun _ => fits_succeed _ _
  · exact ((fits_importStatement rules n).of_le (Nat.le_succ _)).first fun _ => fits_succeed _ _
  · exact ((fits_optionStatement n).of_le (Nat.le_succ _)).first fun _ => fits_succeed _ _
  · exact (fits_message rules n).first fun _ => fits_succeed _ _
  · exact ((fits_enumeration rules n).of_le (Nat.le_succ _)).first fun _ => fits_succeed _ _

theorem fits_document (rules : Rules) (n : Nat) : Fits 0 n (document rules n) := by
  refine (fits_many (fits_lineOr (fits_statement rules n)) n (Nat.le_refl _)).step fun _ => ?_
  show Fits 0 n (ite _ _ _)
  split
  · exact (fits_refuse n).weaken.step fun _ => (fits_endOfText n).step fun _ => fits_succeed _ _
  · exact (fits_endOfText n).step fun _ => fits_succeed _ _

/-- A whole text is read within an allowance of one more than its tokens. -/
theorem document_ne_exhausted (rules : Rules) (s : TokenStream) :
    document rules (s.size + 1) (.front s) ≠ .exhausted := by
  intro h
  have hr := fits_document rules (s.size + 1) (.front s) (Nat.lt_succ_self _)
  rw [h] at hr
  exact hr

end SchemaLang.Grammar
