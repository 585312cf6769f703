/-
# Every rule makes progress

The grammar recurses in two ways: a loop goes on with the rest of its rounds, and a message or a
type may hold another one.  Both are entered again only further on in the text, so there are at most
as many of them open as there are tokens, and an allowance that exceeds the tokens is never used up.

* A rule that matches has read a token (`Production.advances`).  `Fits` says this of an allowance
  that is large enough, and two allowances make no difference unless one of them is used up
  (`Agree`), so it holds of any.
* A rule that recurses is one `step` around the rule itself.  To see where it is entered again a
  tripwire is put around the inner rule (`onlyBehind`): in front of a place it breaks the whole
  reading off, and nothing catches that.  The reply is the same with the tripwire and without it
  (`Recursion.step_onlyBehind`).
-/
import SchemaLang.Grammar.Budget
import SchemaLang.Proofs.Grammar.Congruence
import SchemaLang.Proofs.Grammar.Following

namespace SchemaLang.Grammar

open Text SchemaLang.Grammar.Parser

variable {α β : Type}

/-! ## 1. Allowances make no difference -/

/-- Two copies of a rule reply the same, unless the allowance of one of them is used up. -/
def Agree (p p' : Parser α) : Prop := ∀ c, p c = .exhausted ∨ p' c = .exhausted ∨ p c = p' c

theorem Agree.refl (p : Parser α) : Agree p p := fun _ => .inr (.inr rfl)

theorem behind_eq_exhausted {r : Reply α} (miss : Option Miss) (h : r = .exhausted) :
    r.behind miss = .exhausted := by
  rw [h]
  rfl

theorem Agree.andThen {p p' : Parser α} {f f' : α → Parser β} (hp : Agree p p')
    (hf : ∀ a, Agree (f a) (f' a)) : Agree (andThen p f) (andThen p' f') := by
  intro c
  unfold Parser.andThen
  rcases hp c with h | h | h
  · exact .inl (by rw [h])
  · exact .inr (.inl (by rw [h]))
  · rw [h]
    cases p' c with
    | ok a next miss =>
      rcases hf a next with h | h | h
      · exact .inl (behind_eq_exhausted miss h)
      · exact .inr (.inl (behind_eq_exhausted miss h))
      · exact .inr (.inr (congrArg (Reply.behind miss) h))
    | fail miss => exact .inr (.inr rfl)
    | interrupted cause => exact .inr (.inr rfl)
    | exhausted => exact .inl rfl

theorem Agree.orElse {p p' q q' : Parser α} (hp : Agree p p') (hq : Agree q q') :
    Agree (orElse p q) (orElse p' q') := by
  intro c
  unfold Parser.orElse
  rcases hp c with h | h | h
  · exact .inl (by rw [h])
  · exact .inr (.inl (by rw [h]))
  · rw [h]
    cases p' c with
    | fail miss =>
      rcases hq c with h | h | h
      · exact .inl (behind_eq_exhausted _ h)
      · exact .inr (.inl (behind_eq_exhausted _ h))
      · exact .inr (.inr (congrArg (Reply.behind (some miss)) h))
    | ok a next miss => exact .inr (.inr rfl)
    | interrupted cause => exact .inr (.inr rfl)
    | exhausted => exact .inl rfl

theorem congruence_agree : Congruence @Agree where
  exhausted := fun _ _ => .inl rfl
  to_exhausted := fun _ _ => .inr (.inl rfl)
  succeed := fun _ => .refl _
  look := fun _ _ _ => .refl _
  tag := .refl _
  constant := .refl _
  andThen := Agree.andThen
  orElse := Agree.orElse

/-! ## 2. A match is further on -/

/-- Where the rule matches, it has read the tokens up to there. -/
def Onward (p : Parser α) : Prop :=
  ∀ c a next miss, p c = .ok a next miss → ∃ ts, Spans c ts next

/-- Where the rule matches, it has read a token at least. -/
def Advances (p : Parser α) : Prop :=
  ∀ c a next miss, p c = .ok a next miss → ∃ t ts, Spans c (t :: ts) next

theorem Advances.onward {p : Parser α} (h : Advances p) : Onward p := fun c a next miss hok => by
  obtain ⟨t, ts, hspans⟩ := h c a next miss hok
  exact ⟨t :: ts, hspans⟩

theorem Advances.lt {p : Parser α} (h : Advances p) {c next : Cursor} {a : α}
    {miss : Option Miss} (hok : p c = .ok a next miss) : c.index < next.index := by
  obtain ⟨t, ts, hspans⟩ := h c a next miss hok
  rw [hspans.index, List.length_cons]
  omega

theorem onward_succeed (a : α) : Onward (succeed a) := by
  intro c b next miss h
  obtain ⟨-, rfl, -⟩ := Reply.ok.inj h
  exact ⟨[], .refl c⟩

theorem onward_settle (e : Except LongNumeral α) : Onward (settle e) := by
  cases e with
  | ok a => exact onward_succeed a
  | error e => exact fun _ _ _ _ h => absurd h (by simp [settle])

/-- To judge what stands at the cursor reads it or nothing. -/
theorem onward_look (judge : Option Lexeme → Except (List Expectation) α) :
    Onward (look judge) := by
  rintro ⟨i, s⟩ a next miss h
  cases s with
  | fault e => exact absurd h (by simp [look])
  | done p =>
    simp only [look] at h
    cases hj : judge none with
    | ok b =>
      rw [hj] at h
      obtain ⟨-, rfl, -⟩ := Reply.ok.inj h
      exact ⟨[], .refl _⟩
    | error expected =>
      rw [hj] at h
      exact absurd h (by simp)
  | token t rest =>
    simp only [look] at h
    cases hj : judge (some t.lexeme) with
    | ok b =>
      rw [hj] at h
      obtain ⟨-, rfl, -⟩ := Reply.ok.inj h
      exact ⟨[t], rfl, rfl⟩
    | error expected =>
      rw [hj] at h
      exact absurd h (by simp)

theorem Onward.andThen {p : Parser α} {f : α → Parser β} (hp : Onward p)
    (hf : ∀ a, Onward (f a)) : Onward (andThen p f) := by
  intro c b next miss h
  obtain ⟨a, mid, m, m', hpc, hfc⟩ := of_andThen_ok h
  obtain ⟨ts, hts⟩ := hp c a mid m hpc
  obtain ⟨us, hus⟩ := hf a mid b next m' hfc
  exact ⟨ts ++ us, hts.trans hus⟩

theorem Onward.orElse {p q : Parser α} (hp : Onward p) (hq : Onward q) :
    Onward (orElse p q) := by
  intro c a next miss h
  rcases of_orElse_ok h with hpc | ⟨m, m', -, hqc⟩
  · exact hp c a next miss hpc
  · exact hq c a next m' hqc

theorem congruence_onward : Congruence fun p _ => Onward p where
  exhausted := fun _ _ _ _ _ h => absurd h (by simp)
  to_exhausted := id
  succeed := onward_succeed
  look := fun judge _ _ => onward_look judge
  tag := (onward_look _).andThen fun _ => onward_settle _
  constant := (onward_look _).andThen fun _ => onward_settle _
  andThen := Onward.andThen
  orElse := Onward.orElse

/-- A rule that reads a token within large allowances reads one within any. -/
theorem advances_of_fits {p : Nat → Parser α} (hfits : ∀ n, Fits 1 n (p n))
    (hagree : ∀ b b', Agree (p b) (p b')) (honward : ∀ b, Onward (p b)) (b : Nat) :
    Advances (p b) := by
  intro c a next miss hok
  have hreads := hfits (c.left + 1) c (Nat.lt_succ_self _)
  obtain ⟨ts, hspans⟩ := honward b c a next miss hok
  rcases hagree b (c.left + 1) c with h | h | h
  · exact absurd (hok.symm.trans h) (by simp)
  · rw [h] at hreads
    exact hreads.elim
  · rw [← h, hok] at hreads
    have hleft : next.left + 1 ≤ c.left := hreads
    cases ts with
    | nil =>
      have hsame : c.left = next.left := congrArg TokenStream.size hspans.ahead
      omega
    | cons t ts => exact ⟨t, ts, hspans⟩

/-! ## 3. Productions -/

/-- The productions.  The two that are loops and nothing else, whole documents and rows of
bracketed options, are among the recursions below. -/
inductive Production
  | syntaxStatement | packageStatement | importStatement | optionStatement
  | setting | constant | tag
  | enumeration | entry
  | message | field
  | typeRef | mapType | path
  deriving DecidableEq, Repr

/-- What a production makes of the text. -/
def Production.Result : Production → Type
  | syntaxStatement => String
  | packageStatement => String
  | importStatement => Import
  | optionStatement => OptionSetting
  | setting => OptionSetting
  | constant => Constant
  | tag => Int
  | enumeration => Enumeration
  | entry => EnumEntry
  | message => Message
  | field => Field
  | typeRef => TypeRef
  | mapType => TypeRef
  | path => String

/-- The rule of a production. -/
def Production.rule (rules : Rules) (budget : Nat) : (k : Production) → Parser k.Result
  | syntaxStatement => Grammar.syntaxStatement rules
  | packageStatement => Grammar.packageStatement budget
  | importStatement => Grammar.importStatement rules budget
  | optionStatement => Grammar.optionStatement budget
  | setting => Grammar.setting budget
  | constant => Grammar.constant
  | tag => Grammar.tag
  | enumeration => Grammar.enumeration rules budget
  | entry => Grammar.entry rules budget
  | message => Grammar.message rules budget
  | field => Grammar.field rules budget
  | typeRef => Grammar.typeRef budget
  | mapType => Grammar.mapType (Grammar.typeRef budget)
  | path => Grammar.path budget

/-- What the combinators keep holds of every production. -/
theorem Congruence.production {R : ∀ {α : Type}, Parser α → Parser α → Prop}
    (h : Congruence @R) (rules : Rules) (b b' : Nat) (k : Production) :
    R (k.rule rules b) (k.rule rules b') := by
  cases k with
  | syntaxStatement => exact h.syntaxStatement rules
  | packageStatement => exact h.packageStatement b b'
  | importStatement => exact h.importStatement rules b b'
  | optionStatement => exact h.optionStatement b b'
  | setting => exact h.setting b b'
  | constant => exact h.constant
  | tag => exact h.tag
  | enumeration => exact h.enumeration rules b b'
  | entry => exact h.entry rules b b'
  | message => exact h.message rules b b'
  | field => exact h.field rules b b'
  | typeRef => exact h.typeRef b b'
  | mapType => exact h.mapType (h.typeRef b b')
  | path => exact h.path b b'

/-- An option reads its mark at least. -/
theorem fits_one_setting (n : Nat) : Fits 1 n (setting n) :=
  (fits_optionKey n).andThen fun _ => (fits_mark _ _).first fun _ =>
    (fits_constant _).weaken.step fun _ => fits_succeed _ _

theorem Production.fits (rules : Rules) (n : Nat) (k : Production) : Fits 1 n (k.rule rules n) := by
  have hle : n ≤ n + 1 := Nat.le_succ n
  cases k with
  | syntaxStatement => exact fits_syntaxStatement rules n
  | packageStatement => exact (fits_packageStatement n).of_le hle
  | importStatement => exact (fits_importStatement rules n).of_le hle
  | optionStatement => exact (fits_optionStatement n).of_le hle
  | setting => exact fits_one_setting n
  | constant => exact fits_constant n
  | tag => exact fits_tag n
  | enumeration => exact (fits_enumeration rules n).of_le hle
  | entry => exact (fits_entry rules n).of_le hle
  | message => exact fits_message rules n
  | field => exact fits_field rules n
  | typeRef => exact fits_typeRef n
  | mapType => exact (fits_mapType (fits_typeRef n)).of_le hle
  | path => exact (fits_path n).of_le hle

/-- **A production that matches has read a token.** -/
theorem Production.advances (rules : Rules) (b : Nat) (k : Production) :
    Advances (k.rule rules b) :=
  advances_of_fits (p := fun b => k.rule rules b) (fun n => k.fits rules n)
    (fun b b' => congruence_agree.production rules b b' k)
    (fun b => congruence_onward.production rules b b k) b

/-! ## 4. Rules that are entered again -/

/-- A tripwire: in front of a place and at it the rule breaks the reading off, and no combinator
goes on from there. -/
def onlyBehind (c : Cursor) (p : Parser α) : Parser α := fun c' =>
  if c.index < c'.index then p c' else .exhausted

theorem onlyBehind_of_lt {c c' : Cursor} (h : c.index < c'.index) (p : Parser α) :
    onlyBehind c p c' = p c' := if_pos h

/-- From a place on the rules reply the same, and they do not go back in front of it. -/
structure SameFrom (i : Nat) (p p' : Parser α) : Prop where
  same : ∀ c, i ≤ c.index → p c = p' c
  stays : ∀ c a next miss, i ≤ c.index → p' c = .ok a next miss → i ≤ next.index

theorem Onward.sameFrom {p : Parser α} (h : Onward p) (i : Nat) : SameFrom i p p where
  same := fun _ _ => rfl
  stays := fun c a next miss hi hok => by
    obtain ⟨ts, hspans⟩ := h c a next miss hok
    exact Nat.le_trans hi hspans.le

theorem sameFrom_onlyBehind {p : Parser α} (h : Onward p) (c : Cursor) :
    SameFrom (c.index + 1) (onlyBehind c p) p where
  same := fun _ hi => onlyBehind_of_lt hi p
  stays := (h.sameFrom _).stays

namespace SameFrom

variable {i : Nat} {p p' q q' : Parser α}

theorem andThen {f f' : α → Parser β} (hp : SameFrom i p p') (hf : ∀ a, SameFrom i (f a) (f' a)) :
    SameFrom i (andThen p f) (andThen p' f') where
  same := by
    intro c hi
    unfold Parser.andThen
    rw [hp.same c hi]
    cases h : p' c with
    | ok a next miss =>
      exact congrArg (Reply.behind miss) ((hf a).same next (hp.stays c a next miss hi h))
    | fail miss => rfl
    | interrupted cause => rfl
    | exhausted => rfl
  stays := by
    intro c b next miss hi h
    obtain ⟨a, mid, m, m', hpc, hfc⟩ := of_andThen_ok h
    exact (hf a).stays mid b next m' (hp.stays c a mid m hi hpc) hfc

theorem orElse (hp : SameFrom i p p') (hq : SameFrom i q q') :
    SameFrom i (orElse p q) (orElse p' q') where
  same := by
    intro c hi
    unfold Parser.orElse
    rw [hp.same c hi]
    cases p' c with
    | fail miss => exact congrArg (Reply.behind (some miss)) (hq.same c hi)
    | ok a next miss => rfl
    | interrupted cause => rfl
    | exhausted => rfl
  stays := by
    intro c a next miss hi h
    rcases of_orElse_ok h with hpc | ⟨m, m', -, hqc⟩
    · exact hp.stays c a next miss hi hpc
    · exact hq.stays c a next m' hi hqc

theorem succeed (a : α) : SameFrom i (succeed a) (succeed a) := (onward_succeed a).sameFrom i

theorem wrap (hp : SameFrom i p p') (f : α → β) :
    SameFrom i (Parser.andThen p fun a => Parser.succeed (f a))
      (Parser.andThen p' fun a => Parser.succeed (f a)) := hp.andThen fun _ => .succeed _

theorem optional (hp : SameFrom i p p') : SameFrom i (optional p) (optional p') :=
  (hp.wrap some).orElse (.succeed none)

theorem many (hp : SameFrom i p p') (b : Nat) : SameFrom i (many b p) (many b p') := by
  induction b with
  | zero => exact ⟨fun _ _ => rfl, fun _ _ _ _ _ h => absurd h (by simp [Parser.many])⟩
  | succ b ih =>
    refine hp.optional.andThen fun o => ?_
    cases o with
    | none => exact .succeed []
    | some a => exact ih.wrap _

end SameFrom

/-- What comes behind a rule that has read a token is entered further on. -/
theorem andThen_eq_of_sameFrom {p : Parser α} {f f' : α → Parser β} (hp : Advances p) (c : Cursor)
    (hf : ∀ a, SameFrom (c.index + 1) (f a) (f' a)) : andThen p f c = andThen p f' c := by
  unfold andThen
  cases h : p c with
  | ok a next miss => exact congrArg (Reply.behind miss) ((hf a).same next (hp.lt h))
  | fail miss => rfl
  | interrupted cause => rfl
  | exhausted => rfl

/-! ## 5. Recursions -/

/-- A loop: another round of it, and the rest, if there is one. -/
def manyStep (p : Parser α) (rest : Parser (List α)) : Parser (List α) :=
  andThen (optional p) fun
    | none => succeed []
    | some a => andThen rest fun as => succeed (a :: as)

/-- A loop each of whose rounds a mark leads in. -/
def eachAfterStep (lead : Parser β) (p : Parser α) (rest : Parser (List α)) : Parser (List α) :=
  andThen (optional lead) fun
    | none => succeed []
    | some _ => andThen p fun a => andThen rest fun as => succeed (a :: as)

/-- A type around the types in it. -/
def typeStep (budget : Nat) (inner : Parser TypeRef) : Parser TypeRef :=
  firstOf [primitiveType, mapType inner, namedType budget]

/-- A message around the messages in it. -/
def messageStep (rules : Rules) (budget : Nat) (inner : Parser Message) : Parser Message :=
  andThen (keyword .kwMessage) fun _ => andThen name fun name =>
    andThen (body budget (messageItem rules budget inner)) fun body => succeed { name, body }

/-- The rules that are entered again from inside: the loops over the lines of a document, an
enumeration and a message, over bracketed options, over the dotted names of a path, and over
repeated import modifiers; types, which may be maps of types; and messages. -/
inductive Recursion
  | documentLines | enumLines | messageLines
  | brackets | dots | publics
  | types | messages
  deriving DecidableEq, Repr

/-- What a recursion makes of the text. -/
def Recursion.Result : Recursion → Type
  | documentLines => List (Option Statement)
  | enumLines => List (Option EnumItem)
  | messageLines => List (Option MessageItem)
  | brackets => List OptionSetting
  | dots => List String
  | publics => List Unit
  | types => TypeRef
  | messages => Message

/-- The rule of a recursion within its allowance, given the allowance of what stands in a round of
a loop. -/
def Recursion.rule (rules : Rules) (inside : Nat) : (k : Recursion) → Nat → Parser k.Result
  | documentLines, budget => many budget (lineOr (statement rules inside))
  | enumLines, budget => many budget (lineOr (enumItem rules inside))
  | messageLines, budget => many budget (lineOr (messageItem rules inside (message rules inside)))
  | brackets, budget => eachAfter (mark .lbracket) (bracketed inside) budget
  | dots, budget => eachAfter (mark .dot) name budget
  | publics, budget => many budget (keyword .kwPublic)
  | types, budget => typeRef budget
  | messages, budget => message rules budget

/-- One layer of a recursion around the rule itself. -/
def Recursion.step (rules : Rules) (inside budget : Nat) :
    (k : Recursion) → Parser k.Result → Parser k.Result
  | documentLines, rest => manyStep (lineOr (statement rules inside)) rest
  | enumLines, rest => manyStep (lineOr (enumItem rules inside)) rest
  | messageLines, rest => manyStep (lineOr (messageItem rules inside (message rules inside))) rest
  | brackets, rest => eachAfterStep (mark .lbracket) (bracketed inside) rest
  | dots, rest => eachAfterStep (mark .dot) name rest
  | publics, rest => manyStep (keyword .kwPublic) rest
  | types, inner => typeStep budget inner
  | messages, inner => messageStep rules budget inner

/-- A recursion spends one of its allowance with every layer, and nothing is read without one. -/
theorem Recursion.rule_zero (rules : Rules) (inside : Nat) (k : Recursion) :
    k.rule rules inside 0 = fun _ => .exhausted := by
  cases k <;> rfl

theorem Recursion.rule_succ (rules : Rules) (inside budget : Nat) (k : Recursion) :
    k.rule rules inside (budget + 1) =
      k.step rules inside budget (k.rule rules inside budget) := by
  cases k <;> rfl

/-! ### Rounds -/

theorem Onward.many {p : Parser α} (hp : Onward p) (b : Nat) : Onward (many b p) :=
  @Congruence.many _ _ congruence_onward p p hp b b

theorem Onward.eachAfter {lead : Parser β} {p : Parser α} (hl : Onward lead) (hp : Onward p)
    (b : Nat) : Onward (eachAfter lead p b) :=
  @Congruence.eachAfter _ _ _ congruence_onward lead lead p p hl hp b b

theorem Onward.lineOr {p : Parser α} (hp : Onward p) : Onward (lineOr p) :=
  @Congruence.lineOr _ _ congruence_onward p p hp

/-- A line reads a token, if what may stand in it does. -/
theorem advances_lineOr {p : Nat → Parser α} (hfits : ∀ n, Fits 1 n (p n))
    (hagree : ∀ b b', Agree (p b) (p b')) (honward : ∀ b, Onward (p b)) (b : Nat) :
    Advances (lineOr (p b)) :=
  advances_of_fits (p := fun b => Grammar.lineOr (p b)) (fun n => fits_lineOr (hfits n))
    (fun b b' => congruence_agree.lineOr (hagree b b')) (fun b => (honward b).lineOr) b

theorem advances_documentLine (rules : Rules) (b : Nat) : Advances (lineOr (statement rules b)) :=
  advances_lineOr (fits_statement rules) (congruence_agree.statement rules)
    (fun b => congruence_onward.statement rules b b) b

theorem advances_enumLine (rules : Rules) (b : Nat) : Advances (lineOr (enumItem rules b)) :=
  advances_lineOr (fun n => (fits_enumItem rules n).of_le (Nat.le_succ n))
    (congruence_agree.enumItem rules) (fun b => congruence_onward.enumItem rules b b) b

theorem advances_messageLine (rules : Rules) (b : Nat) :
    Advances (lineOr (messageItem rules b (message rules b))) :=
  advances_lineOr (p := fun b => messageItem rules b (message rules b))
    (fun n => fits_messageItem rules (fits_message rules n))
    (fun b b' => congruence_agree.messageItem rules b b' (congruence_agree.message rules b b'))
    (fun b => @Congruence.messageItem _ congruence_onward rules b b _ (message rules b)
      (congruence_onward.message rules b b)) b

theorem advances_keyword (k : Keyword) : Advances (keyword k) :=
  advances_of_fits (p := fun _ => keyword k) (fits_keyword k) (fun _ _ => .refl _)
    (fun _ => congruence_onward.keyword k) 0

theorem advances_mark (p : Punct) : Advances (mark p) :=
  advances_of_fits (p := fun _ => mark p) (fits_mark p) (fun _ _ => .refl _)
    (fun _ => congruence_onward.mark p) 0

theorem Recursion.onward (rules : Rules) (inside budget : Nat) (k : Recursion) :
    Onward (k.rule rules inside budget) := by
  have h := congruence_onward
  cases k with
  | documentLines => exact (advances_documentLine rules inside).onward.many budget
  | enumLines => exact (advances_enumLine rules inside).onward.many budget
  | messageLines => exact (advances_messageLine rules inside).onward.many budget
  | brackets => exact (advances_mark _).onward.eachAfter (h.bracketed inside inside) budget
  | dots => exact h.dotted budget budget
  | publics => exact (advances_keyword .kwPublic).onward.many budget
  | types => exact h.typeRef budget budget
  | messages => exact h.message rules budget budget

/-! ### Loops, types and messages -/

/-- The rest of a loop is entered behind what the round has read. -/
theorem manyStep_onlyBehind {p : Parser α} (hp : Advances p) {rest : Parser (List α)}
    (hrest : Onward rest) (c : Cursor) : manyStep p (onlyBehind c rest) c = manyStep p rest c := by
  unfold manyStep Parser.optional orElse
  cases h : p c with
  | ok a next miss =>
    have hsame := (sameFrom_onlyBehind hrest c).wrap (a :: ·)
    simp only [andThen, h, succeed, Reply.behind]
    exact congrArg (Reply.behind _) (hsame.same next (hp.lt h))
  | fail miss => simp only [andThen, h, succeed, Reply.behind]
  | interrupted cause => simp only [andThen, h]
  | exhausted => simp only [andThen, h]

/-- The rest of a loop is entered behind the mark that led its round in. -/
theorem eachAfterStep_onlyBehind {lead : Parser β} {p : Parser α} (hl : Advances lead)
    (hp : Onward p) {rest : Parser (List α)} (hrest : Onward rest) (c : Cursor) :
    eachAfterStep lead p (onlyBehind c rest) c = eachAfterStep lead p rest c := by
  unfold eachAfterStep Parser.optional orElse
  cases h : lead c with
  | ok a next miss =>
    have hsame := (hp.sameFrom (c.index + 1)).andThen fun a =>
      (sameFrom_onlyBehind hrest c).wrap (a :: ·)
    simp only [andThen, h, succeed, Reply.behind]
    exact congrArg (Reply.behind _) (hsame.same next (hl.lt h))
  | fail miss => simp only [andThen, h, succeed, Reply.behind]
  | interrupted cause => simp only [andThen, h]
  | exhausted => simp only [andThen, h]

/-- The types of a map are entered behind its keyword. -/
theorem typeStep_onlyBehind (budget : Nat) {inner : Parser TypeRef} (hinner : Onward inner)
    (c : Cursor) : typeStep budget (onlyBehind c inner) c = typeStep budget inner c := by
  have hpart := sameFrom_onlyBehind hinner c
  have hmark : ∀ p, SameFrom (c.index + 1) (mark p) (mark p) := fun p =>
    (congruence_onward.mark p).sameFrom _
  have hmap : mapType (onlyBehind c inner) c = mapType inner c :=
    andThen_eq_of_sameFrom (advances_keyword .kwMap) c fun _ =>
      (hmark _).andThen fun _ => hpart.andThen fun _ => (hmark _).andThen fun _ =>
        hpart.andThen fun _ => (hmark _).wrap _
  simp only [typeStep, firstOf, orElse, hmap]

theorem SameFrom.messageItem {i : Nat} {inner inner' : Parser Message} (rules : Rules)
    (budget : Nat) (h : SameFrom i inner inner') :
    SameFrom i (messageItem rules budget inner) (messageItem rules budget inner') := by
  have hoption := ((congruence_onward.optionStatement budget budget).sameFrom i).wrap
    MessageItem.setting
  have henum := ((congruence_onward.enumeration rules budget budget).sameFrom i).wrap
    MessageItem.enumeration
  have hfield := ((congruence_onward.field rules budget budget).sameFrom i).wrap MessageItem.field
  have hmessage := h.wrap MessageItem.ofMessage
  unfold Grammar.messageItem
  split
  · exact hoption.orElse (hmessage.orElse (henum.orElse hfield))
  · exact hoption.orElse (hmessage.orElse hfield)

/-- The messages in a message are entered behind its keyword. -/
theorem messageStep_onlyBehind (rules : Rules) (budget : Nat) {inner : Parser Message}
    (hinner : Onward inner) (c : Cursor) :
    messageStep rules budget (onlyBehind c inner) c = messageStep rules budget inner c := by
  have hmark : ∀ p, SameFrom (c.index + 1) (mark p) (mark p) := fun p =>
    (congruence_onward.mark p).sameFrom _
  have hitem := (sameFrom_onlyBehind hinner c).messageItem rules budget
  have hline : SameFrom (c.index + 1) (lineOr (messageItem rules budget (onlyBehind c inner)))
      (lineOr (messageItem rules budget inner)) :=
    ((congruence_onward.newline.sameFrom _).wrap _).orElse (hitem.wrap _)
  have hbody := (hmark .lbrace).andThen fun _ => (hline.many budget).andThen fun lines =>
    (hmark .rbrace).wrap fun _ => lines.filterMap id
  exact andThen_eq_of_sameFrom (advances_keyword .kwMessage) c fun _ =>
    (congruence_onward.name.sameFrom _).andThen fun _ => hbody.wrap _

/-- **A recursion is entered again only further on**: with the tripwire it replies as without. -/
theorem Recursion.step_onlyBehind (rules : Rules) (inside budget : Nat) (k : Recursion)
    (c : Cursor) :
    k.step rules inside budget (onlyBehind c (k.rule rules inside budget)) c =
      k.rule rules inside (budget + 1) c := by
  have h := k.onward rules inside budget
  rw [k.rule_succ]
  cases k with
  | documentLines => exact manyStep_onlyBehind (advances_documentLine rules inside) h c
  | enumLines => exact manyStep_onlyBehind (advances_enumLine rules inside) h c
  | messageLines => exact manyStep_onlyBehind (advances_messageLine rules inside) h c
  | brackets =>
    exact eachAfterStep_onlyBehind (advances_mark _) (congruence_onward.bracketed inside inside) h c
  | dots => exact eachAfterStep_onlyBehind (advances_mark _) congruence_onward.name h c
  | publics => exact manyStep_onlyBehind (advances_keyword _) h c
  | types => exact typeStep_onlyBehind budget h c
  | messages => exact messageStep_onlyBehind rules budget h c

/-! ## 6. Whole texts -/

/-- Allowances that exceed the tokens reply alike, and none of them is used up. -/
theorem document_budget (rules : Rules) (s : TokenStream) {b : Nat} (hb : s.size < b) :
    document rules b (.front s) ≠ .exhausted ∧
      document rules b (.front s) = document rules (s.size + 1) (.front s) := by
  have hne : document rules b (.front s) ≠ .exhausted := by
    intro h
    have hreads := fits_document rules b (.front s) hb
    rw [h] at hreads
    exact hreads
  refine ⟨hne, ?_⟩
  rcases congruence_agree.document rules b (s.size + 1) (.front s) with h | h | h
  · exact absurd h hne
  · exact absurd h (document_ne_exhausted rules s)
  · exact h

/-- **Reading comes to an end, whatever the text.**  A production that matches has read a token.  A
loop goes on, and a message or a type is entered from inside another one, only further on in the
text: the reply stays the same where entering at the same place or in front of it would break the
reading off.  Every layer spends one of the allowance, so one that exceeds the tokens is not used
up, and how far it exceeds them makes no difference. -/
theorem reading_ends (d : Dialect) (s : TokenStream) :
    (∀ (k : Production) (b : Nat) (c : Cursor) (a : k.Result) (next : Cursor)
        (miss : Option Miss), k.rule d.rules b c = .ok a next miss →
      ∃ t ts, Spans c (t :: ts) next) ∧
    (∀ (k : Recursion) (inside : Nat) (c : Cursor), k.rule d.rules inside 0 c = .exhausted ∧
      ∀ b, k.rule d.rules inside (b + 1) c =
        k.step d.rules inside b (onlyBehind c (k.rule d.rules inside b)) c) ∧
    ∀ b, s.size < b → document d.rules b (.front s) ≠ .exhausted ∧
      document d.rules b (.front s) = document d.rules (s.size + 1) (.front s) := by
  refine ⟨fun k b => k.advances d.rules b, fun k inside c => ⟨?_, fun b => ?_⟩, fun b hb => ?_⟩
  · rw [k.rule_zero]
  · exact (k.step_onlyBehind d.rules inside b c).symm
  · exact document_budget d.rules s hb

/-- A map in a map reads its tokens, and the text that breaks off in it is given up in time. -/
theorem reading_ends_nestedMap :
    let ts : List Token := [.keyword .kwMap, .punct .langle, .keyword .kwInt32, .punct .comma,
      .keyword .kwMap, .punct .langle, .keyword .kwString, .punct .comma, .identifier "A",
      .punct .rangle, .punct .rangle].map (⟨·, .start⟩)
    (∃ t us next, Spans (.front (.ofTokens ts .start)) (t :: us) next ∧ next.left = 0) ∧
      document Dialect.strict.rules 20 (.front (.ofTokens ts .start)) ≠ .exhausted := by
  intro ts
  obtain ⟨hadvance, -, hbudget⟩ := reading_ends .strict (.ofTokens ts .start)
  constructor
  · obtain ⟨t, us, hspans⟩ :=
      hadvance .typeRef 12 (.front (.ofTokens ts .start)) _ _ _ rfl
    exact ⟨t, us, _, hspans, rfl⟩
  · exact (hbudget 20 (by decide)).1

end SchemaLang.Grammar
