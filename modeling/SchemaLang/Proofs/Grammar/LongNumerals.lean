/-
# Runs that meet a long numeral

Two texts that are the same up to a numeral, which is short in the first and too long in the second,
are read alike up to there.  What happens next depends on what the first run makes of its numeral.
If it gets no further, the second run misses at the same place, because a rule that refuses a
numeral does not ask for its digits.  If it gets further, some rule has read the numeral, and the
same rule breaks off the second run.

`Fork` relates the two cursors, `Reply.Forked` the two replies.  The combinators keep the relation
(`Forks`), so the grammar does.  The misses of the two runs differ in what they found at the
numeral, so the relation says nothing of the misses of the second run: no rule decides anything by
them.
-/
import SchemaLang.Proofs.Grammar.Locality

namespace SchemaLang.Grammar

open Text SchemaLang.Grammar.Parser

variable {α β : Type}

/-! ## 1. Cursors in front of a fork -/

/-- A numeral that is not too long, or no numeral. -/
def ShortToken (t : Token) : Prop :=
  ∀ ds, t.lexeme = .integer ds → ds.toList.length ≤ maxDigits

/-- A short numeral and a long one, and their place, counted in tokens. -/
structure Numerals where
  place : Nat
  short : Token
  long : Token
  shortDigits : String
  longDigits : String
  short_eq : short.lexeme = .integer shortDigits
  long_eq : long.lexeme = .integer longDigits
  isShort : shortDigits.toList.length ≤ maxDigits
  isLong : maxDigits < longDigits.toList.length

/-- What is reported of the long numeral. -/
def Numerals.error (ns : Numerals) : LongNumeral := ⟨ns.longDigits.toList.length⟩

/-- The same tokens are ahead of two cursors, and behind them the two numerals. -/
inductive Fork (ns : Numerals) : Cursor → Cursor → Prop
  | here (rest rest' : TokenStream) :
      Fork ns ⟨ns.place, .token ns.short rest⟩ ⟨ns.place, .token ns.long rest'⟩
  | ahead {i : Nat} {t : Token} {s s' : TokenStream} (ht : ShortToken t)
      (h : Fork ns ⟨i + 1, s⟩ ⟨i + 1, s'⟩) : Fork ns ⟨i, .token t s⟩ ⟨i, .token t s'⟩

variable {ns : Numerals}

theorem fork_prepend (rest rest' : TokenStream) : ∀ {i : Nat} {ts : List Token},
    (∀ t ∈ ts, ShortToken t) → i + ts.length = ns.place →
    Fork ns ⟨i, (TokenStream.token ns.short rest).prepend ts⟩
      ⟨i, (TokenStream.token ns.long rest').prepend ts⟩
  | i, [], _, hplace => by
    obtain rfl : i = ns.place := by simpa using hplace
    exact .here rest rest'
  | i, t :: ts, hts, hplace => by
    have hlater : i + 1 + ts.length = ns.place := by
      simp only [List.length_cons] at hplace
      omega
    exact .ahead (hts t (by simp))
      (fork_prepend rest rest' (fun u hu => hts u (List.mem_cons_of_mem _ hu)) hlater)

/-- A fork is not behind its numerals. -/
theorem Fork.index_le {c c' : Cursor} (h : Fork ns c c') : c.index ≤ ns.place := by
  induction h with
  | here rest rest' => exact Nat.le_refl _
  | ahead ht h ih => exact Nat.le_of_succ_le ih

/-! ## 2. Replies on both sides -/

/-- The reply in front of the short numeral, and the one in front of the long numeral.  A run that
is past the short numeral has read it, and then the other one breaks off. -/
inductive Reply.Forked (ns : Numerals) : Reply α → Reply α → Prop
  | ok {a : α} {next next' : Cursor} {miss : Option Miss} (miss' : Option Miss)
      (h : Fork ns next next') (hmiss : ∀ m ∈ miss, m.index ≤ ns.place) :
      Forked ns (.ok a next miss) (.ok a next' miss')
  | fail {m : Miss} (m' : Miss) (hm : m.index ≤ ns.place) : Forked ns (.fail m) (.fail m')
  | beyond {r : Reply α} (h : ¬ r.Within ns.place) :
      Forked ns r (.interrupted (.longNumeral ns.error))
  | exhausted (r' : Reply α) : Forked ns .exhausted r'
  | to_exhausted (r : Reply α) : Forked ns r .exhausted

theorem Reply.Within.behind {n : Nat} {r : Reply α} {miss : Option Miss} (h : r.Within n)
    (hmiss : ∀ m ∈ miss, m.index ≤ n) : (r.behind miss).Within n := by
  have hafter : ∀ m : Miss, m.index ≤ n → (m.after miss).index ≤ n := by
    intro m hm
    cases miss with
    | none => exact hm
    | some e =>
      have he := hmiss e rfl
      simp only [Miss.after, Miss.merge]
      split
      · exact hm
      · split <;> exact he
  cases r with
  | ok a next m =>
    refine ⟨h.1, fun x hx => ?_⟩
    cases m with
    | none => exact hmiss x hx
    | some m =>
      obtain rfl := Option.some.inj hx
      exact hafter m (h.2 m rfl)
  | fail m => exact hafter m h
  | interrupted cause => exact h.elim
  | exhausted => exact h.elim

/-- What was missed before changes nothing, as long as it was not behind the numerals. -/
theorem Reply.Forked.behind {r r' : Reply α} {miss : Option Miss} (h : r.Forked ns r')
    (hmiss : ∀ m ∈ miss, m.index ≤ ns.place) (miss' : Option Miss) :
    (r.behind miss).Forked ns (r'.behind miss') := by
  cases h with
  | @ok a next next' m m' hfork hm =>
    have hwithin : (Reply.ok a next m).Within ns.place := ⟨hfork.index_le, hm⟩
    exact .ok _ hfork (hwithin.behind hmiss).2
  | @fail m m' hm =>
    have hwithin : (Reply.fail m : Reply α).Within ns.place := hm
    exact .fail _ (hwithin.behind hmiss)
  | beyond h => exact .beyond fun hw => h hw.of_behind.1
  | exhausted r' => exact .exhausted _
  | to_exhausted r => exact .to_exhausted _

/-! ## 3. Combinators -/

/-- Two copies of a rule, whose allowances may differ, in front of a fork. -/
structure Forks (p p' : Parser α) : Prop extends Local p p' where
  fork : ∀ {ns c c'}, Fork ns c c' → (p c).Forked ns (p' c')

theorem forks_exhausted (p' : Parser α) : Forks (fun _ => .exhausted) p' where
  toLocal := local_exhausted p'
  fork := fun _ => .exhausted _

theorem Forks.to_exhausted {p p' : Parser α} (h : Forks p p') : Forks p (fun _ => .exhausted) where
  toLocal := h.toLocal.to_exhausted
  fork := fun _ => .to_exhausted _

theorem forks_succeed (a : α) : Forks (succeed a) (succeed a) where
  toLocal := local_succeed a
  fork := fun h => .ok none h (by simp)

/-- A rule that refuses numerals whatever their digits are does not tell the numerals apart. -/
theorem forks_look {judge : Option Lexeme → Except (List Expectation) α}
    {expected : List Expectation} (h : ∀ ds, judge (some (.integer ds)) = .error expected) :
    Forks (look judge) (look judge) where
  toLocal := local_look judge
  fork := by
    intro ns c c' hfork
    have hle := hfork.index_le
    cases hfork with
    | here rest rest' =>
      simp only [look, ns.short_eq, ns.long_eq, h]
      exact .fail _ hle
    | @ahead i t s s' ht hlater =>
      simp only [look]
      cases judge (some t.lexeme) with
      | ok a => exact .ok none hlater (by simp)
      | error expected => exact .fail _ hle

/-- A rule that reads numerals, and nothing else that could be too long, breaks off at the long
numeral. -/
theorem forks_numeral {expected : List Expectation} {f : Lexeme → Option β}
    {g : β → Except LongNumeral α} {k : Nat → α}
    (hnumeral : ∀ ds, ∃ b, f (.integer ds) = some b ∧ g b = (readNumeral ds.toList).map k)
    (hother : ∀ {l b e}, f l = some b → g b = .error e → ∃ ds, l = .integer ds) :
    Forks (andThen (lexeme expected f) fun b => settle (g b))
      (andThen (lexeme expected f) fun b => settle (g b)) where
  toLocal := (local_look _).andThen fun b => local_settle (g b)
  fork := by
    intro ns c c' hfork
    have hle := hfork.index_le
    cases hfork with
    | here rest rest' =>
      obtain ⟨b, hb, hread⟩ := hnumeral ns.longDigits
      have hlong : g b = .error ns.error := by
        rw [hread, readNumeral, if_pos ns.isLong]
        rfl
      obtain ⟨b₀, hb₀, hread₀⟩ := hnumeral ns.shortDigits
      have hshort : g b₀ = .ok (k (digitsValue ns.shortDigits.toList)) := by
        rw [hread₀, readNumeral_of_length_le ns.isShort]
        rfl
      simp only [andThen, lexeme, look, ns.short_eq, ns.long_eq, hb, hb₀, Option.elim, hlong,
        hshort, settle]
      exact .beyond fun hw => absurd hw.1 (Nat.not_succ_le_self _)
    | @ahead i t s s' ht hlater =>
      simp only [andThen, lexeme, look]
      cases hb : f t.lexeme with
      | none => exact .fail _ hle
      | some b =>
        simp only [Option.elim]
        cases hread : g b with
        | ok a => exact .ok _ hlater (by simp [Miss.both])
        | error e =>
          -- only a numeral could be too long, and the numerals in front of the fork are not
          obtain ⟨ds, hds⟩ := hother hb hread
          obtain ⟨b', hb', hread'⟩ := hnumeral ds
          obtain rfl : b = b' := Option.some.inj (hb.symm.trans (hds ▸ hb'))
          rw [readNumeral_of_length_le (ht ds hds), hread] at hread'
          exact absurd hread' (by simp [Except.map])

theorem forks_tag : Forks tag tag :=
  forks_numeral (fun ds => ⟨ds, rfl, rfl⟩) fun {l b e} hb _ => by
    cases l with
    | integer ds => exact ⟨ds, rfl⟩
    | _ => simp at hb

theorem forks_constant : Forks constant constant := by
  refine forks_numeral (k := fun n => .numeric n) (fun ds => ⟨_, rfl, ?_⟩) fun {l b e} hb he => ?_
  · cases readNumeral ds.toList <;> rfl
  · subst he
    unfold constant? at hb
    split at hb
    · exact ⟨_, rfl⟩
    all_goals simp at hb

theorem Forks.andThen {p p' : Parser α} {f f' : α → Parser β} (hp : Forks p p')
    (hf : ∀ a, Forks (f a) (f' a)) : Forks (andThen p f) (andThen p' f') where
  toLocal := hp.toLocal.andThen fun a => (hf a).toLocal
  fork := by
    intro ns c c' hfork
    have hforked := hp.fork hfork
    unfold Parser.andThen
    generalize p c = r at hforked
    generalize p' c' = r' at hforked
    cases hforked with
    | @ok a next next' miss miss' hnext hmiss => exact ((hf a).fork hnext).behind hmiss miss'
    | fail m' hm => exact .fail m' hm
    | beyond h =>
      refine .beyond fun hw => h ?_
      cases r with
      | ok a next miss =>
        obtain ⟨hwithin, hmiss⟩ := Reply.Within.of_behind hw
        exact ⟨((hf a).forward next).le hwithin, hmiss⟩
      | fail m => exact hw
      | interrupted cause => exact hw
      | exhausted => exact hw
    | exhausted r' => exact .exhausted _
    | to_exhausted r => exact .to_exhausted _

theorem Forks.orElse {p p' q q' : Parser α} (hp : Forks p p') (hq : Forks q q') :
    Forks (orElse p q) (orElse p' q') where
  toLocal := hp.toLocal.orElse hq.toLocal
  fork := by
    intro ns c c' hfork
    have hforked := hp.fork hfork
    unfold Parser.orElse
    generalize p c = r at hforked
    generalize p' c' = r' at hforked
    cases hforked with
    | ok miss' hnext hmiss => exact .ok miss' hnext hmiss
    | fail m' hm =>
      refine (hq.fork hfork).behind (fun m h => ?_) _
      obtain rfl := Option.some.inj h
      exact hm
    | beyond h =>
      refine .beyond fun hw => h ?_
      cases r with
      | fail m => exact (Reply.Within.of_behind hw).2 m rfl
      | ok a next miss => exact hw
      | interrupted cause => exact hw
      | exhausted => exact hw
    | exhausted r' => exact .exhausted _
    | to_exhausted r => exact .to_exhausted _

theorem congruence_forks : Congruence @Forks where
  exhausted := forks_exhausted
  to_exhausted := Forks.to_exhausted
  succeed := forks_succeed
  look := fun _ _ h => forks_look h
  tag := forks_tag
  constant := forks_constant
  andThen := Forks.andThen
  orElse := Forks.orElse

/-- **Whole texts that part at two numerals.**  A run that does not get past the short numeral
misses in front of the long one as well, and one that does breaks off there. -/
theorem forks_document (rules : Rules) (b b' : Nat) :
    Forks (document rules b) (document rules b') := congruence_forks.document rules b b'

end SchemaLang.Grammar
