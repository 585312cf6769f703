/-
# Misses are exact

A rule that misses says how far it got and what could have stood there.  This module makes that a
statement about languages, and proves it for the combinators that rules are built from.

The statement cannot be made of a rule alone.  What may stand at a place depends on how the text
can go on behind the rule: behind the type of a field a dot may stand, because a path may go on,
and a word, because the name of the field follows.  `Exact rules past L K p` therefore speaks of a
rule `p` for the language `L` in front of any text from the language `K`.

* Where `p` misses, it is `Stuck`: what was read up to the miss can be continued in `L * K`, what
  stands there does not continue it, and the expectations of the miss are met by exactly the
  lexemes that do.
* Where `p` matches, it has read a word of `L`, and one of two things holds.  Either the rest of
  the text can only go on in `K`, and the misses on the way add to `K` exactly what could have
  continued the word (`Clean`).  Or some alternative inside `p` got further than `p` did, and the
  rest is no beginning of `K`, so that the text as a whole is stuck where that alternative was
  (`Doomed`).

The second case is not a defect: `map <` is read as a type named `map` once the map type behind it
has missed, and it is the map type that the report must be about.
-/
import SchemaLang.Proofs.Grammar.Following

namespace SchemaLang.Grammar

open Text SchemaLang.Grammar.Parser Computability

variable {α β : Type}

/-! ## 1. Exact replies -/

/-- The expectations of a miss at a given place, none where the miss is elsewhere. -/
def expectedAt (i : Nat) : Option Miss → List Expectation
  | none => []
  | some m => if m.index = i then m.expected else []

/-- A text that starts with what the cursor has in sight. -/
def Sees (c : Cursor) (z : List Lexeme) : Prop :=
  ∀ x, c.ahead.sight? = some x → z.head? = x.lexeme

section Exactness

variable (rules : Rules) (past : List Lexeme) (L K : Language Lexeme)

/-- A miss behind these tokens: what they start can be completed, what stands there does not
complete it, and the expectations are met by exactly what may stand there. -/
structure StuckAt (c : Cursor) (m : Miss) (ts : List Token) (mid : Cursor) : Prop where
  reads : Spans c ts mid
  index : m.index = mid.index
  found : mid.ahead.sight? = some m.found
  rejected : ¬ MayFollow (L * K) (lexemesOf ts) m.found.lexeme
  inside : ∃ w, lexemesOf ts ++ w ∈ L
  asks : m.expected ≠ []
  met : ∀ t, MayFollow (L * K) (lexemesOf ts) t →
    ∃ e ∈ m.expected, e.MetBy rules (past ++ lexemesOf ts) t
  used : ∀ e ∈ m.expected, ∃ t, e.MetBy rules (past ++ lexemesOf ts) t ∧
    MayFollow (L * K) (lexemesOf ts) t

def Stuck (c : Cursor) (m : Miss) : Prop := ∃ ts mid, StuckAt rules past L K c m ts mid

/-- Behind a match that read `u` the text can only go on in `K`, and what else could have
continued `u` was missed at this very place. -/
structure Clean (u : List Lexeme) (next : Cursor) (miss : Option Miss) : Prop where
  onward : ∀ z, Sees next z → u ++ z ∈ L * K → z ∈ K
  behind : ∀ m ∈ miss, m.index ≤ next.index
  found : ∀ m ∈ miss, m.index = next.index → next.ahead.sight? = some m.found
  met : ∀ t, MayFollow (L * K) u t →
    MayFollow K [] t ∨ ∃ e ∈ expectedAt next.index miss, e.MetBy rules (past ++ u) t
  used : ∀ e ∈ expectedAt next.index miss, ∃ t, e.MetBy rules (past ++ u) t ∧
    MayFollow (L * K) u t

/-- A match that another alternative got further than, in front of what is no beginning of
`K`. -/
structure Doomed (c next : Cursor) (m : Miss) : Prop where
  ahead : next.index < m.index
  stuck : Stuck rules past L K c m
  rejected : ∃ x, next.ahead.sight? = some x ∧ ¬ MayFollow K [] x.lexeme

/-- A reply that tells exactly what the languages say.  A run that breaks off at a fault has read
everything in front of it, and all of that can be completed. -/
def Reply.Exact (c : Cursor) : Reply α → Prop
  | .ok _ next miss => ∃ ts, Spans c ts next ∧ lexemesOf ts ∈ L ∧
      (Clean rules past L K (lexemesOf ts) next miss ∨
        ∃ m, miss = some m ∧ Doomed rules past L K c next m)
  | .fail m => Stuck rules past L K c m
  | .interrupted (.lexical e) => c.ahead.error? = some e ∧ ∃ w, c.ahead.lexemes ++ w ∈ L * K
  | .interrupted (.longNumeral _) =>
    ∃ ds, .integer ds ∈ c.ahead.lexemes ∧ maxDigits < ds.toList.length
  | .exhausted => True

/-- A rule all of whose replies are exact. -/
def Exact (p : Parser α) : Prop :=
  ∀ c : Cursor, c.ahead.WellFormed → (p c).Exact rules past L K c

end Exactness

variable {rules : Rules} {past u : List Lexeme} {L M K : Language Lexeme} {c mid next : Cursor}

/-! ## 2. Merging misses -/

/-- A later miss and the ones before it, none of which got further. -/
theorem Miss.after_eq {m : Miss} {miss : Option Miss} (hle : ∀ e ∈ miss, e.index ≤ m.index)
    (hfound : ∀ e ∈ miss, e.index = m.index → e.found = m.found) :
    m.after miss = { m with expected := expectedAt m.index miss ++ m.expected } := by
  cases miss with
  | none => rfl
  | some e =>
    have hle := hle e rfl
    rcases Nat.lt_or_eq_of_le hle with hlt | heq
    · simp [after, merge, expectedAt, hlt, Nat.ne_of_lt hlt]
    · have hf := hfound e rfl heq
      simp [after, merge, expectedAt, heq, hf]

/-- An earlier miss that got further than the later ones. -/
theorem Miss.both_eq_left {m : Miss} {miss : Option Miss} (h : ∀ e ∈ miss, e.index < m.index) :
    Miss.both (some m) miss = some m := by
  cases miss with
  | none => rfl
  | some e =>
    have hlt := h e rfl
    simp [both, after, merge, hlt, Nat.not_lt.mpr (Nat.le_of_lt hlt)]

/-- Merging invents no place. -/
theorem Miss.of_mem_both {a b : Option Miss} {m : Miss} (h : m ∈ Miss.both a b) :
    ∃ e, (e ∈ a ∨ e ∈ b) ∧ e.index = m.index ∧ e.found = m.found := by
  cases b with
  | none => exact ⟨m, .inl h, rfl, rfl⟩
  | some y =>
    cases a with
    | none => exact ⟨m, .inr h, rfl, rfl⟩
    | some x =>
      obtain rfl : x.merge y = m := by simpa [both, after] using h
      unfold merge
      split
      · exact ⟨y, .inr rfl, rfl, rfl⟩
      · split <;> exact ⟨x, .inl rfl, rfl, rfl⟩

/-- Of misses that got no further than a place, merging loses none at that place. -/
theorem Miss.mem_expectedAt_both {i : Nat} {a b : Option Miss} {e : Expectation}
    (ha : ∀ m ∈ a, m.index ≤ i) (hb : ∀ m ∈ b, m.index ≤ i) :
    e ∈ expectedAt i (Miss.both a b) ↔ e ∈ expectedAt i a ∨ e ∈ expectedAt i b := by
  cases b with
  | none => simp [both, expectedAt]
  | some y =>
    cases a with
    | none => simp [both, after, expectedAt]
    | some x =>
      have hx := ha x rfl
      have hy := hb y rfl
      simp only [both, after, expectedAt, merge]
      by_cases hxy : x.index < y.index
      · have hne : x.index ≠ i := by omega
        simp [hxy, hne]
      · by_cases hyx : y.index < x.index
        · have hne : y.index ≠ i := by omega
          simp [hxy, hyx, hne]
        · have heq : x.index = y.index := by omega
          by_cases hi : y.index = i <;> simp [heq, hi]

theorem expectedAt_of_lt {i : Nat} {miss : Option Miss} (h : ∀ m ∈ miss, m.index < i) :
    expectedAt i miss = [] := by
  cases miss with
  | none => rfl
  | some m => simp [expectedAt, Nat.ne_of_lt (h m rfl)]

/-! ## 3. What follows from being stuck -/

theorem Spans.eq_of_nil (h : Spans c [] next) : next = c := by
  obtain ⟨hahead, hindex⟩ := h
  cases c
  cases next
  rw [Cursor.mk.injEq]
  exact ⟨hindex, hahead.symm⟩

/-- A reading that gets no further reads nothing. -/
theorem Spans.eq_of_index_le {ts : List Token} (h : Spans c ts next)
    (hle : next.index ≤ c.index) : ts = [] ∧ next = c := by
  have hlen := h.index
  obtain rfl : ts = [] := List.length_eq_zero_iff.mp (by omega)
  exact ⟨rfl, h.eq_of_nil⟩

/-- A reading that gets further reads something. -/
theorem Spans.exists_cons {ts : List Token} (h : Spans c ts next) (hlt : c.index < next.index) :
    ∃ t us, ts = t :: us := by
  refine List.exists_cons_of_ne_nil ?_
  rintro rfl
  rw [h.eq_of_nil] at hlt
  exact absurd hlt (Nat.lt_irrefl _)

/-- What was read first is in sight, whatever is said of what is behind it. -/
theorem Spans.sees_cons {t : Token} {ts : List Token} (h : Spans c (t :: ts) next)
    (z : List Lexeme) : Sees c (t.lexeme :: z) := by
  intro x hx
  rw [h.sight?_of_cons] at hx
  obtain rfl := Option.some.inj hx
  rfl

/-- Reading leads to a text that starts with what was read. -/
theorem Spans.sees {ts : List Token} {z : List Lexeme} (h : Spans c ts next) (hz : Sees next z) :
    Sees c (lexemesOf ts ++ z) := by
  cases ts with
  | nil => rwa [h.eq_of_nil] at hz
  | cons t ts => exact h.sees_cons _

/-- What may follow a non-empty beginning makes that beginning's first lexeme one. -/
theorem MayFollow.first {S : Language Lexeme} {l : Lexeme} {w : List Lexeme} {t : Option Lexeme}
    (h : MayFollow S (l :: w) t) : MayFollow S [] (some l) := by
  obtain ⟨z, -, hz⟩ := h.exists_append
  exact ⟨w ++ z, hz⟩

theorem StuckAt.viable {m : Miss} {ts : List Token} (h : StuckAt rules past L K c m ts mid) :
    ∃ t, MayFollow (L * K) (lexemesOf ts) t := by
  obtain ⟨e, he⟩ := List.exists_mem_of_ne_nil _ h.asks
  obtain ⟨t, -, ht⟩ := h.used e he
  exact ⟨t, ht⟩

/-- Where nothing can begin with what is in sight, no miss is further on. -/
theorem Stuck.index_eq {m : Miss} {x : Sighting} (h : Stuck rules past L K c m)
    (hx : c.ahead.sight? = some x) (hn : ¬ MayFollow (L * K) [] x.lexeme) :
    m.index = c.index := by
  obtain ⟨ts, mid, h⟩ := h
  cases ts with
  | nil => rw [h.index, h.reads.index]; rfl
  | cons t ts =>
    rw [h.reads.sight?_of_cons] at hx
    obtain rfl := Option.some.inj hx
    obtain ⟨t', ht'⟩ := h.viable
    exact absurd ht'.first hn

/-- Another language without a word that goes on from here changes nothing. -/
theorem StuckAt.add {m : Miss} {ts : List Token} (h : StuckAt rules past L K c m ts mid)
    (hdead : ∀ z, lexemesOf ts ++ z ∉ M * K) : StuckAt rules past (L + M) K c m ts mid := by
  have hsame : ∀ t, MayFollow ((L + M) * K) (lexemesOf ts) t ↔ MayFollow (L * K) (lexemesOf ts) t :=
    mayFollow_congr fun z => by
      rw [add_mul, Language.mem_add]
      exact or_iff_left (hdead z)
  obtain ⟨w, hw⟩ := h.inside
  exact {
    reads := h.reads
    index := h.index
    found := h.found
    rejected := by rw [hsame]; exact h.rejected
    inside := ⟨w, .inl hw⟩
    asks := h.asks
    met := fun t ht => h.met t ((hsame t).mp ht)
    used := fun e he => by
      obtain ⟨t, hmet, ht⟩ := h.used e he
      exact ⟨t, hmet, (hsame t).mpr ht⟩ }

/-- What was rejected is no way to go on. -/
theorem StuckAt.not_mem {m : Miss} {ts : List Token} {z : List Lexeme}
    (h : StuckAt rules past L K c m ts mid) (hz : Sees mid z) : lexemesOf ts ++ z ∉ L * K := by
  intro hmem
  have := mayFollow_of_append hmem
  rw [hz _ h.found] at this
  exact h.rejected this

/-! ## 4. One rule behind another -/

theorem mem_mul_append {v : List Lexeme} (hu : u ∈ L) (hv : v ∈ M * K) : u ++ v ∈ L * M * K := by
  rw [mul_assoc]
  exact Language.append_mem_mul hu hv

/-- Some way behind a clean match only the continuation matters. -/
theorem Clean.mayFollow {ts us : List Token} {x : Token} {miss : Option Miss} {t : Option Lexeme}
    (h : Clean rules past L (M * K) (lexemesOf ts) mid miss) (hr : Spans mid (x :: us) next)
    (ht : MayFollow (L * M * K) (lexemesOf (ts ++ x :: us)) t) :
    MayFollow (M * K) (lexemesOf (x :: us)) t := by
  obtain ⟨z, hzt, hz⟩ := ht.exists_append
  rw [lexemesOf_append, List.append_assoc, mul_assoc] at hz
  exact hzt ▸ mayFollow_of_append (h.onward _ (hr.sees_cons _) hz)

/-- A miss behind a clean match: the match's own misses at that place count as well. -/
theorem Clean.stuck {ts : List Token} {m : Miss} {miss : Option Miss} (hr : Spans c ts mid)
    (hL : lexemesOf ts ∈ L) (hclean : Clean rules past L (M * K) (lexemesOf ts) mid miss)
    (h : Stuck rules (past ++ lexemesOf ts) M K mid m) :
    Stuck rules past (L * M) K c (m.after miss) := by
  obtain ⟨us, last, h⟩ := h
  have hle : ∀ e ∈ miss, e.index ≤ m.index := fun e he => by
    rw [h.index]
    exact Nat.le_trans (hclean.behind e he) h.reads.le
  have hfound : ∀ e ∈ miss, e.index = m.index → e.found = m.found := fun e he hi => by
    have hlast : last.index ≤ mid.index := by
      rw [← h.index, ← hi]
      exact hclean.behind e he
    obtain ⟨rfl, rfl⟩ := h.reads.eq_of_index_le hlast
    exact Option.some.inj ((hclean.found e he (hi.trans h.index)).symm.trans h.found)
  have hgo : ∀ z, lexemesOf us ++ z ∈ M * K → lexemesOf (ts ++ us) ++ z ∈ L * M * K := by
    intro z hz
    rw [lexemesOf_append, List.append_assoc]
    exact mem_mul_append hL hz
  rw [Miss.after_eq hle hfound]
  obtain ⟨w, hw⟩ := h.inside
  refine ⟨ts ++ us, last, {
    reads := hr.trans h.reads
    index := h.index
    found := h.found
    rejected := fun hmay => ?_
    inside := ⟨w, by
      rw [lexemesOf_append, List.append_assoc]
      exact Language.append_mem_mul hL hw⟩
    asks := List.append_ne_nil_of_right_ne_nil _ h.asks
    met := fun t ht => ?_
    used := fun e he => ?_ }⟩
  · obtain ⟨z, hzt, hz⟩ := hmay.exists_append
    have hsees : Sees last z := fun x hx => by
      rw [h.found] at hx
      rw [hzt, Option.some.inj hx]
    rw [lexemesOf_append, List.append_assoc, mul_assoc] at hz
    exact h.not_mem hsees (hclean.onward _ (h.reads.sees hsees) hz)
  · -- at the very end of the match its own misses count, behind it they do not
    cases us with
    | nil =>
      obtain rfl := h.reads.eq_of_nil
      rw [List.append_nil, mul_assoc] at ht
      rcases hclean.met t ht with hK | ⟨e, he, hmet⟩
      · obtain ⟨e, he, hmet⟩ := h.met t hK
        exact ⟨e, List.mem_append_right _ he, by simpa using hmet⟩
      · exact ⟨e, List.mem_append_left _ (h.index ▸ he), by simpa using hmet⟩
    | cons x us =>
      obtain ⟨e, he, hmet⟩ := h.met t (hclean.mayFollow h.reads ht)
      exact ⟨e, List.mem_append_right _ he, by
        rwa [List.append_assoc, ← lexemesOf_append] at hmet⟩
  · rcases List.mem_append.mp he with he | he
    · have hlast : last.index ≤ mid.index := by
        by_contra hlt
        rw [expectedAt_of_lt fun e he => Nat.lt_of_le_of_lt (hclean.behind e he)
          (h.index ▸ Nat.not_le.mp hlt)] at he
        exact absurd he (by simp)
      obtain ⟨rfl, rfl⟩ := h.reads.eq_of_index_le hlast
      obtain ⟨t, hmet, ht⟩ := hclean.used e (h.index ▸ he)
      exact ⟨t, by simpa using hmet, by simpa [mul_assoc] using ht⟩
    · obtain ⟨t, hmet, ht⟩ := h.used e he
      exact ⟨t, by rwa [lexemesOf_append, ← List.append_assoc], ht.mono hgo⟩

/-- Two clean matches in a row. -/
theorem Clean.trans {ts us : List Token} {a b : Option Miss} (hr : Spans mid us next)
    (hL : lexemesOf ts ∈ L) (ha : Clean rules past L (M * K) (lexemesOf ts) mid a)
    (hb : Clean rules (past ++ lexemesOf ts) M K (lexemesOf us) next b) :
    Clean rules past (L * M) K (lexemesOf (ts ++ us)) next (Miss.both a b) := by
  have hale : ∀ m ∈ a, m.index ≤ next.index := fun m hm => Nat.le_trans (ha.behind m hm) hr.le
  have hgo : ∀ z, lexemesOf us ++ z ∈ M * K → lexemesOf (ts ++ us) ++ z ∈ L * M * K := by
    intro z hz
    rw [lexemesOf_append, List.append_assoc]
    exact mem_mul_append hL hz
  refine {
    onward := fun z hz hmem => ?_
    behind := fun m hm => ?_
    found := fun m hm hi => ?_
    met := fun t ht => ?_
    used := fun e he => ?_ }
  · rw [lexemesOf_append, List.append_assoc, mul_assoc] at hmem
    exact hb.onward z hz (ha.onward _ (hr.sees hz) hmem)
  · obtain ⟨e, he | he, hi, -⟩ := Miss.of_mem_both hm
    · exact hi ▸ hale e he
    · exact hi ▸ hb.behind e he
  · obtain ⟨e, he | he, hei, hf⟩ := Miss.of_mem_both hm
    · have hnext : next.index ≤ mid.index := by
        rw [← hi, ← hei]
        exact ha.behind e he
      obtain ⟨rfl, rfl⟩ := hr.eq_of_index_le hnext
      rw [← hf]
      exact ha.found e he (hei.trans hi)
    · rw [← hf]
      exact hb.found e he (hei.trans hi)
  · cases us with
    | nil =>
      obtain rfl := hr.eq_of_nil
      rw [List.append_nil, mul_assoc] at ht
      rcases ha.met t ht with hK | ⟨e, he, hmet⟩
      · rcases hb.met t hK with hK | ⟨e, he, hmet⟩
        · exact .inl hK
        · exact .inr ⟨e, (Miss.mem_expectedAt_both hale hb.behind).mpr (.inr he), by
            simpa using hmet⟩
      · exact .inr ⟨e, (Miss.mem_expectedAt_both hale hb.behind).mpr (.inl he), by
          simpa using hmet⟩
    | cons x us =>
      rcases hb.met t (ha.mayFollow hr ht) with hK | ⟨e, he, hmet⟩
      · exact .inl hK
      · exact .inr ⟨e, (Miss.mem_expectedAt_both hale hb.behind).mpr (.inr he), by
          rwa [List.append_assoc, ← lexemesOf_append] at hmet⟩
  · rcases (Miss.mem_expectedAt_both hale hb.behind).mp he with he | he
    · have hnext : next.index ≤ mid.index := by
        by_contra hlt
        rw [expectedAt_of_lt fun e he =>
          Nat.lt_of_le_of_lt (ha.behind e he) (Nat.not_le.mp hlt)] at he
        exact absurd he (by simp)
      obtain ⟨rfl, rfl⟩ := hr.eq_of_index_le hnext
      obtain ⟨t, hmet, ht⟩ := ha.used e he
      exact ⟨t, by simpa using hmet, by simpa [mul_assoc] using ht⟩
    · obtain ⟨t, hmet, ht⟩ := hb.used e he
      exact ⟨t, by rwa [lexemesOf_append, ← List.append_assoc], ht.mono hgo⟩

/-- A miss of the first of two rules is one of both. -/
theorem Stuck.first [hM : Productive M] {m : Miss} (h : Stuck rules past L (M * K) c m) :
    Stuck rules past (L * M) K c m := by
  obtain ⟨ts, mid, h⟩ := h
  obtain ⟨w, hw⟩ := h.inside
  obtain ⟨v, hv⟩ := hM.nonempty
  refine ⟨ts, mid, {
    reads := h.reads
    index := h.index
    found := h.found
    rejected := by rw [mul_assoc]; exact h.rejected
    inside := ⟨w ++ v, by rw [← List.append_assoc]; exact Language.append_mem_mul hw hv⟩
    asks := h.asks
    met := by rw [mul_assoc]; exact h.met
    used := by rw [mul_assoc]; exact h.used }⟩

/-- A reply that got nowhere, with `x` in sight. -/
def Reply.Stays (K : Language Lexeme) (c : Cursor) (x : Sighting) : Reply α → Prop
  | .ok _ next miss => next = c ∧ (∀ m ∈ miss, m.index ≤ c.index) ∧ ¬ MayFollow K [] x.lexeme
  | .fail m => m.index = c.index
  | .interrupted (.lexical _) => False
  | .interrupted (.longNumeral _) => True
  | .exhausted => True

/-- In front of what nothing can begin with, an exact rule stays where it is. -/
theorem Reply.Exact.stays [hK : Productive K] {r : Reply α} {x : Sighting}
    (hx : c.ahead.sight? = some x) (hn : ¬ MayFollow (L * K) [] x.lexeme)
    (h : r.Exact rules past L K c) : r.Stays K c x := by
  match r, h with
  | .ok a next miss, ⟨ts, hr, hL, hcases⟩ =>
    cases ts with
    | nil =>
      obtain rfl := hr.eq_of_nil
      have hKn : ¬ MayFollow K [] x.lexeme := fun hK =>
        hn (hK.mono fun z hz => Language.append_mem_mul hL hz)
      refine ⟨rfl, fun m hm => ?_, hKn⟩
      rcases hcases with hclean | ⟨e, rfl, hdoomed⟩
      · exact hclean.behind m hm
      · obtain rfl := Option.some.inj hm
        exact Nat.le_of_eq (hdoomed.stuck.index_eq hx hn)
    | cons t ts =>
      rw [hr.sight?_of_cons] at hx
      obtain rfl := Option.some.inj hx
      obtain ⟨z, hz⟩ := hK.nonempty
      have hmem : lexemesOf (t :: ts) ++ z ∈ L * K := Language.append_mem_mul hL hz
      exact absurd ⟨lexemesOf ts ++ z, hmem⟩ hn
  | .fail m, h => exact h.index_eq hx hn
  | .interrupted (.lexical e), ⟨he, w, hw⟩ =>
    cases hs : c.ahead with
    | done p => simp [hs, TokenStream.error?] at he
    | fault e => simp [hs, TokenStream.sight?] at hx
    | token t rest =>
      rw [hs] at hx hw
      obtain rfl := Option.some.inj hx
      exact hn ⟨rest.lexemes ++ w, hw⟩
  | .interrupted (.longNumeral e), _ => trivial
  | .exhausted, _ => trivial

/-- **What follows an exact match is exact.** -/
theorem Reply.Exact.andThen [hM : Productive M] [Productive K] {ts : List Token}
    {miss : Option Miss} {r : Reply β} (hr : Spans c ts mid) (hL : lexemesOf ts ∈ L)
    (hcases : Clean rules past L (M * K) (lexemesOf ts) mid miss ∨
      ∃ m, miss = some m ∧ Doomed rules past L (M * K) c mid m)
    (h : r.Exact rules (past ++ lexemesOf ts) M K mid) :
    (r.behind miss).Exact rules past (L * M) K c := by
  rcases hcases with hclean | ⟨m, rfl, hdoomed⟩
  · match r, h with
    | .ok b next miss', ⟨us, hus, hMus, hcases⟩ =>
      refine ⟨ts ++ us, hr.trans hus, ?_, ?_⟩
      · rw [lexemesOf_append]
        exact Language.append_mem_mul hL hMus
      rcases hcases with hclean' | ⟨m, rfl, hdoomed⟩
      · exact .inl (hclean.trans hus hL hclean')
      · refine .inr ⟨m.after miss, rfl, ?_, hclean.stuck hr hL hdoomed.stuck, hdoomed.rejected⟩
        have hlt : ∀ e ∈ miss, e.index < m.index := fun e he =>
          Nat.lt_of_le_of_lt (hclean.behind e he) (Nat.lt_of_le_of_lt hus.le hdoomed.ahead)
        rw [Miss.after_eq (fun e he => Nat.le_of_lt (hlt e he))
          (fun e he hi => absurd hi (Nat.ne_of_lt (hlt e he)))]
        exact hdoomed.ahead
    | .fail m, h => exact hclean.stuck hr hL h
    | .interrupted (.lexical e), ⟨he, w, hw⟩ =>
      refine ⟨hr.error?.trans he, w, ?_⟩
      rw [hr.lexemes, List.append_assoc]
      exact mem_mul_append hL hw
    | .interrupted (.longNumeral e), ⟨ds, hds, hlong⟩ =>
      exact ⟨ds, by rw [hr.lexemes]; exact List.mem_append_right _ hds, hlong⟩
    | .exhausted, _ => trivial
  · obtain ⟨x, hx, hn⟩ := hdoomed.rejected
    have hstuck : Stuck rules past (L * M) K c m := hdoomed.stuck.first
    have hstays := h.stays hx hn
    match r, h, hstays with
    | .ok b next miss', ⟨us, hus, hMus, _⟩, ⟨hnext, hbehind, hK⟩ =>
      have hlt : ∀ e ∈ miss', e.index < m.index := fun e he =>
        Nat.lt_of_le_of_lt (hbehind e he) hdoomed.ahead
      refine ⟨ts ++ us, hr.trans hus, ?_, .inr ⟨m, Miss.both_eq_left hlt, ?_, hstuck, x, ?_, hK⟩⟩
      · rw [lexemesOf_append]
        exact Language.append_mem_mul hL hMus
      · rw [hnext]
        exact hdoomed.ahead
      · rw [hnext]
        exact hx
    | .fail e, _, hindex =>
      have hlt : e.index < m.index := Nat.lt_of_le_of_lt (Nat.le_of_eq hindex) hdoomed.ahead
      have hafter : e.after (some m) = m := by
        simp [Miss.after, Miss.merge, hlt, Nat.not_lt.mpr (Nat.le_of_lt hlt)]
      show Stuck rules past (L * M) K c (e.after (some m))
      rw [hafter]
      exact hstuck
    | .interrupted (.longNumeral e), ⟨ds, hds, hlong⟩, _ =>
      exact ⟨ds, by rw [hr.lexemes]; exact List.mem_append_right _ hds, hlong⟩
    | .exhausted, _, _ => trivial

/-- A run that breaks off tells as much of any language that all it could be completed to is in. -/
theorem Reply.Exact.interrupted_mono {L' K' : Language Lexeme} {cause : Interruption}
    (h : (Reply.interrupted cause : Reply α).Exact rules past L K c)
    (hle : ∀ w ∈ L * K, w ∈ L' * K') :
    (Reply.interrupted cause : Reply β).Exact rules past L' K' c := by
  cases cause with
  | lexical e =>
    obtain ⟨he, w, hw⟩ := h
    exact ⟨he, w, hle _ hw⟩
  | longNumeral e => exact h

/-- One rule and then another. -/
theorem Exact.andThen [Productive M] [Productive K] {p : Parser α} {f : α → Parser β}
    (hp : Exact rules past L (M * K) p)
    (hf : ∀ a, ∀ u ∈ L, Exact rules (past ++ u) M K (f a)) :
    Exact rules past (L * M) K (Parser.andThen p f) := by
  intro c hc
  have h := hp c hc
  unfold Parser.andThen
  cases hpc : p c with
  | ok a mid miss =>
    rw [hpc] at h
    obtain ⟨ts, hr, hL, hcases⟩ := h
    exact .andThen hr hL hcases (hf a _ hL mid (hr.wellFormed hc))
  | fail m =>
    rw [hpc] at h
    exact Stuck.first h
  | interrupted cause =>
    rw [hpc] at h
    exact h.interrupted_mono fun w hw => by rwa [mul_assoc]
  | exhausted => trivial

end SchemaLang.Grammar
