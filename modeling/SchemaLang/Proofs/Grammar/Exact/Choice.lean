/-
# Exact choices and single steps

Where two rules are alternatives, the misses of both count, and the one that got further counts
more.  This is exact for the union of their languages as long as no text has a word of one language
in front and goes on as a word of the other.  Repetition is a choice in every round: one more
round, or what follows.
-/
import SchemaLang.Proofs.Grammar.Exact

namespace SchemaLang.Grammar

open Text SchemaLang.Grammar.Parser Computability

variable {α β : Type} {rules : Rules} {past u : List Lexeme} {L M K : Language Lexeme}
  {c mid next : Cursor}

/-! ## 1. Alternatives -/

theorem mem_add_mul_left {w : List Lexeme} (h : w ∈ L * K) : w ∈ (L + M) * K := by
  rw [add_mul]
  exact .inl h

theorem mem_add_mul_right {w : List Lexeme} (h : w ∈ M * K) : w ∈ (L + M) * K := by
  rw [add_mul]
  exact .inr h

theorem mem_add_mul_iff {w : List Lexeme} : w ∈ (L + M) * K ↔ w ∈ L * K ∨ w ∈ M * K := by
  rw [add_mul, Language.mem_add]

/-- Beyond the place of a miss nothing goes on. -/
theorem StuckAt.dead {m : Miss} {ts us : List Token} (h : StuckAt rules past L K c m ts mid)
    (hr : Spans mid us next) (hlt : mid.index < next.index) (z : List Lexeme) :
    lexemesOf (ts ++ us) ++ z ∉ L * K := by
  obtain ⟨t, us, rfl⟩ := hr.exists_cons hlt
  rw [lexemesOf_append, List.append_assoc]
  exact h.not_mem (hr.sees_cons _)

/-- Two alternatives that both miss: the miss that got further is exact for both. -/
theorem Stuck.merge {m n : Miss} (h : Stuck rules past L K c m) (k : Stuck rules past M K c n) :
    Stuck rules past (L + M) K c (m.merge n) := by
  obtain ⟨ts, b, h⟩ := h
  obtain ⟨us, d, k⟩ := k
  rcases Nat.lt_trichotomy m.index n.index with hlt | heq | hgt
  · have hbd : b.index < d.index := by rwa [← h.index, ← k.index]
    obtain ⟨vs, rfl, hv⟩ := h.reads.split k.reads (Nat.le_of_lt hbd)
    rw [show m.merge n = n by simp [Miss.merge, hlt], add_comm]
    exact ⟨_, d, k.add (h.dead hv hbd)⟩
  · have hbd : d.index = b.index := by rw [← h.index, ← k.index, heq]
    obtain ⟨vs, rfl, hv⟩ := h.reads.split k.reads (Nat.le_of_eq hbd.symm)
    obtain ⟨rfl, rfl⟩ := hv.eq_of_index_le (Nat.le_of_eq hbd)
    have hfound : m.found = n.found := Option.some.inj (h.found.symm.trans k.found)
    have hmerge : m.merge n = { m with expected := m.expected ++ n.expected } := by
      simp [Miss.merge, heq]
    rw [List.append_nil] at k
    rw [hmerge]
    obtain ⟨w, hw⟩ := h.inside
    refine ⟨ts, d, {
      reads := h.reads
      index := h.index
      found := h.found
      rejected := fun hmay => ?_
      inside := ⟨w, .inl hw⟩
      asks := List.append_ne_nil_of_left_ne_nil h.asks _
      met := fun t ht => ?_
      used := fun e he => ?_ }⟩
    · obtain ⟨z, hzt, hz⟩ := hmay.exists_append
      rcases mem_add_mul_iff.mp hz with hz | hz
      · exact h.rejected (hzt ▸ mayFollow_of_append hz)
      · refine k.rejected ?_
        rw [← hfound, show m.found.lexeme = z.head? from hzt.symm]
        exact mayFollow_of_append hz
    · obtain ⟨z, rfl, hz⟩ := ht.exists_append
      rcases mem_add_mul_iff.mp hz with hz | hz
      · obtain ⟨e, he, hmet⟩ := h.met _ (mayFollow_of_append hz)
        exact ⟨e, List.mem_append_left _ he, hmet⟩
      · obtain ⟨e, he, hmet⟩ := k.met _ (mayFollow_of_append hz)
        exact ⟨e, List.mem_append_right _ he, hmet⟩
    · rcases List.mem_append.mp he with he | he
      · obtain ⟨t, hmet, ht⟩ := h.used e he
        exact ⟨t, hmet, ht.mono fun z => mem_add_mul_left⟩
      · obtain ⟨t, hmet, ht⟩ := k.used e he
        exact ⟨t, hmet, ht.mono fun z => mem_add_mul_right⟩
  · have hdb : d.index < b.index := by rwa [← h.index, ← k.index]
    obtain ⟨vs, rfl, hv⟩ := k.reads.split h.reads (Nat.le_of_lt hdb)
    rw [show m.merge n = m by simp [Miss.merge, hgt, Nat.not_lt.mpr (Nat.le_of_lt hgt)]]
    exact ⟨_, b, h.add (k.dead hv hdb)⟩

/-- An alternative that matches where another one missed no further on. -/
theorem Clean.behind_miss {m : Miss} {us : List Token} {miss : Option Miss}
    (h : Stuck rules past L K c m) (hr : Spans c us next) (hle : m.index ≤ next.index)
    (hclean : Clean rules past M K (lexemesOf us) next miss) :
    Clean rules past (L + M) K (lexemesOf us) next (Miss.both (some m) miss) := by
  obtain ⟨ts, b, h⟩ := h
  obtain ⟨vs, rfl, hv⟩ := h.reads.split hr (h.index ▸ hle)
  have hm : ∀ e ∈ some m, e.index ≤ next.index := fun e he => Option.some.inj he ▸ hle
  have hempty : ∀ e ∈ some m, e.index = next.index → vs = [] ∧ next = b := by
    rintro e he hi
    obtain rfl := Option.some.inj he
    exact hv.eq_of_index_le (by rw [← hi, h.index])
  -- the first alternative cannot go on with anything that is really there
  have hdead : ∀ z, Sees next z → lexemesOf (ts ++ vs) ++ z ∉ L * K := by
    intro z hz
    rw [lexemesOf_append, List.append_assoc]
    exact h.not_mem (hv.sees hz)
  refine {
    onward := fun z hz hmem => ?_
    behind := fun e he => ?_
    found := fun e he hi => ?_
    met := fun t ht => ?_
    used := fun e he => ?_ }
  · exact (mem_add_mul_iff.mp hmem).elim (fun hL => absurd hL (hdead z hz)) (hclean.onward z hz)
  · obtain ⟨x, hx | hx, hi, -⟩ := Miss.of_mem_both he
    · exact hi ▸ hm x hx
    · exact hi ▸ hclean.behind x hx
  · obtain ⟨x, hx | hx, hxi, hf⟩ := Miss.of_mem_both he
    · obtain ⟨rfl, rfl⟩ := hempty x hx (hxi.trans hi)
      obtain rfl := Option.some.inj hx
      rw [← hf]
      exact h.found
    · rw [← hf]
      exact hclean.found x hx (hxi.trans hi)
  · obtain ⟨z, rfl, hz⟩ := ht.exists_append
    rcases mem_add_mul_iff.mp hz with hz | hz
    · cases vs with
      | nil =>
        obtain rfl := hv.eq_of_nil
        rw [List.append_nil] at hz ⊢
        obtain ⟨e, he, hmet⟩ := h.met _ (mayFollow_of_append hz)
        refine .inr ⟨e, (Miss.mem_expectedAt_both hm hclean.behind).mpr (.inl ?_), hmet⟩
        simpa [expectedAt, h.index] using he
      | cons v vs =>
        rw [lexemesOf_append, List.append_assoc] at hz
        exact absurd hz (h.not_mem (hv.sees_cons _))
    · rcases hclean.met _ (mayFollow_of_append hz) with hK | ⟨e, he, hmet⟩
      · exact .inl hK
      · exact .inr ⟨e, (Miss.mem_expectedAt_both hm hclean.behind).mpr (.inr he), hmet⟩
  · rcases (Miss.mem_expectedAt_both hm hclean.behind).mp he with he | he
    · have hi : m.index = next.index := by
        by_contra hne
        simp [expectedAt, hne] at he
      obtain ⟨rfl, rfl⟩ := hempty m rfl hi
      rw [List.append_nil]
      obtain ⟨t, hmet, ht⟩ := h.used e (by simpa [expectedAt, hi] using he)
      exact ⟨t, hmet, ht.mono fun z => mem_add_mul_left⟩
    · obtain ⟨t, hmet, ht⟩ := hclean.used e he
      exact ⟨t, hmet, ht.mono fun z => mem_add_mul_right⟩

/-- **An alternative behind one that missed is exact for both.**  Where the first one got further
than the second one matches, the text must not go on there in `K`. -/
theorem Reply.Exact.behind_miss {m : Miss} {r : Reply α} (h : Stuck rules past L K c m)
    (hcut : c.index < m.index → ∀ v ∈ M, ∀ l w, v ++ l :: w ∈ L → ¬ MayFollow K [] (some l))
    (hr : r.Exact rules past M K c) :
    (r.behind (some m)).Exact rules past (L + M) K c := by
  match r, hr with
  | .ok a next miss, ⟨us, hus, hM, hcases⟩ =>
    refine ⟨us, hus, .inr hM, ?_⟩
    rcases hcases with hclean | ⟨n, rfl, hdoomed⟩
    · rcases Nat.lt_or_ge next.index m.index with hlt | hge
      · -- the first one got further: it decides
        have hboth : Miss.both (some m) miss = some m :=
          Miss.both_eq_left fun e he => Nat.lt_of_le_of_lt (hclean.behind e he) hlt
        obtain ⟨ts, b, h⟩ := h
        have hnb : next.index < b.index := h.index ▸ hlt
        obtain ⟨vs, rfl, hv⟩ := hus.split h.reads (Nat.le_of_lt hnb)
        obtain ⟨t, vs, rfl⟩ := hv.exists_cons hnb
        have hK : ¬ MayFollow K [] (some t.lexeme) := by
          obtain ⟨w, hw⟩ := h.inside
          rw [lexemesOf_append, List.append_assoc] at hw
          exact hcut (Nat.lt_of_le_of_lt hus.le hlt) _ hM _ _ hw
        have hdead : ∀ z, lexemesOf (us ++ t :: vs) ++ z ∉ M * K := by
          intro z hz
          rw [lexemesOf_append, List.append_assoc] at hz
          exact hK (mayFollow_of_append (u := []) (hclean.onward _ (hv.sees_cons _) hz))
        exact .inr ⟨m, hboth, hlt, ⟨_, b, h.add hdead⟩, _, hv.sight?_of_cons, hK⟩
      · exact .inl (hclean.behind_miss h hus hge)
    · refine .inr ⟨m.merge n, rfl, ?_, h.merge hdoomed.stuck, hdoomed.rejected⟩
      exact Nat.lt_of_lt_of_le hdoomed.ahead (Miss.le_index_merge_right m n)
  | .fail n, hr => exact h.merge hr
  | .interrupted cause, h => exact h.interrupted_mono fun w => mem_add_mul_right
  | .exhausted, _ => trivial

/-- **An alternative that is not tried.**  Where the first one has matched, what the second one
could read from there on could be read in `K` as well. -/
theorem Reply.Exact.add {next : Cursor} {a : α} {miss : Option Miss}
    (hcut : ∀ v ∈ L, ∀ z, v ++ z ∈ M * K → z ∈ K)
    (h : (Reply.ok a next miss).Exact rules past L K c) :
    (Reply.ok a next miss).Exact rules past (L + M) K c := by
  obtain ⟨ts, hr, hL, hcases⟩ := h
  refine ⟨ts, hr, .inl hL, ?_⟩
  rcases hcases with hclean | ⟨m, rfl, hdoomed⟩
  · refine .inl {
      onward := fun z hz hmem =>
        (mem_add_mul_iff.mp hmem).elim (hclean.onward z hz) (hcut _ hL z)
      behind := hclean.behind
      found := hclean.found
      met := fun t ht => ?_
      used := fun e he => ?_ }
    · obtain ⟨z, rfl, hz⟩ := ht.exists_append
      rcases mem_add_mul_iff.mp hz with hz | hz
      · exact hclean.met _ (mayFollow_of_append hz)
      · exact .inl (mayFollow_of_append (u := []) (hcut _ hL z hz))
    · obtain ⟨t, hmet, ht⟩ := hclean.used e he
      exact ⟨t, hmet, ht.mono fun z => mem_add_mul_left⟩
  · refine .inr ⟨m, rfl, hdoomed.ahead, ?_, hdoomed.rejected⟩
    obtain ⟨us, b, h⟩ := hdoomed.stuck
    obtain ⟨x, hx, hK⟩ := hdoomed.rejected
    have hnb : next.index < b.index := h.index ▸ hdoomed.ahead
    obtain ⟨vs, rfl, hv⟩ := hr.split h.reads (Nat.le_of_lt hnb)
    obtain ⟨t, vs, rfl⟩ := hv.exists_cons hnb
    rw [hv.sight?_of_cons] at hx
    obtain rfl := Option.some.inj hx
    refine ⟨_, b, h.add fun z hz => ?_⟩
    rw [lexemesOf_append, List.append_assoc] at hz
    exact hK (mayFollow_of_append (u := []) (hcut _ hL _ hz))

/-- Two rules, the second of which is tried where the first one misses. -/
theorem Exact.orElse {p q : Parser α}
    (hmatch : ∀ v ∈ L, ∀ z, v ++ z ∈ M * K → z ∈ K)
    (hmiss : ∀ v ∈ M, ∀ l w, v ++ l :: w ∈ L → ¬ MayFollow K [] (some l))
    (hp : Exact rules past L K p) (hq : Exact rules past M K q) :
    Exact rules past (L + M) K (Parser.orElse p q) := by
  intro c hc
  have h := hp c hc
  unfold Parser.orElse
  cases hpc : p c with
  | ok a next miss =>
    rw [hpc] at h
    exact h.add hmatch
  | fail m =>
    rw [hpc] at h
    exact .behind_miss h (fun _ => hmiss) (hq c hc)
  | interrupted cause =>
    rw [hpc] at h
    exact h.interrupted_mono fun w => mem_add_mul_left
  | exhausted => trivial

/-- A word of `L` may begin with this lexeme. -/
def Begins (L : Language Lexeme) (l : Lexeme) : Prop := MayFollow L [] (some l)

theorem begins_of_cons {l : Lexeme} {w : List Lexeme} (h : l :: w ∈ L) : Begins L l := ⟨w, h⟩

theorem begins_add {l : Lexeme} : Begins (L + M) l ↔ Begins L l ∨ Begins M l := by
  constructor
  · rintro ⟨w, hw | hw⟩
    · exact .inl ⟨w, hw⟩
    · exact .inr ⟨w, hw⟩
  · rintro (⟨w, hw⟩ | ⟨w, hw⟩)
    · exact ⟨w, .inl hw⟩
    · exact ⟨w, .inr hw⟩

/-- A product begins as its first factor does, or as the second where the first may be empty. -/
theorem begins_mul {l : Lexeme} (h : Begins (L * M) l) : Begins L l ∨ [] ∈ L ∧ Begins M l := by
  obtain ⟨w, u, hu, v, hv, e⟩ := h
  cases u with
  | nil => exact .inr ⟨hu, w, by rw [List.nil_append] at e ⊢; exact e ▸ hv⟩
  | cons x u =>
    obtain ⟨rfl, -⟩ := List.cons.inj e
    exact .inl ⟨u, hu⟩

theorem begins_mul_of_nil_notMem {l : Lexeme} (hnil : [] ∉ L) (h : Begins (L * M) l) :
    Begins L l := by
  rcases begins_mul h with h | ⟨hL, -⟩
  · exact h
  · exact absurd hL hnil

theorem begins_mul_left [hM : Productive M] {l : Lexeme} (h : Begins L l) : Begins (L * M) l := by
  obtain ⟨w, hw⟩ := h
  obtain ⟨v, hv⟩ := hM.nonempty
  have hmem : l :: w ++ v ∈ L * M := Language.append_mem_mul hw hv
  exact ⟨w ++ v, hmem⟩

theorem begins_mul_right {l : Lexeme} (hnil : [] ∈ L) (h : Begins M l) : Begins (L * M) l := by
  obtain ⟨w, hw⟩ := h
  exact ⟨w, Language.append_mem_mul hnil hw⟩

theorem nil_notMem_mul (hnil : [] ∉ L) : [] ∉ L * M := by
  rintro ⟨u, hu, v, -, e⟩
  rw [(List.append_eq_nil_iff.mp e).1] at hu
  exact hnil hu

/-- Two rules neither of which reads more of a text than the other one. -/
theorem Exact.orElse_of_level {p q : Parser α}
    (hlevel : ∀ v ∈ L, ∀ w ∈ M, ∀ y z, v ++ y = w ++ z → y = z)
    (hp : Exact rules past L K p) (hq : Exact rules past M K q) :
    Exact rules past (L + M) K (Parser.orElse p q) := by
  refine hp.orElse (fun v hv z hz => ?_) (fun v hv l w hw => ?_) hq
  · obtain ⟨x, hx, y, hy, e⟩ := hz
    rw [hlevel v hv x hx z y e.symm]
    exact hy
  · have e := hlevel _ hw v hv [] (l :: w) (by rw [List.append_nil])
    exact absurd e (by simp)

/-- Two rules that are told apart by the first lexeme. -/
theorem Exact.orElse_of_begins {p q : Parser α} (hL : [] ∉ L) (hM : [] ∉ M)
    (hdisjoint : ∀ l, Begins L l → ¬ Begins M l)
    (hp : Exact rules past L K p) (hq : Exact rules past M K q) :
    Exact rules past (L + M) K (Parser.orElse p q) := by
  refine hp.orElse_of_level (fun v hv w hw y z e => ?_) hq
  cases v with
  | nil => exact absurd hv hL
  | cons a v =>
    cases w with
    | nil => exact absurd hw hM
    | cons b w =>
      obtain ⟨rfl, -⟩ := List.cons.inj e
      exact absurd (begins_of_cons hw) (hdisjoint a (begins_of_cons hv))

/-! ## 2. Single steps -/

theorem exact_succeed (a : α) : Exact rules past 1 K (succeed a) := by
  refine fun c _ => ⟨[], .refl c, rfl, .inl {
    onward := fun z _ hz => by simpa using hz
    behind := fun m hm => absurd hm (by simp)
    found := fun m hm => absurd hm (by simp)
    met := fun t ht => .inl (by simpa using ht)
    used := fun e he => absurd he (by simp [expectedAt]) }⟩

/-- A rule whose value is worked on afterwards. -/
theorem Exact.map [Productive K] {p : Parser α} {g : α → β} (hp : Exact rules past L K p) :
    Exact rules past L K (Parser.andThen p fun a => succeed (g a)) := by
  have hg : ∀ a, ∀ u ∈ L, Exact rules (past ++ u) 1 K (succeed (g a)) :=
    fun a _ _ => exact_succeed (g a)
  have h := Exact.andThen (by rwa [one_mul]) hg
  rwa [mul_one] at h

theorem mem_of_cons_mem_one_mul {P : Lexeme → Prop} {l : Lexeme} {z : List Lexeme}
    (h : l :: z ∈ one P * K) : z ∈ K := by
  obtain ⟨_, -, w, hw, e⟩ := mem_one_mul.mp h
  rw [(List.cons.inj e).2]
  exact hw

/-- A lexeme of the class was read, and nothing else is expected behind it. -/
theorem clean_one {P : Lexeme → Prop} {l : Lexeme} :
    Clean rules past (one P) K [l] next none where
  onward := fun z _ hz => mem_of_cons_mem_one_mul hz
  behind := fun m hm => absurd hm (by simp)
  found := fun m hm => absurd hm (by simp)
  met := fun t ht => .inl (ht.mono fun z hz => mem_of_cons_mem_one_mul hz)
  used := fun e he => absurd he (by simp [expectedAt])

theorem mayFollow_one_mul [hK : Productive K] {P : Lexeme → Prop} {t : Option Lexeme} :
    MayFollow (one P * K) [] t ↔ ∃ l, P l ∧ t = some l := by
  constructor
  · intro h
    obtain ⟨z, rfl, hz⟩ := h.exists_append
    obtain ⟨l, hl, w, -, rfl⟩ := mem_one_mul.mp hz
    exact ⟨l, hl, rfl⟩
  · rintro ⟨l, hl, rfl⟩
    obtain ⟨w, hw⟩ := hK.nonempty
    exact ⟨w, mem_one_mul.mpr ⟨l, hl, w, hw, rfl⟩⟩

/-- Expectations that stand for a class of lexemes. -/
structure Names (rules : Rules) (past : List Lexeme) (P : Lexeme → Prop) (es : List Expectation) :
    Prop where
  asks : es ≠ []
  met : ∀ l, P l → ∃ e ∈ es, e.MetBy rules past (some l)
  used : ∀ e ∈ es, ∃ l, P l ∧ e.MetBy rules past (some l)

theorem Names.exists_mem {P : Lexeme → Prop} {es : List Expectation} (h : Names rules past P es) :
    ∃ l, P l := by
  obtain ⟨e, he⟩ := List.exists_mem_of_ne_nil _ h.asks
  obtain ⟨l, hl, -⟩ := h.used e he
  exact ⟨l, hl⟩

/-- A lexeme outside of the class is in sight, or the end. -/
theorem stuck_one [Productive K] {P : Lexeme → Prop} {x : Sighting} {es : List Expectation}
    (hx : c.ahead.sight? = some x) (hP : ∀ l, x.lexeme = some l → ¬ P l)
    (hes : Names rules past P es) : Stuck rules past (one P) K c ⟨c.index, x, es⟩ := by
  refine ⟨[], c, {
    reads := .refl c
    index := rfl
    found := hx
    rejected := fun h => ?_
    inside := hes.exists_mem.imp' (fun l => [l]) fun l hl => ⟨l, hl, rfl⟩
    asks := hes.asks
    met := fun t ht => ?_
    used := fun e he => ?_ }⟩
  · obtain ⟨l, hl, hxl⟩ := mayFollow_one_mul.mp h
    exact hP l hxl hl
  · obtain ⟨l, hl, rfl⟩ := mayFollow_one_mul.mp ht
    simpa using hes.met l hl
  · obtain ⟨l, hl, hmet⟩ := hes.used e he
    exact ⟨some l, by simpa using hmet, mayFollow_one_mul.mpr ⟨l, hl, rfl⟩⟩

/-- A judgement that approves of the lexemes of a class, and names the class otherwise. -/
theorem exact_look [hK : Productive K] {P : Lexeme → Prop}
    {judge : Option Lexeme → Except (List Expectation) α}
    (hok : ∀ t a, judge t = .ok a → ∃ l, t = some l ∧ (l.WellFormed → P l))
    (herror : ∀ t es, judge t = .error es → Names rules past P es ∧ ∀ l, t = some l → ¬ P l) :
    Exact rules past (one P) K (look judge) := by
  rintro ⟨i, s⟩ hc
  cases s with
  | fault e =>
    obtain ⟨w, hw⟩ := hK.nonempty
    obtain ⟨es, hes⟩ : ∃ es, judge none = .error es := by
      cases h : judge none with
      | ok a => exact absurd (hok none a h) (by simp)
      | error es => exact ⟨es, rfl⟩
    obtain ⟨l, hl⟩ := (herror none es hes).1.exists_mem
    exact ⟨rfl, l :: w, mem_one_mul.mpr ⟨l, hl, w, hw, rfl⟩⟩
  | done p =>
    simp only [look]
    cases h : judge none with
    | ok a => exact absurd (hok none a h) (by simp)
    | error es => exact stuck_one rfl (herror none es h).2 (herror none es h).1
  | token t rest =>
    simp only [look]
    cases h : judge (some t.lexeme) with
    | ok a =>
      obtain ⟨l, hl, hP⟩ := hok _ a h
      obtain rfl := Option.some.inj hl
      have hPt : P t.lexeme := hP (hc t List.mem_cons_self)
      exact ⟨[t], ⟨rfl, rfl⟩, ⟨_, hPt, rfl⟩, .inl clean_one⟩
    | error es => exact stuck_one rfl (herror _ es h).2 (herror _ es h).1

/-- One lexeme of a class, named by what is expected. -/
theorem exact_lexeme [Productive K] {P : Lexeme → Prop} {es : List Expectation}
    {f : Lexeme → Option α} (hes : Names rules past P es)
    (hf : ∀ l, l.WellFormed → ((f l).isSome ↔ P l)) (hP : ∀ l, P l → l.WellFormed) :
    Exact rules past (one P) K (lexeme es f) := by
  refine exact_look (fun t a h => ?_) (fun t es' h => ?_)
  · cases t with
    | none => exact absurd h (by simp)
    | some l =>
      refine ⟨l, rfl, fun hl => (hf l hl).mp ?_⟩
      cases hfl : f l with
      | none => simp [hfl] at h
      | some b => rfl
  · cases t with
    | none => exact ⟨by cases h; exact hes, by simp⟩
    | some l =>
      cases hfl : f l with
      | some b => simp [hfl] at h
      | none =>
        simp only [hfl, Option.elim_none, Except.error.injEq] at h
        refine ⟨h ▸ hes, fun m hm hPm => ?_⟩
        obtain rfl := Option.some.inj hm
        have := (hf l (hP l hPm)).mpr hPm
        simp [hfl] at this

/-- One lexeme of a class, and then a value that may be out of reach: where the lexeme is not of
the class although it is approved of, it is a numeral that is too long. -/
theorem exact_settled [hK : Productive K] {P : Lexeme → Prop} {es : List Expectation}
    {f : Lexeme → Option β} {g : β → Except LongNumeral α} (hes : Names rules past P es)
    (hP : ∀ l, P l → (f l).isSome)
    (hf : ∀ l b, l.WellFormed → f l = some b → (P l ∧ ∃ a, g b = .ok a) ∨
      ((∃ e, g b = .error e) ∧ ∃ ds, l = .integer ds ∧ maxDigits < ds.toList.length)) :
    Exact rules past (one P) K (andThen (lexeme es f) fun b => settle (g b)) := by
  rintro ⟨i, s⟩ hc
  cases s with
  | fault e =>
    obtain ⟨w, hw⟩ := hK.nonempty
    obtain ⟨l, hl⟩ := hes.exists_mem
    exact ⟨rfl, l :: w, mem_one_mul.mpr ⟨l, hl, w, hw, rfl⟩⟩
  | done p => exact stuck_one rfl (by simp) hes
  | token t rest =>
    have ht : t.lexeme.WellFormed := hc t List.mem_cons_self
    simp only [Parser.andThen, lexeme, look]
    cases hft : f t.lexeme with
    | none =>
      refine stuck_one rfl (fun l hl hPl => ?_) hes
      obtain rfl := Option.some.inj hl
      have := hP _ hPl
      simp [hft] at this
    | some b =>
      rcases hf _ b ht hft with ⟨hPt, a, ha⟩ | ⟨⟨e, he⟩, ds, hds, hlong⟩
      · simp only [Option.elim_some, ha, settle]
        exact ⟨[t], ⟨rfl, rfl⟩, ⟨_, hPt, rfl⟩, .inl clean_one⟩
      · simp only [Option.elim_some, he, settle]
        exact ⟨ds, List.mem_map.mpr ⟨t, List.mem_cons_self, hds⟩, hlong⟩

/-! ## 3. Options and repetition -/

/-- A miss is exact for another alternative as well, where that one does not begin with what is
in sight. -/
theorem Stuck.add_of_begins {m : Miss} {x : Sighting} (hx : c.ahead.sight? = some x)
    (hL : MayFollow (L * K) [] x.lexeme) (hM : ¬ MayFollow (M * K) [] x.lexeme)
    (h : Stuck rules past L K c m) : Stuck rules past (L + M) K c m := by
  obtain ⟨ts, mid, h⟩ := h
  refine ⟨ts, mid, h.add fun z hz => ?_⟩
  cases ts with
  | nil =>
    obtain rfl := h.reads.eq_of_nil
    obtain rfl := Option.some.inj (hx.symm.trans h.found)
    exact h.rejected hL
  | cons t ts =>
    obtain rfl := Option.some.inj (hx.symm.trans h.reads.sight?_of_cons)
    exact hM ⟨lexemesOf ts ++ z, hz⟩

/-- **An option that was taken.**  What follows where it is left out does not begin with what is
in sight. -/
theorem Reply.Exact.add_of_begins {r : Reply α} {x : Sighting} (hnil : [] ∉ L)
    (hdisjoint : ∀ l, Begins L l → ¬ Begins (M * K) l) (hx : c.ahead.sight? = some x)
    (hL : MayFollow (L * K) [] x.lexeme) (hM : ¬ MayFollow (M * K) [] x.lexeme)
    (h : r.Exact rules past L K c) : r.Exact rules past (L + M) K c := by
  match r, h with
  | .ok a next miss, h =>
    refine Reply.Exact.add (fun v hv z hz => ?_) h
    cases v with
    | nil => exact absurd hv hnil
    | cons l v => exact absurd (begins_of_cons hz) (hdisjoint l (begins_of_cons hv))
  | .fail m, h => exact Stuck.add_of_begins hx hL hM h
  | .interrupted cause, h => exact h.interrupted_mono fun w => mem_add_mul_left
  | .exhausted, _ => trivial

/-- **A rule that may as well not match**, and what follows in either case.  Where the rule is left
out, its miss is taken along. -/
theorem Exact.optional_of_miss {S N : Language Lexeme} [hS : Productive S] [hK : Productive K]
    {p : Parser α} {f : Option α → Parser β} (hnil : [] ∉ L)
    (hdisjoint : ∀ l, Begins L l → ¬ Begins (N * K) l)
    (hp : Exact rules past L (S * K) p)
    (hsome : ∀ a, ∀ u ∈ L, Exact rules (past ++ u) S K (f (some a)))
    (hnone : ∀ c m, c.ahead.WellFormed → p c = .fail m → Stuck rules past (L * S) K c m →
      ((f none c).behind (some m)).Exact rules past (L * S + N) K c) :
    Exact rules past (L * S + N) K (Parser.andThen (Parser.optional p) f) := by
  have hbegins : ∀ l, Begins (L * S) l → ¬ Begins (N * K) l := fun l hl =>
    hdisjoint l (begins_mul_of_nil_notMem hnil hl)
  intro c hc
  have h := hp c hc
  unfold Parser.andThen Parser.optional Parser.orElse Parser.andThen
  cases hpc : p c with
  | ok a mid miss =>
    rw [hpc] at h
    obtain ⟨ts, hr, hL, hcases⟩ := h
    cases ts with
    | nil => exact absurd hL hnil
    | cons t ts =>
      obtain ⟨v, hv⟩ := hS.nonempty
      obtain ⟨w, hw⟩ := hK.nonempty
      have hmem : lexemesOf (t :: ts) ++ v ++ w ∈ L * S * K :=
        Language.append_mem_mul (Language.append_mem_mul hL hv) hw
      rw [List.append_assoc] at hmem
      exact (Reply.Exact.andThen hr hL hcases (hsome a _ hL mid (hr.wellFormed hc))).add_of_begins
        (nil_notMem_mul hnil) hbegins hr.sight?_of_cons ⟨_, hmem⟩ (hdisjoint _ ⟨_, hL⟩)
  | fail m =>
    rw [hpc] at h
    exact hnone c m hc hpc (Stuck.first h)
  | interrupted cause =>
    rw [hpc] at h
    exact h.interrupted_mono fun w hw => mem_add_mul_left (by rwa [mul_assoc])
  | exhausted => trivial

/-- An optional rule that is told from what follows by the first lexeme. -/
theorem Exact.optional_andThen {S N : Language Lexeme} [Productive S] [Productive K]
    {p : Parser α} {f : Option α → Parser β} (hnil : [] ∉ L)
    (hdisjoint : ∀ l, Begins L l → ¬ Begins (N * K) l)
    (hp : Exact rules past L (S * K) p)
    (hsome : ∀ a, ∀ u ∈ L, Exact rules (past ++ u) S K (f (some a)))
    (hnone : Exact rules past N K (f none)) :
    Exact rules past (L * S + N) K (Parser.andThen (Parser.optional p) f) := by
  refine Exact.optional_of_miss hnil hdisjoint hp hsome fun c m hc _ hm => ?_
  refine Reply.Exact.behind_miss hm (fun _ v hv l w hw hl => ?_) (hnone c hc)
  cases v with
  | nil =>
    have hlS : Begins (L * S) l := ⟨w, hw⟩
    exact hdisjoint l (begins_mul_of_nil_notMem hnil hlS) (begins_mul_right hv hl)
  | cons x v =>
    have hxS : Begins (L * S) x := ⟨v ++ l :: w, hw⟩
    exact hdisjoint x (begins_mul_of_nil_notMem hnil hxS) (begins_mul_left ⟨v, hv⟩)

/-! ### Alternatives that are cut down by what was tried before them -/

/-- A smaller language with the same words from here on, where something is in sight. -/
structure Narrows (L M K : Language Lexeme) (x : Sighting) : Prop where
  sub : ∀ w ∈ M, w ∈ L
  word : ∀ l w, x.lexeme = some l → l :: w ∈ L → l :: w ∈ M
  nil : [] ∉ L
  begins : ∀ t, MayFollow (L * K) [] t → MayFollow (M * K) [] t

theorem Narrows.mul_sub {x : Sighting} {w : List Lexeme} (hn : Narrows L M K x) (h : w ∈ M * K) :
    w ∈ L * K := by
  obtain ⟨u, hu, v, hv, rfl⟩ := h
  exact Language.append_mem_mul (hn.sub u hu) hv

theorem Narrows.mul_word {x : Sighting} {l : Lexeme} {w : List Lexeme} (hn : Narrows L M K x)
    (hl : x.lexeme = some l) (h : l :: w ∈ L * K) : l :: w ∈ M * K := by
  obtain ⟨u, hu, v, hv, e⟩ := h
  cases u with
  | nil => exact absurd hu hn.nil
  | cons y u =>
    obtain ⟨rfl, rfl⟩ := List.cons.inj e
    exact Language.append_mem_mul (hn.word y u hl hu) hv

theorem Stuck.narrow {m : Miss} {x : Sighting} (hx : c.ahead.sight? = some x)
    (hn : Narrows L M K x) (h : Stuck rules past L K c m) : Stuck rules past M K c m := by
  obtain ⟨ts, mid, h⟩ := h
  cases ts with
  | nil =>
    obtain ⟨t, ht⟩ := h.viable
    obtain ⟨z, -, u, hu, -⟩ := (hn.begins t ht).exists_append
    exact ⟨[], mid, {
      reads := h.reads
      index := h.index
      found := h.found
      rejected := fun hM => h.rejected (hM.mono fun _ => hn.mul_sub)
      inside := ⟨u, hu⟩
      asks := h.asks
      met := fun t ht => h.met t (ht.mono fun _ => hn.mul_sub)
      used := fun e he => by
        obtain ⟨t, hmet, ht⟩ := h.used e he
        exact ⟨t, hmet, hn.begins t ht⟩ }⟩
  | cons t ts =>
    have hl : x.lexeme = some t.lexeme := by
      rw [← Option.some.inj (h.reads.sight?_of_cons.symm.trans hx)]
    obtain ⟨w, hw⟩ := h.inside
    exact ⟨t :: ts, mid, {
      reads := h.reads
      index := h.index
      found := h.found
      rejected := fun hM => h.rejected (hM.mono fun _ => hn.mul_sub)
      inside := ⟨w, hn.word _ _ hl hw⟩
      asks := h.asks
      met := fun t ht => h.met t (ht.mono fun _ => hn.mul_sub)
      used := fun e he => by
        obtain ⟨t, hmet, ht⟩ := h.used e he
        exact ⟨t, hmet, ht.mono fun _ => hn.mul_word hl⟩ }⟩

theorem Reply.Exact.narrow {r : Reply α} {x : Sighting} (hx : c.ahead.sight? = some x)
    (hn : Narrows L M K x) (h : r.Exact rules past L K c) : r.Exact rules past M K c := by
  match r, h with
  | .ok a next miss, ⟨ts, hr, hL, hcases⟩ =>
    cases ts with
    | nil => exact absurd hL hn.nil
    | cons t ts =>
      have hl : x.lexeme = some t.lexeme := by
        rw [← Option.some.inj (hr.sight?_of_cons.symm.trans hx)]
      refine ⟨t :: ts, hr, hn.word _ _ hl hL, ?_⟩
      rcases hcases with hclean | ⟨m, rfl, hdoomed⟩
      · exact .inl {
          onward := fun z hz hM => hclean.onward z hz (hn.mul_sub hM)
          behind := hclean.behind
          found := hclean.found
          met := fun t ht => hclean.met t (ht.mono fun _ => hn.mul_sub)
          used := fun e he => by
            obtain ⟨t, hmet, ht⟩ := hclean.used e he
            exact ⟨t, hmet, ht.mono fun _ => hn.mul_word hl⟩ }
      · exact .inr ⟨m, rfl, hdoomed.ahead, hdoomed.stuck.narrow hx hn, hdoomed.rejected⟩
  | .fail m, h => exact Stuck.narrow hx hn h
  | .interrupted (.lexical e), ⟨he, w, hw⟩ =>
    cases hs : c.ahead with
    | done p => simp [hs, TokenStream.error?] at he
    | fault e => simp [hs, TokenStream.sight?] at hx
    | token t rest =>
      have hl : x.lexeme = some t.lexeme := by
        rw [hs] at hx
        rw [← Option.some.inj hx]
      rw [hs] at hw
      exact ⟨he, w, by rw [hs]; exact hn.mul_word hl hw⟩
  | .interrupted (.longNumeral e), hlong => exact hlong
  | .exhausted, _ => trivial

/-- **A second alternative that is cut down by the first one.**  Where the first alternative has
missed without reading, the second one never meets a lexeme that the first one begins with. -/
theorem Reply.Exact.behind_unread [Productive K] {P : Lexeme → Prop} {m : Miss} {r : Reply α}
    (hP : ∀ l, P l ↔ Begins L l) (hL : [] ∉ L) (hM : [] ∉ M) (hm : m.index = c.index)
    (h : Stuck rules past L K c m) (hr : r.Exact rules past M K c) :
    (r.behind (some m)).Exact rules past (L + without M P) K c := by
  obtain ⟨x, hx, hfree⟩ : ∃ x, c.ahead.sight? = some x ∧ ∀ l, x.lexeme = some l → ¬ P l := by
    obtain ⟨ts, mid, h⟩ := h
    obtain ⟨rfl, rfl⟩ := h.reads.eq_of_index_le (by rw [← h.index, hm])
    refine ⟨m.found, h.found, fun l hl hPl => h.rejected ?_⟩
    rw [hl]
    exact begins_mul_left ((hP l).mp hPl)
  refine Reply.Exact.narrow hx {
    sub := fun w hw => hw.imp_right And.left
    word := fun l w hl hw => ?_
    nil := fun hnil => hnil.elim hL hM
    begins := fun t ht => ?_ } (.behind_miss h (fun hlt => absurd hlt (by omega)) hr)
  · refine hw.imp_right fun hw => ⟨hw, fun l' hl' => ?_⟩
    obtain rfl := Option.some.inj hl'
    exact hfree l hl
  · obtain ⟨z, rfl, hz⟩ := ht.exists_append
    rcases mem_add_mul_iff.mp hz with hz | hz
    · exact mayFollow_of_append (mem_add_mul_left hz)
    · obtain ⟨v, hv, k, hk, e⟩ := hz
      cases v with
      | nil => exact absurd hv hM
      | cons l v =>
        rw [List.nil_append] at e
        obtain rfl := e
        by_cases hl : P l
        · exact (begins_mul_left ((hP l).mp hl)).mono fun z => mem_add_mul_left
        · have hword : l :: v ∈ without M P := ⟨hv, fun l' hl' => by
            obtain rfl := Option.some.inj hl'
            exact hl⟩
          have hmem : l :: v ++ k ∈ without M P * K := Language.append_mem_mul hword hk
          exact mayFollow_of_append (u := []) (mem_add_mul_right hmem)

/-- Two rules, the first of which decides by the first lexeme. -/
theorem Exact.orElse_without [Productive K] {P : Lexeme → Prop} {p q : Parser α}
    (hP : ∀ l, P l ↔ Begins L l) (hstart : ∀ c m, p c = .fail m → m.index = c.index)
    (hL : [] ∉ L) (hM : [] ∉ M) (hp : Exact rules past L K p) (hq : Exact rules past M K q) :
    Exact rules past (L + without M P) K (Parser.orElse p q) := by
  intro c hc
  have h := hp c hc
  unfold Parser.orElse
  cases hpc : p c with
  | ok a next miss =>
    rw [hpc] at h
    refine Reply.Exact.add (fun v hv z hz => ?_) h
    obtain ⟨w, ⟨hw, hfree⟩, k, -, e⟩ := hz
    cases v with
    | nil => exact absurd hv hL
    | cons l v =>
      cases w with
      | nil => exact absurd hw hM
      | cons y w =>
        obtain ⟨rfl, -⟩ := List.cons.inj e
        exact absurd ((hP y).mpr ⟨v, hv⟩) (hfree y rfl)
  | fail m =>
    rw [hpc] at h
    exact .behind_unread hP hL hM (hstart c m hpc) h (hq c hc)
  | interrupted cause =>
    rw [hpc] at h
    exact h.interrupted_mono fun w => mem_add_mul_left
  | exhausted => trivial

/-- An optional rule that decides by the first lexeme. -/
theorem Exact.optional_without {S N : Language Lexeme} [Productive S] [Productive K]
    {P : Lexeme → Prop} {p : Parser α} {f : Option α → Parser β} (hP : ∀ l, P l ↔ Begins L l)
    (hstart : ∀ c m, p c = .fail m → m.index = c.index) (hL : [] ∉ L) (hN : [] ∉ N)
    (hp : Exact rules past L (S * K) p)
    (hsome : ∀ a, ∀ u ∈ L, Exact rules (past ++ u) S K (f (some a)))
    (hnone : Exact rules past N K (f none)) :
    Exact rules past (L * S + without N P) K (Parser.andThen (Parser.optional p) f) := by
  refine Exact.optional_of_miss hL (fun l hl hbegins => ?_) hp hsome fun c m hc hpc hm => ?_
  · obtain ⟨w, v, ⟨hv, hfree⟩, k, -, e⟩ := hbegins
    cases v with
    | nil => exact hN hv
    | cons y v =>
      obtain ⟨rfl, -⟩ := List.cons.inj e
      exact hfree y rfl ((hP y).mpr hl)
  · refine .behind_unread (fun l => (hP l).trans ⟨begins_mul_left, ?_⟩) (nil_notMem_mul hL) hN
      (hstart c m hpc) hm (hnone c hc)
    exact begins_mul_of_nil_notMem hL

/-! ### Repetition -/

theorem kstar_eq_mul_add (L : Language Lexeme) : L∗ = L * L∗ + 1 := by
  rw [add_comm]
  exact (Language.one_add_self_mul_kstar_eq_kstar L).symm

/-- The rule as often as it matches.  Every round starts behind some rounds. -/
theorem exact_many [Productive K] {p : Parser α} (hnil : [] ∉ L)
    (hdisjoint : ∀ l, Begins L l → ¬ Begins K l)
    (hp : ∀ u ∈ L∗, Exact rules (past ++ u) L (L∗ * K) p) (budget : Nat) :
    Exact rules past L∗ K (many budget p) := by
  induction budget generalizing past with
  | zero => exact fun _ _ => trivial
  | succ budget ih =>
    rw [kstar_eq_mul_add]
    refine Exact.optional_andThen hnil (by rwa [one_mul]) ?_ (fun a u hu => ?_) (exact_succeed [])
    · simpa using hp [] (Language.nil_mem_kstar L)
    · refine Exact.map (ih fun v hv => ?_)
      rw [List.append_assoc]
      exact hp _ (by rw [kstar_eq_mul_add]; exact .inl (Language.append_mem_mul hu hv))

/-- The rule once behind each mark in a row of them. -/
theorem exact_eachAfter [Productive M] [Productive K] {lead : Parser β} {p : Parser α}
    (hnil : [] ∉ L) (hdisjoint : ∀ l, Begins L l → ¬ Begins K l)
    (hlead : ∀ past, Exact rules past L (M * (L * M)∗ * K) lead)
    (hp : ∀ past, Exact rules past M ((L * M)∗ * K) p) (budget : Nat) :
    Exact rules past (L * M)∗ K (eachAfter lead p budget) := by
  induction budget generalizing past with
  | zero => exact fun _ _ => trivial
  | succ budget ih =>
    rw [kstar_eq_mul_add, mul_assoc]
    refine Exact.optional_andThen hnil (by rwa [one_mul]) (hlead past) (fun _ u _ => ?_)
      (exact_succeed [])
    exact (hp _).andThen fun a v _ => Exact.map ih

end SchemaLang.Grammar
