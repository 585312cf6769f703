/-
# How a text is cut

A segment is a lexeme with the gap in front of it, and a text is cut into segments and one last gap
(`Segmentation`).  Nothing in this refers to the scanner: gaps are rows of fillers, and lexemes
stand as their texts.

Every text that can be cut can be cut in one way only, and the scanner finds it.  Where a text
cannot be cut, the scanner finds the cut of its longest beginning that can
(`scan_eq_segmentation`).  The first half goes along the cut, with the text behind it at hand
(`Segmented.scanFrom`); the second one takes the cut from the scanner (`exists_segmented`) and needs
that a fault stays one, however much of the text behind it is taken away (`fault_of_prefix`).
-/
import SchemaLang.Proofs.Scanner.Pieces

namespace SchemaLang

open Text

variable {rules : Rules} {text gap rest rest' : List Char} {l : Lexeme}

/-! ## 1. Gaps -/

/-- Fillers in a row, the last of them in front of `rest`. -/
inductive IsGap (rules : Rules) : List Char → List Char → Prop
  | nil {rest : List Char} : IsGap rules [] rest
  | cons {text gap rest : List Char} (hfirst : IsFiller rules text (gap ++ rest))
      (hgap : IsGap rules gap rest) : IsGap rules (text ++ gap) rest

/-- No line break is cut in two between the texts. -/
def CutsNoBreak (text rest : List Char) : Prop :=
  text.getLast? = some '\r' → rest.head? ≠ some '\n'

theorem IsBreak.cutsNoBreak (h : IsBreak text rest) : CutsNoBreak text rest := by
  cases h with
  | returnFeed => exact fun hlast => absurd hlast (by decide)
  | feed => exact fun hlast => absurd hlast (by decide)
  | lone hrest => exact fun _ => hrest

theorem CutsNoBreak.of_append {more : List Char} (h : CutsNoBreak text (rest ++ more)) :
    CutsNoBreak text rest := by
  intro hlast hhead
  obtain ⟨ds, rfl⟩ := List.head?_eq_some_iff.mp hhead
  exact h hlast rfl

/-- A text without a line break ends in no carriage return. -/
theorem cutsNoBreak_of_no_break (h : ∀ c ∈ text, isLineBreak c = false) : CutsNoBreak text rest :=
  fun hlast => absurd (h '\r' (List.mem_of_getLast? hlast)) (by decide)

theorem IsFiller.ne_nil (h : IsFiller rules text rest) : text ≠ [] := by
  cases h <;> simp

theorem IsFiller.cutsNoBreak (h : IsFiller rules text rest) : CutsNoBreak text rest := by
  cases h with
  | blank hc =>
    exact cutsNoBreak_of_no_break (List.forall_mem_singleton.mpr (not_isLineBreak_of_isBlank hc))
  | comment _ h _ => exact cutsNoBreak_of_no_break (no_break_slashes h)
  | @line body ending rest _ h hending =>
    intro hlast
    refine hending.cutsNoBreak ?_
    have hne : ending ≠ [] := by cases hending <;> simp
    rwa [← List.cons_append, ← List.cons_append, List.getLast?_append_of_ne_nil _ hne] at hlast
  | lastLine _ h => exact cutsNoBreak_of_no_break (no_break_slashes h)

theorem IsGap.cutsNoBreak (h : IsGap rules gap rest) : CutsNoBreak gap rest := by
  induction h with
  | nil => exact fun hlast => absurd hlast (by simp)
  | @cons text gap rest hfirst hgap ih =>
    intro hlast
    by_cases hnil : gap = []
    · subst hnil
      rw [List.append_nil] at hlast
      exact hfirst.cutsNoBreak hlast
    · rw [List.getLast?_append_of_ne_nil _ hnil] at hlast
      exact ih hlast

theorem Lexeme.StandsAs.ne_nil (h : l.StandsAs text rest) : text ≠ [] := by
  cases h with
  | @keyword k hrest => cases k <;> decide
  | identifier hname => intro hnil; rw [hnil] at hname; exact absurd hname (by decide)
  | integer hne => exact hne
  | string hbody => simp
  | punct => simp
  | newline hbreak => cases hbreak <;> simp

theorem Lexeme.StandsAs.cutsNoBreak (h : l.StandsAs text rest) : CutsNoBreak text rest := by
  by_cases hl : l = .newline
  · subst hl
    cases h with
    | newline hbreak => exact hbreak.cutsNoBreak
  · exact cutsNoBreak_of_no_break (h.no_break hl)

/-! ## 2. Segments -/

/-- A lexeme as it is written, with the gap in front of it. -/
structure Segment where
  gap : List Char
  lexeme : Lexeme
  text : List Char

def Segment.chars (s : Segment) : List Char := s.gap ++ s.text

/-- All that some segments are made of. -/
def charsOf (ss : List Segment) : List Char := ss.flatMap Segment.chars

@[simp] theorem charsOf_nil : charsOf [] = [] := rfl

@[simp] theorem charsOf_cons (s : Segment) (ss : List Segment) :
    charsOf (s :: ss) = s.gap ++ (s.text ++ charsOf ss) := by
  simp [charsOf, Segment.chars]

/-- The segments stand one behind the other, and `rest` behind the last. -/
def Segmented (rules : Rules) : List Segment → List Char → Prop
  | [], _ => True
  | s :: ss, rest =>
    IsGap rules s.gap (s.text ++ (charsOf ss ++ rest)) ∧
      s.lexeme.StandsAs s.text (charsOf ss ++ rest) ∧ Segmented rules ss rest

/-- A whole text cut into segments and a last gap. -/
structure Segmentation (rules : Rules) (cs : List Char) where
  segments : List Segment
  last : List Char
  chars : charsOf segments ++ last = cs
  segmented : Segmented rules segments last
  gap : IsGap rules last []

theorem charsOf_append (ss ss' : List Segment) :
    charsOf (ss ++ ss') = charsOf ss ++ charsOf ss' := List.flatMap_append

theorem segmented_append {ss ss' : List Segment} :
    Segmented rules (ss ++ ss') rest ↔
      Segmented rules ss (charsOf ss' ++ rest) ∧ Segmented rules ss' rest := by
  induction ss with
  | nil => simp [Segmented]
  | cons s ss ih =>
    simp only [List.cons_append, Segmented, ih, charsOf_append, List.append_assoc, and_assoc]

theorem Lexeme.StandsAs.chars_cutsNoBreak {s : Segment} (h : s.lexeme.StandsAs s.text rest) :
    CutsNoBreak s.chars rest := by
  intro hlast
  rw [Segment.chars, List.getLast?_append_of_ne_nil _ h.ne_nil] at hlast
  exact h.cutsNoBreak hlast

/-- The place behind a segment, and the place behind some more of the text. -/
theorem Lexeme.StandsAs.past_append {s : Segment} {more : List Char}
    (h : s.lexeme.StandsAs s.text (more ++ rest)) (pos : Position) :
    pos.past (s.chars ++ more) = (pos.past s.chars).past more :=
  Position.past_append _ _ _ h.chars_cutsNoBreak.of_append

/-- The tokens of segments that start at a given place. -/
def tokensFrom (pos : Position) : List Segment → List Token
  | [] => []
  | s :: ss => ⟨s.lexeme, pos.past s.gap⟩ :: tokensFrom (pos.past s.chars) ss

/-! ## 3. The scanner goes along -/

theorem IsFiller.scanFrom (h : IsFiller rules text rest) (pos : Position) :
    scanFrom rules pos (text ++ rest) = scanFrom rules (pos.past text) rest := by
  obtain ⟨c, cs, htext⟩ :=
    List.exists_cons_of_ne_nil (List.append_ne_nil_of_left_ne_nil h.ne_nil rest)
  rw [htext, scanFrom_gap (h.munch htext)]

theorem Lexeme.StandsAs.scanFrom (h : l.StandsAs text rest) (pos : Position) :
    scanFrom rules pos (text ++ rest) =
      .token ⟨l, pos⟩ (scanFrom rules (pos.past text) rest) := by
  obtain ⟨c, cs, htext⟩ :=
    List.exists_cons_of_ne_nil (List.append_ne_nil_of_left_ne_nil h.ne_nil rest)
  rw [htext, scanFrom_lexeme (h.munch htext)]

/-- **A gap is passed whole.** -/
theorem IsGap.scanFrom (h : IsGap rules gap rest) (pos : Position) :
    scanFrom rules pos (gap ++ rest) = scanFrom rules (pos.past gap) rest := by
  induction h generalizing pos with
  | nil => rfl
  | @cons text gap rest hfirst hgap ih =>
    rw [List.append_assoc, hfirst.scanFrom, ih,
      Position.past_append _ _ _ hfirst.cutsNoBreak.of_append]

/-- **Segments are found one after the other**, whatever is behind them. -/
theorem Segmented.scanFrom {ss : List Segment} (h : Segmented rules ss rest) (pos : Position) :
    scanFrom rules pos (charsOf ss ++ rest) =
      .prepend (tokensFrom pos ss) (scanFrom rules (pos.past (charsOf ss)) rest) := by
  induction ss generalizing pos with
  | nil => rfl
  | cons s ss ih =>
    obtain ⟨hgap, hlexeme, hss⟩ := h
    have hplace : (pos.past s.gap).past s.text = pos.past s.chars :=
      (Position.past_append _ _ _ hgap.cutsNoBreak.of_append).symm
    have hbehind : (pos.past s.chars).past (charsOf ss) = pos.past (charsOf (s :: ss)) := by
      rw [← hlexeme.past_append]
      rfl
    rw [charsOf_cons, List.append_assoc, List.append_assoc, hgap.scanFrom, hlexeme.scanFrom,
      ih hss, hplace, ← charsOf_cons, hbehind]
    rfl

/-! ## 4. The scanner's own cut -/

/-- **Every text starts with segments and a gap**, and behind them is its end or a fault. -/
theorem exists_segmented (rules : Rules) (cs : List Char) :
    ∃ ss gap rest, charsOf ss ++ (gap ++ rest) = cs ∧ Segmented rules ss (gap ++ rest) ∧
      IsGap rules gap rest ∧
      ∀ c cs', rest = c :: cs' → ∃ cause, munch rules c cs' = .fault cause := by
  -- the cut is the one that the scanner makes, wherever it starts
  obtain ⟨pos⟩ : Nonempty Position := ⟨.start⟩
  fun_induction scanFrom rules pos cs with
  | case1 pos => exact ⟨[], [], [], rfl, trivial, .nil, by simp⟩
  | case2 pos c cs text rest h ih =>
    obtain ⟨ss, gap, behind, rfl, hss, hgap, hend⟩ := ih
    obtain ⟨htext, hfiller⟩ := munch_eq_gap_iff.mp h
    cases ss with
    | nil =>
      exact ⟨[], text ++ gap, behind, by simpa using htext, trivial, .cons hfiller hgap, hend⟩
    | cons s ss =>
      obtain ⟨hfirst, hlexeme, hss⟩ := hss
      refine ⟨⟨text ++ s.gap, s.lexeme, s.text⟩ :: ss, gap, behind, by simpa using htext,
        ⟨.cons ?_ hfirst, hlexeme, hss⟩, hgap, hend⟩
      simpa using hfiller
  | case3 pos c cs l text rest h ih =>
    obtain ⟨ss, gap, behind, rfl, hss, hgap, hend⟩ := ih
    obtain ⟨htext, hlexeme⟩ := munch_eq_lexeme_iff.mp h
    exact ⟨⟨[], l, text⟩ :: ss, gap, behind, by simpa using htext, ⟨.nil, hlexeme, hss⟩, hgap,
      hend⟩
  | case4 pos c cs cause h =>
    refine ⟨[], [], c :: cs, rfl, trivial, .nil, fun c' cs' heq => ?_⟩
    obtain ⟨rfl, rfl⟩ := List.cons.inj heq
    exact ⟨cause, h⟩

/-- The segments are those of all tokens of a text, and `behind` is what no token is made of: the
last gap, and what is at fault. -/
structure AreTokens (rules : Rules) (cs : List Char) (ss : List Segment) (behind : List Char) :
    Prop where
  chars : charsOf ss ++ behind = cs
  segmented : Segmented rules ss behind
  tokens : ∀ pos, (scanFrom rules pos cs).toList = tokensFrom pos ss

theorem exists_areTokens (rules : Rules) (cs : List Char) :
    ∃ ss behind, AreTokens rules cs ss behind := by
  obtain ⟨ss, gap, rest, hchars, hss, hgap, hend⟩ := exists_segmented rules cs
  refine ⟨ss, gap ++ rest, hchars, hss, fun pos => ?_⟩
  have hnone : ∀ p : Position, (scanFrom rules p rest).toList = [] := by
    intro p
    cases rest with
    | nil => rw [scanFrom_nil]; rfl
    | cons c cs =>
      obtain ⟨cause, hfault⟩ := hend c cs rfl
      rw [scanFrom_fault hfault]
      rfl
  rw [← hchars, hss.scanFrom, TokenStream.toList_prepend, hgap.scanFrom, hnone, List.append_nil]

/-! ## 5. What is behind segments may change -/

/-- Behind something, what is further on may change. -/
theorem head?_append_congr {front : List Char} (hfront : front ≠ []) (rest rest' : List Char) :
    (front ++ rest').head? = (front ++ rest).head? := by
  rw [List.head?_append_of_ne_nil _ hfront, List.head?_append_of_ne_nil _ hfront]

theorem IsGap.congr (h : IsGap rules gap rest) (hrest : rest'.head? = rest.head?) :
    IsGap rules gap rest' := by
  induction h with
  | nil => exact .nil
  | @cons text gap rest hfirst hgap ih =>
    refine .cons (hfirst.congr ?_) (ih hrest)
    by_cases hnil : gap = []
    · rwa [hnil]
    · exact head?_append_congr hnil rest rest'

/-- **Segments stay what they are** where the last lexeme does. -/
theorem Segmented.behind {ss : List Segment} (h : Segmented rules ss rest)
    (hlast : ∀ l text, Lexeme.StandsAs l text rest → l.StandsAs text rest') :
    Segmented rules ss rest' := by
  induction ss with
  | nil => trivial
  | cons s ss ih =>
    obtain ⟨hgap, hlexeme, hss⟩ := h
    refine ⟨hgap.congr ?_, ?_, ih hss⟩
    · exact head?_append_congr hlexeme.ne_nil _ _
    · by_cases hnil : charsOf ss = []
      · rw [hnil] at hlexeme ⊢
        exact hlast _ _ hlexeme
      · exact hlexeme.congr (head?_append_congr hnil rest rest')

theorem Segmented.congr {ss : List Segment} (h : Segmented rules ss rest)
    (hrest : rest'.head? = rest.head?) : Segmented rules ss rest' :=
  h.behind fun _ _ hlexeme => hlexeme.congr hrest

/-- A gap is one at the end of the text too, unless a line break was behind it. -/
theorem IsGap.atEnd (h : IsGap rules gap rest) (hrest : ∀ b ∈ rest.head?, ¬isLineBreak b) :
    IsGap rules gap [] := by
  induction h with
  | nil => exact .nil
  | @cons text gap rest hfirst hgap ih =>
    refine .cons ?_ (ih hrest)
    by_cases hnil : gap = []
    · subst hnil
      cases hfirst with
      | blank hc => exact .blank hc
      | comment _ _ hbreak =>
        obtain ⟨b, hb, hbreak⟩ := hbreak
        exact absurd hbreak (hrest b hb)
      | line htakes hbody hending =>
        refine .line htakes hbody ?_
        cases hending with
        | returnFeed => exact .returnFeed
        | feed => exact .feed
        | lone _ => exact .lone (by simp)
      | lastLine htakes hbody => exact .lastLine htakes hbody
    · exact hfirst.congr (head?_append_congr hnil rest [])

/-- Segments are segments too where the text ends behind the gap that follows them. -/
theorem Segmented.of_append {ss : List Segment} (h : Segmented rules ss (gap ++ rest)) :
    Segmented rules ss gap := by
  by_cases hnil : gap = []
  · exact hnil ▸ h.behind fun _ _ hlexeme => hlexeme.atEnd
  · refine h.congr ?_
    rw [List.head?_append_of_ne_nil _ hnil]

/-! ## 6. A text is cut in one way -/

/-- No filler stands at the front. -/
def StartsNoGap (rules : Rules) (cs : List Char) : Prop :=
  ∀ text rest, text ++ rest = cs → ¬IsFiller rules text rest

theorem startsNoGap_nil : StartsNoGap rules [] :=
  fun _ _ htext hfiller => hfiller.ne_nil (List.append_eq_nil_iff.mp htext).1

theorem Lexeme.StandsAs.startsNoGap (h : l.StandsAs text rest) :
    StartsNoGap rules (text ++ rest) := by
  intro text' rest' htext hfiller
  obtain ⟨c, cs, hcons⟩ :=
    List.exists_cons_of_ne_nil (List.append_ne_nil_of_left_ne_nil h.ne_nil rest)
  have hgap := hfiller.munch (htext.trans hcons)
  exact absurd (hgap.symm.trans (h.munch hcons)) (by simp)

theorem IsFiller.unique {text' rest' : List Char} (h : IsFiller rules text rest)
    (h' : IsFiller rules text' rest') (heq : text ++ rest = text' ++ rest') :
    text = text' ∧ rest = rest' := by
  obtain ⟨c, cs, hcons⟩ :=
    List.exists_cons_of_ne_nil (List.append_ne_nil_of_left_ne_nil h.ne_nil rest)
  exact Munch.gap.inj ((h.munch hcons).symm.trans (h'.munch (heq.symm.trans hcons)))

theorem Lexeme.StandsAs.unique {l' : Lexeme} {text' rest' : List Char} (h : l.StandsAs text rest)
    (h' : l'.StandsAs text' rest') (heq : text ++ rest = text' ++ rest') :
    l = l' ∧ text = text' ∧ rest = rest' := by
  obtain ⟨c, cs, hcons⟩ :=
    List.exists_cons_of_ne_nil (List.append_ne_nil_of_left_ne_nil h.ne_nil rest)
  exact Munch.lexeme.inj ((@Lexeme.StandsAs.munch Dialect.strict.rules _ _ _ _ _ h hcons).symm.trans
    (h'.munch (heq.symm.trans hcons)))

/-- A gap ends where no filler stands. -/
theorem IsGap.unique {gap' : List Char} (h : IsGap rules gap rest) (h' : IsGap rules gap' rest')
    (hrest : StartsNoGap rules rest) (hrest' : StartsNoGap rules rest')
    (heq : gap ++ rest = gap' ++ rest') : gap = gap' ∧ rest = rest' := by
  induction h generalizing gap' with
  | nil =>
    cases h' with
    | nil => exact ⟨rfl, heq⟩
    | cons hfirst _ => exact absurd hfirst (hrest _ _ (by rw [← List.append_assoc]; exact heq.symm))
  | @cons text gap rest hfirst hgap ih =>
    cases h' with
    | nil => exact absurd hfirst (hrest' _ _ (by rw [← List.append_assoc]; exact heq))
    | @cons text' gap' _ hfirst' hgap' =>
      rw [List.append_assoc, List.append_assoc] at heq
      obtain ⟨rfl, hbehind⟩ := hfirst.unique hfirst' heq
      obtain ⟨rfl, rfl⟩ := ih hgap' hrest hbehind
      exact ⟨rfl, rfl⟩

/-- Segments with a last gap behind them are the only ones that a text is made of. -/
theorem Segmented.unique {ss ss' : List Segment} (h : Segmented rules ss gap)
    (h' : Segmented rules ss' rest) (hgap : IsGap rules gap []) (hrest : IsGap rules rest [])
    (heq : charsOf ss ++ gap = charsOf ss' ++ rest) : ss = ss' ∧ gap = rest := by
  have hlast : ∀ {last gap text more : List Char} {l : Lexeme}, IsGap rules last [] →
      IsGap rules gap (text ++ more) → l.StandsAs text more → last ≠ gap ++ (text ++ more) := by
    intro last gap text more l hlast hgap hlexeme heq
    obtain ⟨-, hnil⟩ := hlast.unique hgap startsNoGap_nil hlexeme.startsNoGap (by simpa using heq)
    exact hlexeme.ne_nil (List.append_eq_nil_iff.mp hnil.symm).1
  induction ss generalizing ss' with
  | nil =>
    cases ss' with
    | nil => exact ⟨rfl, heq⟩
    | cons s' ss' => exact absurd (by simpa using heq) (hlast hgap h'.1 h'.2.1)
  | cons s ss ih =>
    cases ss' with
    | nil => exact absurd (by simpa using heq.symm) (hlast hrest h.1 h.2.1)
    | cons s' ss' =>
      obtain ⟨hg, hl, hss⟩ := h
      obtain ⟨hg', hl', hss'⟩ := h'
      simp only [charsOf_cons, List.append_assoc] at heq
      obtain ⟨hgaps, htexts⟩ := hg.unique hg' hl.startsNoGap hl'.startsNoGap heq
      obtain ⟨hlexemes, htext, hbehind⟩ := hl.unique hl' htexts
      obtain ⟨rfl, rfl⟩ := ih hss hss' hbehind
      refine ⟨?_, rfl⟩
      cases s
      cases s'
      simp_all

/-! ## 7. Faults -/

/-- A comment without a break is a fault of a dialect that leaves the break where it is. -/
theorem munchComment_eq_fault_iff {cs : List Char} {cause : LexicalCause} :
    munchComment rules cs = .fault cause ↔ rules.commentTakesLineBreak = false ∧
      cs.dropWhile (!isLineBreak ·) = [] ∧ cause = .unterminatedComment := by
  cases hdrop : cs.dropWhile (!isLineBreak ·) with
  | nil =>
    cases hrules : rules.commentTakesLineBreak <;> simp [munchComment, hdrop, hrules, eq_comm]
  | cons b bs =>
    rw [munchComment_of_break hdrop]
    split <;> simp

/-- A string without a closing quote is a fault. -/
theorem munchString_eq_fault_iff {cs : List Char} {cause : LexicalCause} :
    munchString cs = .fault cause ↔
      (∀ rest, cs.dropWhile isStringPart ≠ '"' :: rest) ∧ cause = .unterminatedString := by
  unfold munchString
  split
  · next rest hdrop => simp [hdrop]
  · next hno => exact ⟨fun h => ⟨hno, (Munch.fault.inj h).symm⟩, fun h => by rw [h.2]⟩

/-- A character that no filler and no lexeme starts with, unless it is a slash with another one
behind it. -/
def isOdd (c : Char) : Bool :=
  !(isBlank c || isLineBreak c || (Punct.ofChar? c).isSome || c == '"' || c.isDigit ||
    isNameStart c)

/-- What a fault is about stands at the front: an odd character, a string that its line does not
close, or a comment that its line break is missing from. -/
inductive LexicalCause.StandsAt (rules : Rules) : LexicalCause → List Char → Prop
  | character {c : Char} {behind : List Char} (hodd : isOdd c)
      (hcomment : ¬(c = '/' ∧ behind.head? = some '/')) :
      StandsAt rules (unexpectedCharacter c) (c :: behind)
  | string {body behind : List Char} (hbody : ∀ c ∈ body, isStringPart c)
      (hbehind : ∀ b ∈ behind.head?, isLineBreak b) :
      StandsAt rules unterminatedString ('"' :: (body ++ behind))
  | comment {body : List Char} (hkeeps : rules.commentTakesLineBreak = false)
      (hbody : ∀ c ∈ body, isLineBreak c = false) :
      StandsAt rules unterminatedComment ('/' :: '/' :: body)

theorem LexicalCause.StandsAt.munch {c : Char} {cs : List Char} {cause : LexicalCause}
    (h : cause.StandsAt rules (c :: cs)) : SchemaLang.munch rules c cs = .fault cause := by
  generalize hwhole : c :: cs = whole at h
  cases h with
  | @character d behind hodd hcomment =>
    obtain ⟨rfl, rfl⟩ := List.cons.inj hwhole
    have hslash : (c == '/' && cs.head? == some '/') = false := by simpa using hcomment
    simp only [isOdd, Bool.not_eq_true', Bool.or_eq_false_iff] at hodd
    obtain ⟨⟨⟨⟨⟨hblank, hbreak⟩, hmark⟩, hquote⟩, hdigit⟩, hname⟩ := hodd
    have hmark : Punct.ofChar? c = none := by simpa using hmark
    simp only [SchemaLang.munch, hslash, hblank, hbreak, hmark, hquote, hdigit, hname,
      Bool.false_eq_true, if_false]
  | @string body behind hbody hbehind =>
    obtain ⟨rfl, rfl⟩ := List.cons.inj hwhole
    have hstop : ∀ b ∈ behind.head?, isStringPart b = false := by
      intro b hb
      simp [isStringPart, hbehind b hb]
    obtain ⟨-, hdrop⟩ := takeWhile_run hbody hstop
    refine munchString_eq_fault_iff.mpr ⟨?_, rfl⟩
    rintro rest hquote
    rw [hdrop] at hquote
    exact absurd (hbehind '"' (by rw [hquote]; rfl)) (by decide)
  | @comment body hkeeps hbody =>
    obtain ⟨rfl, rfl⟩ := List.cons.inj hwhole
    obtain ⟨-, hdrop⟩ := @munchComment_run body [] hbody (by simp)
    rw [List.append_nil] at hdrop
    exact (munch_comment ⟨rfl, rfl⟩).trans (munchComment_eq_fault_iff.mpr ⟨hkeeps, hdrop, rfl⟩)

theorem standsAt_of_munchComment {cs : List Char} {cause : LexicalCause}
    (hslash : cs.head? = some '/') (h : munchComment rules cs = .fault cause) :
    cause.StandsAt rules ('/' :: cs) := by
  obtain ⟨hkeeps, hdrop, rfl⟩ := munchComment_eq_fault_iff.mp h
  obtain ⟨body, rfl⟩ := List.head?_eq_some_iff.mp hslash
  have hwhole := List.takeWhile_append_dropWhile (p := (!isLineBreak ·)) (l := '/' :: body)
  rw [hdrop, List.append_nil] at hwhole
  refine .comment hkeeps ?_
  intro d hd
  have hmem : d ∈ ('/' :: body).takeWhile (!isLineBreak ·) := by
    rw [hwhole]
    exact List.mem_cons_of_mem _ hd
  simpa using List.all_eq_true.mp List.all_takeWhile d hmem

theorem standsAt_of_munchString {cs : List Char} {cause : LexicalCause}
    (h : munchString cs = .fault cause) : cause.StandsAt rules ('"' :: cs) := by
  obtain ⟨hopen, rfl⟩ := munchString_eq_fault_iff.mp h
  rw [← List.takeWhile_append_dropWhile (p := isStringPart) (l := cs)]
  refine .string (List.all_eq_true.mp List.all_takeWhile) ?_
  intro b hb
  obtain ⟨bs, hbs⟩ := List.head?_eq_some_iff.mp hb
  have hpart := head?_dropWhile_eq_false b hb
  have hne : b ≠ '"' := fun hquote => hopen bs (hquote ▸ hbs)
  simpa [isStringPart, hne] using hpart

/-- **A fault is found exactly where one stands.** -/
theorem munch_eq_fault_iff {c : Char} {cs : List Char} {cause : LexicalCause} :
    munch rules c cs = .fault cause ↔ cause.StandsAt rules (c :: cs) := by
  refine ⟨fun h => ?_, LexicalCause.StandsAt.munch⟩
  by_cases hcomment : c = '/' ∧ cs.head? = some '/'
  · rw [munch_comment hcomment] at h
    obtain ⟨rfl, hslash⟩ := hcomment
    exact standsAt_of_munchComment hslash h
  have hslash : (c == '/' && cs.head? == some '/') = false := by simpa using hcomment
  simp only [munch, hslash, Bool.false_eq_true, if_false] at h
  split at h
  · exact absurd h (by simp)
  next hblank =>
  split at h
  · exact absurd h (by simp)
  next hbreak =>
  split at h
  · exact absurd h (by simp)
  next hmark =>
  split at h
  · next hquote =>
    obtain rfl : c = '"' := by simpa using hquote
    exact standsAt_of_munchString h
  next hquote =>
  split at h
  · exact absurd h (by simp)
  next hdigit =>
  split at h
  · exact absurd h (by simp)
  next hname =>
  obtain rfl := Munch.fault.inj h
  exact .character (by simp [isOdd, hblank, hbreak, hmark, hquote, hdigit, hname]) hcomment

/-- **A fault stays one** where some of the text behind it is taken away. -/
theorem fault_of_prefix {c : Char} {cs cs' : List Char} {cause : LexicalCause}
    (h : munch rules c cs = .fault cause) (hstart : cs' <+: cs) :
    ∃ cause', munch rules c cs' = .fault cause' := by
  simp only [munch_eq_fault_iff] at h ⊢
  obtain ⟨more, rfl⟩ := hstart
  generalize hwhole : c :: (cs' ++ more) = whole at h
  cases h with
  | @character d behind hodd hcomment =>
    obtain ⟨rfl, rfl⟩ := List.cons.inj hwhole
    refine ⟨_, .character hodd fun hslash => hcomment ⟨hslash.1, ?_⟩⟩
    rw [List.head?_append, hslash.2]
    rfl
  | @string body behind hbody hbehind =>
    obtain ⟨rfl, hsplit⟩ := List.cons.inj hwhole
    rcases List.append_eq_append_iff.mp hsplit with ⟨body', rfl, -⟩ | ⟨behind', rfl, rfl⟩
    · -- what is left ends inside the string
      have hbody' : ∀ d ∈ cs', isStringPart d := fun d hd => hbody d (List.mem_append_left _ hd)
      have hopen := @LexicalCause.StandsAt.string rules cs' [] hbody' (by simp)
      rw [List.append_nil] at hopen
      exact ⟨_, hopen⟩
    · refine ⟨_, .string hbody fun b hb => hbehind b ?_⟩
      rw [List.head?_append, hb]
      rfl
  | @comment body hkeeps hbody =>
    obtain ⟨rfl, hsplit⟩ := List.cons.inj hwhole
    cases cs' with
    | nil => exact ⟨_, .character (by decide) (by simp)⟩
    | cons d ds =>
      obtain ⟨rfl, rfl⟩ := List.cons.inj hsplit
      exact ⟨_, .comment hkeeps fun d hd => hbody d (List.mem_append_left _ hd)⟩

/-! ## 8. The scanner cuts texts as they can be cut -/

/-- What a text stands for: a string without its quotes, a line break as a line feed. -/
def spoken : List Char → List Char
  | [] => []
  | '"' :: cs => cs.dropLast
  | c :: cs => if isLineBreak c then ['\n'] else c :: cs

theorem spoken_of_isNamePart {cs : List Char} (h : ∀ c ∈ cs.head?, isNamePart c) :
    spoken cs = cs := by
  cases cs with
  | nil => rfl
  | cons c cs =>
    have hc : isNamePart c := h c rfl
    have hquote : c ≠ '"' := ne_of_isNamePart hc (by decide)
    have hbreak : isLineBreak c = false := not_isLineBreak_of_isNamePart hc
    rw [spoken, if_neg (by simp [hbreak])]
    exact hquote

/-- The value of a lexeme is what its text stands for. -/
theorem Lexeme.StandsAs.toList_text (h : l.StandsAs text rest) : l.text.toList = spoken text := by
  have hname : ∀ {cs : List Char}, isName cs → spoken cs = cs := by
    intro cs hcs
    refine spoken_of_isNamePart fun c hc => ?_
    obtain ⟨ds, rfl⟩ := List.head?_eq_some_iff.mp hc
    exact isNamePart_of_isNameStart (Bool.and_eq_true_iff.mp hcs).1
  cases h with
  | @keyword k hrest => exact (hname k.isName_text).symm
  | identifier h => exact (hname h).symm
  | integer _ hdigits =>
    refine (spoken_of_isNamePart fun c hc => ?_).symm
    exact isNamePart_of_isDigit (hdigits c (List.mem_of_mem_head? hc))
  | string hbody => simp [spoken, Lexeme.text]
  | @punct p => cases p <;> rfl
  | newline hbreak => cases hbreak <;> rfl

/-- A text that is cut is scanned to its end. -/
theorem Segmentation.scanFrom {cs : List Char} (g : Segmentation rules cs) (pos : Position) :
    scanFrom rules pos cs = .ofTokens (tokensFrom pos g.segments)
      ((pos.past (charsOf g.segments)).past g.last) := by
  have hlast := g.gap.scanFrom (pos.past (charsOf g.segments))
  rw [List.append_nil, scanFrom_nil] at hlast
  conv_lhs => rw [← g.chars]
  rw [g.segmented.scanFrom, hlast]
  rfl

theorem TokenStream.sightings_ofTokens (ts : List Token) (stop : Position) :
    (ofTokens ts stop).sightings =
      .ok (ts.map (fun t => ⟨some t.lexeme, t.pos⟩) ++ [⟨none, stop⟩]) := by
  induction ts with
  | nil => rfl
  | cons t ts ih =>
    have hcons : ofTokens (t :: ts) stop = token t (ofTokens ts stop) := rfl
    rw [hcons, sightings, ih]
    rfl

theorem lexemesOf_tokensFrom (pos : Position) (ss : List Segment) :
    Grammar.lexemesOf (tokensFrom pos ss) = ss.map Segment.lexeme := by
  induction ss generalizing pos with
  | nil => rfl
  | cons s ss ih => exact congrArg (s.lexeme :: ·) (ih _)

theorem Segmented.exists_standsAs {ss : List Segment} (h : Segmented rules ss rest) :
    ∀ s ∈ ss, ∃ behind, s.lexeme.StandsAs s.text behind := by
  induction ss with
  | nil => simp
  | cons s ss ih => exact List.forall_mem_cons.mpr ⟨⟨_, h.2.1⟩, ih h.2.2⟩

/-- A line break is no fault. -/
theorem not_isLineBreak_of_fault {c : Char} {cs : List Char} {cause : LexicalCause}
    (h : munch rules c cs = .fault cause) : ¬isLineBreak c := by
  intro hbreak
  rw [munch_lineBreak hbreak] at h
  exact absurd h (by simp)

/-- Segments and a gap are passed, and then the fault behind them is met. -/
theorem Segmented.scanFrom_fault {ss : List Segment} {c : Char} {cs : List Char}
    {cause : LexicalCause} (h : Segmented rules ss (gap ++ c :: cs))
    (hgap : IsGap rules gap (c :: cs)) (hfault : munch rules c cs = .fault cause)
    (pos : Position) : ∃ e, SchemaLang.scanFrom rules pos (charsOf ss ++ (gap ++ c :: cs)) =
      .prepend (tokensFrom pos ss) (.fault e) := by
  rw [h.scanFrom, hgap.scanFrom, SchemaLang.scanFrom_fault hfault]
  exact ⟨_, rfl⟩

/-- A beginning that goes on with the character at fault cannot be cut. -/
theorem Segmented.not_segmentation {ss : List Segment} {c : Char} {cs ds : List Char}
    {cause : LexicalCause} (h : Segmented rules ss (gap ++ c :: cs))
    (hgap : IsGap rules gap (c :: cs)) (hfault : munch rules c cs = .fault cause)
    (hds : ds <+: cs) : ¬Nonempty (Segmentation rules (charsOf ss ++ (gap ++ c :: ds))) := by
  rintro ⟨g⟩
  obtain ⟨cause', hfault'⟩ := fault_of_prefix hfault hds
  have hss : Segmented rules ss (gap ++ c :: ds) :=
    h.congr (by rw [List.head?_append, List.head?_append]; rfl)
  obtain ⟨e, hscan⟩ := hss.scanFrom_fault (hgap.congr rfl) hfault' .start
  rw [g.scanFrom] at hscan
  have herror := congrArg TokenStream.error? hscan
  simp [TokenStream.error?] at herror

/-- **Every text has a longest beginning that can be cut**, and the scanner finds the tokens of that
beginning.  It finds no fault where that is the whole text. -/
theorem exists_longest (rules : Rules) (cs : List Char) (pos : Position) :
    ∃ front, front <+: cs ∧ Nonempty (Segmentation rules front) ∧
      (∀ front', front' <+: cs → Nonempty (Segmentation rules front') →
        front'.length ≤ front.length) ∧
      (scanFrom rules pos front).toList = (scanFrom rules pos cs).toList ∧
      ((scanFrom rules pos cs).error? = none ↔ front = cs) := by
  obtain ⟨ss, gap, rest, rfl, hss, hgap, hend⟩ := exists_segmented rules cs
  cases rest with
  | nil =>
    rw [List.append_nil] at hss ⊢
    have g : Segmentation rules (charsOf ss ++ gap) := ⟨ss, gap, rfl, hss, hgap⟩
    refine ⟨_, List.prefix_refl _, ⟨g⟩, fun _ h _ => h.length_le, rfl, fun _ => rfl, fun _ => ?_⟩
    rw [g.scanFrom, TokenStream.error?_ofTokens]
  | cons c cs =>
    obtain ⟨cause, hfault⟩ := hend c cs rfl
    have hfree : ∀ b ∈ (c :: cs).head?, ¬isLineBreak b := by
      simpa using not_isLineBreak_of_fault hfault
    let g : Segmentation rules (charsOf ss ++ gap) :=
      ⟨ss, gap, rfl, hss.of_append, hgap.atEnd hfree⟩
    obtain ⟨e, hscan⟩ := hss.scanFrom_fault hgap hfault pos
    have hfront : charsOf ss ++ gap <+: charsOf ss ++ (gap ++ c :: cs) :=
      ⟨c :: cs, by rw [List.append_assoc]⟩
    refine ⟨_, hfront, ⟨g⟩, fun front' hstart hcut => ?_, ?_, fun hnone => ?_, fun hwhole => ?_⟩
    · by_contra hlonger
      -- a longer beginning goes on with the character at fault
      obtain ⟨more, rfl⟩ :=
        List.prefix_of_prefix_length_le hfront hstart (Nat.le_of_not_le hlonger)
      rw [List.append_assoc] at hstart hcut
      rw [List.prefix_append_right_inj, List.prefix_append_right_inj] at hstart
      cases more with
      | nil => exact hlonger (by simp)
      | cons d ds =>
        obtain ⟨rfl, hds⟩ := List.cons_prefix_cons.mp hstart
        exact hss.not_segmentation hgap hfault hds hcut
    · rw [g.scanFrom, hscan, TokenStream.toList_ofTokens, TokenStream.toList_prepend]
      exact (List.append_nil _).symm
    · rw [hscan, TokenStream.error?_prepend] at hnone
      exact absurd hnone (by simp [TokenStream.error?])
    · exact absurd (congrArg List.length hwhole) (by simp)

/-- **A text is scanned as it can be cut.**  The scanner finds no fault with a text exactly where it
can be cut into gaps and lexemes.  There is only one way to cut it, and the tokens are its lexemes,
one each and in order, with the end behind them and with what they stand for as their values.  In
front of a fault are the tokens of the longest beginning of the text that can be cut. -/
theorem scan_eq_segmentation (d : Dialect) (source : String) :
    ((scan d.rules source).error? = none ↔ Nonempty (Segmentation d.rules source.toList)) ∧
      (∀ g g' : Segmentation d.rules source.toList, g = g') ∧
      (∀ g : Segmentation d.rules source.toList,
        ∃ l, (scan d.rules source).sightings = .ok l ∧
          l.map Sighting.lexeme = g.segments.map (fun s => some s.lexeme) ++ [none] ∧
          ∀ s ∈ g.segments, s.lexeme.text.toList = spoken s.text) ∧
      ∃ front : String, front.toList <+: source.toList ∧
        Nonempty (Segmentation d.rules front.toList) ∧
        (∀ front', front' <+: source.toList → Nonempty (Segmentation d.rules front') →
          front'.length ≤ front.toList.length) ∧
        (scan d.rules front).toList = (scan d.rules source).toList := by
  obtain ⟨front, hstart, hcut, hlongest, htokens, hend⟩ :=
    exists_longest d.rules source.toList .start
  refine ⟨⟨fun hnone => ?_, fun ⟨g⟩ => ?_⟩, fun g g' => ?_, fun g => ?_, ?_⟩
  · exact hend.mp hnone ▸ hcut
  · rw [scan, g.scanFrom, TokenStream.error?_ofTokens]
  · obtain ⟨ss, last, hchars, hss, hgap⟩ := g
    obtain ⟨ss', last', hchars', hss', hgap'⟩ := g'
    obtain ⟨rfl, rfl⟩ := hss.unique hss' hgap hgap' (hchars.trans hchars'.symm)
    rfl
  · refine ⟨_, by rw [scan, g.scanFrom, TokenStream.sightings_ofTokens], ?_, fun s hs => ?_⟩
    · have hlexemes := congrArg (List.map some) (lexemesOf_tokensFrom .start g.segments)
      simpa [Grammar.lexemesOf, Function.comp_def] using hlexemes
    · obtain ⟨behind, hstands⟩ := g.segmented.exists_standsAs s hs
      exact hstands.toList_text
  · refine ⟨String.ofList front, ?_⟩
    rw [scan, String.toList_ofList]
    exact ⟨hstart, hcut, hlongest, htokens⟩

/-- A comment with a quote in it at the end of a text: the legacy dialect cuts the text whole, and
the strict one in front of the comment. -/
theorem segmentation_comment :
    Nonempty (Segmentation Dialect.legacy.rules "a//\"".toList) ∧
      ¬Nonempty (Segmentation Dialect.strict.rules "a//\"".toList) ∧
      ∃ front : String, front.toList <+: "a//\"".toList ∧
        Nonempty (Segmentation Dialect.strict.rules front.toList) ∧
        (scan Dialect.strict.rules front).toList = [⟨.identifier "a", ⟨1, 1⟩⟩] := by
  have hlegacy : scan Dialect.legacy.rules "a//\"" =
      .token ⟨.identifier "a", ⟨1, 1⟩⟩ (.done ⟨1, 5⟩) := by
    rw [scan_eq_scanWithin]
    decide
  have hstrict : scan Dialect.strict.rules "a//\"" =
      .token ⟨.identifier "a", ⟨1, 1⟩⟩ (.fault ⟨.unterminatedComment, ⟨1, 2⟩⟩) := by
    rw [scan_eq_scanWithin]
    decide
  obtain ⟨hcut, -, -, front, hstart, hfront, -, htokens⟩ :=
    scan_eq_segmentation .strict "a//\""
  refine ⟨(scan_eq_segmentation .legacy "a//\"").1.mp (by rw [hlegacy]; rfl), ?_, front, hstart,
    hfront, ?_⟩
  · rw [← hcut, hstrict]
    simp [TokenStream.error?]
  · rw [htokens, hstrict]
    rfl

end SchemaLang
