/-
# Changing a text at a seam

A seam of a text is a place where a token starts or has just ended.  What may be put there without
a token noticing are blanks and comments (`Inserted`): the fillers of the gap at the seam become
more, or the comment that the gap ends in becomes longer (`IsGap.insert`).  The tokens keep their
order and their lexemes, and only their places change (`scanFrom_insert`).

The other change is at the end of a text.  A line feed and another text may be put there: the line
feed is a lexeme, or it belongs to the carriage return in front of it, or to the comment
(`scanFrom_append_feed`).
-/
import SchemaLang.Proofs.Scanner.Segments

namespace SchemaLang

open Text

variable {rules : Rules} {text gap rest ins behind : List Char} {l : Lexeme}

/-! ## 1. Seams -/

/-- A place between the characters of a text where one of its tokens starts, its end included, or
has just ended. -/
inductive Seam (rules : Rules) : List Char → List Char → Prop
  | start {ss : List Segment} {gap text rest : List Char} {l : Lexeme}
      (hss : Segmented rules ss (gap ++ (text ++ rest))) (hgap : IsGap rules gap (text ++ rest))
      (hlexeme : l.StandsAs text rest) : Seam rules (charsOf ss ++ gap) (text ++ rest)
  | atEnd {ss : List Segment} {gap : List Char} (hss : Segmented rules ss gap)
      (hgap : IsGap rules gap []) : Seam rules (charsOf ss ++ gap) []
  | behind {ss : List Segment} {s : Segment} {rest : List Char}
      (hss : Segmented rules (ss ++ [s]) rest) : Seam rules (charsOf (ss ++ [s])) rest

/-- A token of segments is the lexeme of one of them, at the place that its text starts at. -/
theorem Segmented.exists_of_mem {ss : List Segment} {t : Token} {pos : Position}
    (h : Segmented rules ss rest) (ht : t ∈ tokensFrom pos ss) :
    ∃ front s more, ss = front ++ s :: more ∧
      t = ⟨s.lexeme, pos.past (charsOf front ++ s.gap)⟩ := by
  induction ss generalizing pos with
  | nil => exact absurd ht (by simp [tokensFrom])
  | cons s ss ih =>
    obtain ⟨-, hlexeme, hss⟩ := h
    rcases List.mem_cons.mp ht with rfl | ht
    · exact ⟨[], s, ss, rfl, rfl⟩
    · obtain ⟨front, s', more, rfl, rfl⟩ := ih hss ht
      refine ⟨s :: front, s', more, rfl, ?_⟩
      have hplace := @Lexeme.StandsAs.past_append (s'.text ++ (charsOf more ++ rest)) s
        (charsOf front ++ s'.gap) (by simpa [charsOf_append] using hlexeme) pos
      rw [← hplace]
      simp [Segment.chars]

/-- **Every token of a text starts at a seam and ends at one.** -/
theorem exists_seams {cs : List Char} {t : Token} {pos : Position}
    (ht : t ∈ (scanFrom rules pos cs).toList) :
    ∃ before text behind, cs = before ++ (text ++ behind) ∧ t.pos = pos.past before ∧
      t.lexeme.StandsAs text behind ∧ Seam rules before (text ++ behind) ∧
      Seam rules (before ++ text) behind := by
  obtain ⟨ss, rest, rfl, hss, htokens⟩ := exists_areTokens rules cs
  rw [htokens] at ht
  obtain ⟨front, s, more, rfl, rfl⟩ := hss.exists_of_mem ht
  obtain ⟨hfront, hs, hlexeme, hmore⟩ := segmented_append.mp hss
  refine ⟨charsOf front ++ s.gap, s.text, charsOf more ++ rest, ?_, rfl, hlexeme, ?_, ?_⟩
  · simp [charsOf_append]
  · exact .start (by simpa using hfront) hs hlexeme
  · have hbehind : Segmented rules (front ++ [s]) (charsOf more ++ rest) :=
      segmented_append.mpr
        ⟨by simpa using hfront, by simpa using hs, by simpa using hlexeme, trivial⟩
    simpa [charsOf_append] using Seam.behind hbehind

/-- The end of a text that is not at fault is a seam. -/
theorem seam_end {cs : List Char} {pos : Position}
    (hend : (scanFrom rules pos cs).error? = none) : Seam rules cs [] := by
  obtain ⟨front, -, ⟨g⟩, -, -, hwhole⟩ := exists_longest rules cs pos
  obtain rfl := hwhole.mp hend
  obtain ⟨ss, gap, rfl, hss, hgap⟩ := g
  exact .atEnd hss hgap

/-- What may be put at a seam: blanks; where a comment takes its line break along, a comment with a
line feed; and where it does not, a comment in front of a line break. -/
inductive Inserted (rules : Rules) : List Char → List Char → Prop
  | blanks {ins behind : List Char} (hins : ∀ c ∈ ins, isBlank c) : Inserted rules ins behind
  | line {body behind : List Char} (htakes : rules.commentTakesLineBreak = true)
      (hbody : ∀ c ∈ body, isLineBreak c = false) :
      Inserted rules ('/' :: '/' :: (body ++ ['\n'])) behind
  | comment {body behind : List Char} (hkeeps : rules.commentTakesLineBreak = false)
      (hbody : ∀ c ∈ body, isLineBreak c = false) (hbehind : ∃ b ∈ behind.head?, isLineBreak b) :
      Inserted rules ('/' :: '/' :: body) behind

namespace Inserted

theorem isGap (h : Inserted rules ins behind) : IsGap rules ins behind := by
  cases h with
  | blanks hins =>
    induction ins with
    | nil => exact .nil
    | cons c cs ih =>
      obtain ⟨hc, hcs⟩ := List.forall_mem_cons.mp hins
      exact @IsGap.cons _ [c] _ _ (.blank hc) (ih hcs)
  | line htakes hbody => simpa using IsGap.cons (.line htakes hbody .feed) (@IsGap.nil _ behind)
  | comment hkeeps hbody hbehind =>
    simpa using IsGap.cons (.comment hkeeps hbody (by simpa using hbehind)) (@IsGap.nil _ behind)

/-- Where a comment leaves its line break where it is, no line break is put in. -/
theorem isLineBreak_eq_false (h : Inserted rules ins behind)
    (hkeeps : rules.commentTakesLineBreak = false) : ∀ c ∈ ins, isLineBreak c = false := by
  cases h with
  | blanks hins => exact fun c hc => not_isLineBreak_of_isBlank (hins c hc)
  | line htakes => exact absurd (htakes.symm.trans hkeeps) (by simp)
  | comment _ hbody => exact no_break_slashes hbody

/-- What is put in goes on with no lexeme. -/
theorem head_apart (h : Inserted rules ins behind) :
    ∀ c ∈ ins.head?, isNamePart c = false ∧ c ≠ '\n' := by
  intro c hc
  have hfirst : isBlank c ∨ c = '/' := by
    cases h with
    | blanks hins => exact .inl (hins c (List.mem_of_mem_head? hc))
    | line => exact .inr (by simpa using hc.symm)
    | comment => exact .inr (by simpa using hc.symm)
  rcases hfirst with hblank | rfl
  · rcases isBlank_iff.mp hblank with rfl | rfl <;> decide
  · decide

/-- A comment that the end of the text is behind goes on with what is put in. -/
theorem lastLine (h : Inserted rules ins []) {body : List Char}
    (htakes : rules.commentTakesLineBreak = true) (hbody : ∀ c ∈ body, isLineBreak c = false) :
    IsFiller rules ('/' :: '/' :: (body ++ ins)) [] := by
  cases h with
  | blanks hins =>
    have hblanks : ∀ c ∈ ins, isLineBreak c = false :=
      fun c hc => not_isLineBreak_of_isBlank (hins c hc)
    exact .lastLine htakes (List.forall_mem_append.mpr ⟨hbody, hblanks⟩)
  | @line more _ _ hmore =>
    have hwhole : ∀ c ∈ body ++ '/' :: '/' :: more, isLineBreak c = false :=
      List.forall_mem_append.mpr ⟨hbody, no_break_slashes hmore⟩
    simpa using IsFiller.line htakes hwhole (@IsBreak.feed [])
  | comment _ _ hbehind => exact absurd hbehind (by simp)

end Inserted

/-! ## 2. Gaps and segments with more in them -/

/-- **A gap takes in what is put behind it.** -/
theorem IsGap.insert (h : IsGap rules gap behind) (hins : Inserted rules ins behind) :
    IsGap rules (gap ++ ins) behind := by
  induction h with
  | nil => exact hins.isGap
  | @cons text gap behind hfirst hgap ih =>
    rw [List.append_assoc]
    by_cases hnil : gap = []
    · subst hnil
      rw [List.nil_append] at hfirst ⊢
      cases hfirst with
      | blank hc => exact .cons (.blank hc) hins.isGap
      | @comment body _ hkeeps hbody hbreak =>
        -- the comment in front goes on up to the same line break
        have hwhole : ∀ c ∈ body ++ ins, isLineBreak c = false :=
          List.forall_mem_append.mpr ⟨hbody, hins.isLineBreak_eq_false hkeeps⟩
        have hcomment := IsFiller.comment hkeeps hwhole hbreak
        simpa using IsGap.cons (by simpa using hcomment) (@IsGap.nil _ behind)
      | @line body ending _ htakes hbody hending =>
        refine .cons (.line htakes hbody ?_) hins.isGap
        cases hending with
        | returnFeed => exact .returnFeed
        | feed => exact .feed
        | lone hrest =>
          refine .lone ?_
          cases ins with
          | nil => exact hrest
          | cons c cs => exact fun hfeed => (hins.head_apart c rfl).2 (Option.some.inj hfeed)
      | lastLine htakes hbody =>
        simpa using IsGap.cons (by simpa using hins.lastLine htakes hbody) (@IsGap.nil _ [])
    · refine .cons (hfirst.congr ?_) (ih hins)
      rw [List.append_assoc]
      exact head?_append_congr hnil _ _

/-- **Segments stay what they are** where something is put into the gap behind them. -/
theorem Segmented.insert {ss : List Segment} (h : Segmented rules ss (gap ++ behind))
    (hins : Inserted rules ins behind) : Segmented rules ss (gap ++ ins ++ behind) := by
  by_cases hgap : gap = []
  · subst hgap
    rw [List.nil_append] at h ⊢
    cases ins with
    | nil => exact h
    | cons c cs => exact h.behind fun _ _ hlexeme => hlexeme.before hins.head_apart
  · refine h.congr ?_
    rw [List.append_assoc]
    exact head?_append_congr hgap _ _

/-- A seam is behind some segments and a gap. -/
theorem Seam.exists_segmented {before : List Char} (h : Seam rules before behind) :
    ∃ ss gap, before = charsOf ss ++ gap ∧ Segmented rules ss (gap ++ behind) ∧
      IsGap rules gap behind := by
  cases h with
  | start hss hgap hlexeme => exact ⟨_, _, rfl, hss, hgap⟩
  | atEnd hss hgap => exact ⟨_, _, rfl, by rwa [List.append_nil], hgap⟩
  | behind hss => exact ⟨_, [], by rw [List.append_nil], hss, .nil⟩

/-- **What is put at a seam changes nothing but places.** -/
theorem scanFrom_insert {before : List Char} (h : Seam rules before behind)
    (hins : Inserted rules ins behind) (pos : Position) :
    (scanFrom rules pos (before ++ ins ++ behind)).unplaced =
      (scanFrom rules pos (before ++ behind)).unplaced := by
  obtain ⟨ss, gap, rfl, hss, hgap⟩ := h.exists_segmented
  have hold : scanFrom rules pos (charsOf ss ++ gap ++ behind) = .prepend (tokensFrom pos ss)
      (scanFrom rules ((pos.past (charsOf ss)).past gap) behind) := by
    rw [List.append_assoc, hss.scanFrom, hgap.scanFrom]
  have hnew : scanFrom rules pos (charsOf ss ++ gap ++ ins ++ behind) =
      .prepend (tokensFrom pos ss)
        (scanFrom rules ((pos.past (charsOf ss)).past (gap ++ ins)) behind) := by
    rw [List.append_assoc, List.append_assoc, ← List.append_assoc gap, (hss.insert hins).scanFrom,
      (hgap.insert hins).scanFrom]
  rw [hold, hnew]
  exact TokenStream.unplaced_prepend _ (unplaced_scanFrom _ _ _ _)

/-! ## 3. A line feed and another text -/

/-- At the end of a text a line feed is behind a filler, or becomes part of it. -/
theorem IsFiller.append_feed (h : IsFiller rules text []) (more : List Char) :
    IsFiller rules text ('\n' :: more) ∨ IsFiller rules (text ++ ['\n']) more := by
  cases h with
  | blank hc => exact .inl (.blank hc)
  | comment _ _ hbreak => exact absurd hbreak (by simp)
  | @line body ending _ htakes hbody hending =>
    cases hending with
    | returnFeed => exact .inl (.line htakes hbody .returnFeed)
    | feed => exact .inl (.line htakes hbody .feed)
    | lone _ => exact .inr (by simpa using IsFiller.line htakes hbody (@IsBreak.returnFeed more))
  | lastLine htakes hbody => exact .inr (.line htakes hbody .feed)

/-- At the end of a text a line feed is behind a lexeme, or becomes part of a line break. -/
theorem Lexeme.StandsAs.append_feed (h : l.StandsAs text []) (more : List Char) :
    l.StandsAs text ('\n' :: more) ∨ l.StandsAs (text ++ ['\n']) more := by
  have hfeed : ∀ c ∈ ('\n' :: more).head?, isNamePart c = false := by
    intro c hc
    obtain rfl := Option.some.inj hc
    decide
  cases h with
  | keyword _ => exact .inl (.keyword hfeed)
  | identifier hname hfree _ => exact .inl (.identifier hname hfree hfeed)
  | integer hne hdigits _ =>
    refine .inl (.integer hne hdigits fun c hc => ?_)
    obtain rfl := Option.some.inj hc
    decide
  | string hbody => exact .inl (.string hbody)
  | punct => exact .inl .punct
  | newline hbreak =>
    cases hbreak with
    | returnFeed => exact .inl (.newline .returnFeed)
    | feed => exact .inl (.newline .feed)
    | lone _ => exact .inr (.newline .returnFeed)

/-- A stream goes on with another one, whose places do not matter. -/
structure TokenStream.Continues (s : TokenStream) (ls : List Lexeme) (rest : TokenStream) :
    Prop where
  lexemes : s.lexemes = ls ++ rest.lexemes
  error? : s.error? = none ↔ rest.error? = none

theorem TokenStream.Continues.token {s rest : TokenStream} {ls : List Lexeme}
    (h : s.Continues ls rest) (t : Token) : (token t s).Continues (t.lexeme :: ls) rest :=
  ⟨congrArg (t.lexeme :: ·) h.lexemes, h.error?⟩

/-- **Two texts with a line feed between them** are scanned one after the other, where the first one
is not at fault.  The line feed is a lexeme, or it belongs to what the first text ends in. -/
theorem scanFrom_append_feed (pos : Position) (cs more : List Char)
    (hend : (scanFrom rules pos cs).error? = none) :
    ∃ breaks, (breaks = [] ∨ breaks = [.newline]) ∧
      (scanFrom rules pos (cs ++ '\n' :: more)).Continues
        ((scanFrom rules pos cs).lexemes ++ breaks) (scanFrom rules .start more) := by
  have hbehind : ∀ p : Position,
      (scanFrom rules p more).Continues [] (scanFrom rules .start more) := fun p =>
    have hanywhere := scanFrom_anywhere rules p .start more
    ⟨hanywhere.1, hanywhere.2⟩
  have hfeed : ∀ p : Position,
      (scanFrom rules p ('\n' :: more)).Continues [.newline] (scanFrom rules .start more) := by
    intro p
    have hbreak : scanFrom rules p ('\n' :: more) =
        .token ⟨.newline, p⟩ (scanFrom rules (p.past ['\n']) more) :=
      (Lexeme.StandsAs.newline (@IsBreak.feed more)).scanFrom p
    rw [hbreak]
    exact ⟨congrArg (Lexeme.newline :: ·) (hbehind _).lexemes, (hbehind _).error?⟩
  fun_induction scanFrom rules pos cs with
  | case1 pos => exact ⟨[.newline], .inr rfl, hfeed pos⟩
  | case2 pos c cs text rest h ih =>
    obtain ⟨htext, hfiller⟩ := munch_eq_gap_iff.mp h
    rw [← htext]
    by_cases hrest : rest = []
    · subst hrest
      rw [scanFrom_nil, List.append_nil]
      rcases hfiller.append_feed more with hkept | hlonger
      · rw [hkept.scanFrom]
        exact ⟨[.newline], .inr rfl, hfeed _⟩
      · rw [List.append_cons, hlonger.scanFrom]
        exact ⟨[], .inl rfl, hbehind _⟩
    · have hkept : IsFiller rules text (rest ++ '\n' :: more) :=
        hfiller.congr (by rw [List.head?_append_of_ne_nil _ hrest])
      rw [List.append_assoc, hkept.scanFrom]
      exact ih hend
  | case3 pos c cs l text rest h ih =>
    obtain ⟨htext, hlexeme⟩ := munch_eq_lexeme_iff.mp h
    rw [← htext]
    by_cases hrest : rest = []
    · subst hrest
      rw [scanFrom_nil, List.append_nil]
      rcases hlexeme.append_feed more with hkept | hlonger
      · rw [hkept.scanFrom]
        exact ⟨[.newline], .inr rfl, (hfeed _).token ⟨l, pos⟩⟩
      · rw [List.append_cons, hlonger.scanFrom]
        exact ⟨[], .inl rfl, (hbehind _).token ⟨l, pos⟩⟩
    · have hkept : l.StandsAs text (rest ++ '\n' :: more) :=
        hlexeme.congr (by rw [List.head?_append_of_ne_nil _ hrest])
      rw [List.append_assoc, hkept.scanFrom]
      obtain ⟨breaks, hbreaks, hcontinues⟩ := ih hend
      exact ⟨breaks, hbreaks, hcontinues.token ⟨l, pos⟩⟩
  | case4 pos c cs cause h => exact absurd hend (by simp [TokenStream.error?])

end SchemaLang
