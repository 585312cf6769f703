/-
# The line breaks that comments end with

The dialects part in one place: the line break behind a comment is a token of the strict dialect,
and part of the comment in the legacy one.  So after a comment the two scanners do not stand at the
same character any more, and they meet again behind the line break.

The cut of the strict dialect shows both.  A gap of it is blanks with at most one comment behind
them, and a comment has a line break directly behind it (`IsGap.blanks_or_comment`).  The legacy
scanner goes along the segments of that cut and leaves out the tokens whose gap ends in a comment
(`Segmented.scanFrom_legacy`); it ends as the strict scanner does, but for a comment that no line
break ends (`exists_both`).  Which line breaks end a comment is said of the characters in front of
them alone, by the reader that knows only strings and comments (`Inside.past`).
-/
import SchemaLang.Proofs.Scanner.Breaks
import SchemaLang.Proofs.Scanner.Offsets
import SchemaLang.Proofs.Scanner.Seams

namespace SchemaLang

open Text

variable {rules : Rules} {gap more rest text : List Char} {l : Lexeme}

/-! ## 1. Gaps in front of line breaks -/

theorem IsGap.append (h : IsGap rules gap (more ++ rest)) (hmore : IsGap rules more rest) :
    IsGap rules (gap ++ more) rest := by
  generalize hbehind : more ++ rest = behind at h
  induction h with
  | nil => exact hmore
  | cons hfirst _ ih =>
    subst hbehind
    rw [List.append_assoc]
    exact .cons (by simpa using hfirst) (ih rfl)

/-- No filler starts with a line break. -/
theorem IsFiller.exists_head (h : IsFiller rules text rest) :
    ∃ c cs, text = c :: cs ∧ isLineBreak c = false := by
  cases h with
  | blank hc => exact ⟨_, [], rfl, not_isLineBreak_of_isBlank hc⟩
  | comment => exact ⟨'/', _, rfl, by decide⟩
  | line => exact ⟨'/', _, rfl, by decide⟩
  | lastLine => exact ⟨'/', _, rfl, by decide⟩

/-- In front of a line break no gap starts. -/
theorem IsGap.eq_nil_of_break (h : IsGap rules gap rest)
    (hbreak : ∃ b ∈ (gap ++ rest).head?, isLineBreak b) : gap = [] := by
  cases h with
  | nil => rfl
  | cons hfirst hgap =>
    exfalso
    obtain ⟨b, hb, hbreak⟩ := hbreak
    obtain ⟨c, cs, rfl, hc⟩ := hfirst.exists_head
    obtain rfl : c = b := by simpa using hb
    exact absurd hbreak (by simp [hc])

/-- **Where a comment leaves its line break alone, a gap is blanks**, or blanks and a comment with
that line break behind it. -/
theorem IsGap.blanks_or_comment (hkeeps : rules.commentTakesLineBreak = false)
    (h : IsGap rules gap rest) :
    (∀ c ∈ gap, isBlank c) ∨
      ∃ blanks body, gap = blanks ++ '/' :: '/' :: body ∧ (∀ c ∈ blanks, isBlank c) ∧
        (∀ c ∈ body, isLineBreak c = false) ∧ ∃ b ∈ rest.head?, isLineBreak b := by
  induction h with
  | nil => exact .inl (by simp)
  | @cons text gap rest hfirst hgap ih =>
    generalize hbehind : gap ++ rest = behind at hfirst
    cases hfirst with
    | @blank c _ hc =>
      rcases ih with hblanks | ⟨blanks, body, rfl, hblanks, hbody⟩
      · exact .inl (List.forall_mem_cons.mpr ⟨hc, hblanks⟩)
      · exact .inr ⟨c :: blanks, body, rfl, List.forall_mem_cons.mpr ⟨hc, hblanks⟩, hbody⟩
    | @comment body _ _ hbody hbreak =>
      subst hbehind
      obtain rfl := hgap.eq_nil_of_break hbreak
      exact .inr ⟨[], body, by simp, by simp, hbody, hbreak⟩
    | line htakes => exact absurd (htakes.symm.trans hkeeps) (by simp)
    | lastLine htakes => exact absurd (htakes.symm.trans hkeeps) (by simp)

/-- A lexeme that a line break starts is one. -/
theorem Lexeme.StandsAs.isBreak (h : l.StandsAs text rest)
    (hbreak : ∃ b ∈ (text ++ rest).head?, isLineBreak b) : l = .newline ∧ IsBreak text rest := by
  obtain ⟨b, hb, hbreak⟩ := hbreak
  obtain ⟨bs, htext⟩ := List.head?_eq_some_iff.mp hb
  have hmunch := @Lexeme.StandsAs.munch Dialect.strict.rules _ _ _ _ _ h htext
  have hnewline := @munch_lineBreak Dialect.strict.rules b bs hbreak
  obtain ⟨rfl, -, -⟩ := Munch.lexeme.inj (hmunch.symm.trans hnewline)
  exact ⟨rfl, ((munch_eq_newline_iff hbreak).mp hmunch).2⟩

/-! ## 2. The reader of strings and comments -/

namespace Inside

/-- Blanks are passed. -/
theorem past_blanks {blanks : List Char} (h : ∀ c ∈ blanks, isBlank c) (rest : List Char) :
    code.past (blanks ++ rest) = code.past rest := by
  refine past_code_append (fun c hc => ?_) rest
  rcases isBlank_iff.mp (h c hc) with rfl | rfl <;> decide

/-- A comment is passed up to its end. -/
theorem past_comment_body {body : List Char} (h : ∀ c ∈ body, isLineBreak c = false)
    (rest : List Char) : code.past ('/' :: '/' :: (body ++ rest)) = comment.past rest := by
  rw [past]
  exact past_comment_append (fun c hc => by simp [h c hc]) rest

/-- In front of a line break it does not matter whether a comment is there. -/
theorem past_comment_eq {cs : List Char} (h : ∃ b ∈ cs.head?, isLineBreak b) :
    comment.past cs = code.past cs := by
  obtain ⟨b, hb, hbreak⟩ := h
  obtain ⟨bs, rfl⟩ := List.head?_eq_some_iff.mp hb
  rw [past_comment_break hbreak]
  rcases isLineBreak_iff.mp hbreak with rfl | rfl <;> rfl

end Inside

/-- A lexeme is passed whole. -/
theorem Lexeme.StandsAs.past_code (h : l.StandsAs text rest) :
    Inside.code.past (text ++ rest) = Inside.code.past rest := by
  obtain ⟨c, cs, htext⟩ :=
    List.exists_cons_of_ne_nil (List.append_ne_nil_of_left_ne_nil h.ne_nil rest)
  have hmunch := @Lexeme.StandsAs.munch Dialect.strict.rules _ _ _ _ _ h htext
  rw [htext]
  refine Inside.past_munch (fun hcomment => ?_) (by rw [hmunch]; rfl)
  rw [munch_comment hcomment] at hmunch
  exact munchComment_ne_lexeme hmunch

/-- A gap of the strict dialect is passed with what is behind it. -/
theorem IsGap.past_code (h : IsGap Dialect.strict.rules gap rest) :
    Inside.code.past (gap ++ rest) = Inside.code.past rest := by
  rcases h.blanks_or_comment rfl with hblanks | ⟨blanks, body, rfl, hblanks, hbody, hbreak⟩
  · exact Inside.past_blanks hblanks rest
  · rw [List.append_assoc, Inside.past_blanks hblanks]
    exact (Inside.past_comment_body hbody rest).trans (Inside.past_comment_eq hbreak)

/-- **Segments leave the reader outside of strings and comments.** -/
theorem Segmented.past_code {ss : List Segment} (h : Segmented Dialect.strict.rules ss rest) :
    Inside.code.past (charsOf ss ++ rest) = Inside.code.past rest := by
  induction ss with
  | nil => rfl
  | cons s ss ih =>
    obtain ⟨hgap, hlexeme, hss⟩ := h
    rw [charsOf_cons, List.append_assoc, List.append_assoc,
      hgap.past_code, hlexeme.past_code, ih hss]

/-! ## 3. The legacy scanner along the strict cut -/

/-- The lexeme is a line break, and the gap in front of it ends in a comment. -/
def Segment.endsComment (s : Segment) : Bool :=
  s.lexeme = .newline && Inside.code.past s.gap = .comment

/-- The tokens of segments that start at a given place, without the line breaks of comments. -/
def keptFrom (pos : Position) : List Segment → List Token
  | [] => []
  | s :: ss =>
    if s.endsComment then keptFrom (pos.past s.chars) ss
    else ⟨s.lexeme, pos.past s.gap⟩ :: keptFrom (pos.past s.chars) ss

/-- Blanks are a gap in any dialect. -/
theorem isGap_of_blanks (h : ∀ c ∈ gap, isBlank c) : IsGap rules gap rest :=
  (Inserted.blanks h).isGap

/-- **A segment in the legacy dialect** is one again, or all of it is a gap. -/
theorem Segment.legacy_cases {s : Segment}
    (hgap : IsGap Dialect.strict.rules s.gap (s.text ++ rest))
    (hlexeme : s.lexeme.StandsAs s.text rest) :
    s.endsComment = false ∧ IsGap Dialect.legacy.rules s.gap (s.text ++ rest) ∨
      s.endsComment = true ∧ IsGap Dialect.legacy.rules s.chars rest := by
  rcases hgap.blanks_or_comment rfl with hblanks | ⟨blanks, body, hwhole, hblanks, hbody, hbreak⟩
  · refine .inl ⟨?_, isGap_of_blanks hblanks⟩
    have hinside := Inside.past_blanks hblanks []
    rw [List.append_nil] at hinside
    simp [endsComment, hinside, Inside.past]
  · obtain ⟨hnewline, hending⟩ := hlexeme.isBreak hbreak
    refine .inr ⟨?_, ?_⟩
    · have hinside := Inside.past_comment_body hbody []
      rw [List.append_nil, ← Inside.past_blanks hblanks] at hinside
      simp [endsComment, hnewline, hwhole, hinside, Inside.past]
    · have hline := IsGap.cons (@IsFiller.line Dialect.legacy.rules _ _ _ rfl hbody hending)
        (@IsGap.nil _ rest)
      have hchars : s.chars = blanks ++ ('/' :: '/' :: (body ++ s.text) ++ []) := by
        simp [chars, hwhole]
      rw [hchars]
      exact (isGap_of_blanks hblanks).append hline

/-- **The legacy scanner goes along the segments of the strict dialect** and leaves out the line
breaks of comments. -/
theorem Segmented.scanFrom_legacy {ss : List Segment}
    (h : Segmented Dialect.strict.rules ss rest) (pos : Position) :
    SchemaLang.scanFrom Dialect.legacy.rules pos (charsOf ss ++ rest) =
      .prepend (keptFrom pos ss)
        (SchemaLang.scanFrom Dialect.legacy.rules (pos.past (charsOf ss)) rest) := by
  induction ss generalizing pos with
  | nil => rfl
  | cons s ss ih =>
    obtain ⟨hgap, hlexeme, hss⟩ := h
    have hbehind : (pos.past s.chars).past (charsOf ss) = pos.past (charsOf (s :: ss)) := by
      rw [← hlexeme.past_append]
      rfl
    have hsplit : charsOf (s :: ss) ++ rest = s.chars ++ (charsOf ss ++ rest) := by
      simp [Segment.chars]
    rw [hsplit, keptFrom, ← hbehind]
    rcases Segment.legacy_cases hgap hlexeme with ⟨hends, hlegacy⟩ | ⟨hends, hlegacy⟩
    · have hplace : (pos.past s.gap).past s.text = pos.past s.chars :=
        (Position.past_append _ _ _ hgap.cutsNoBreak.of_append).symm
      rw [if_neg (by simp [hends]), Segment.chars, List.append_assoc, hlegacy.scanFrom,
        hlexeme.scanFrom, hplace, ih hss]
      rfl
    · rw [if_pos hends, hlegacy.scanFrom, ih hss]

/-! ## 4. Line breaks by their offsets -/

/-- The token at an offset is a line break that ends a comment: the characters in front of it leave
the reader inside of one. -/
def endsComment (cs : List Char) (t : Token) (offset : Nat) : Bool :=
  t.lexeme = .newline && Inside.code.past (cs.take offset) = .comment

/-- **Which tokens are left out** is told by the text in front of their offsets. -/
theorem Segmented.keptFrom_eq_filter {front ss : List Segment}
    (h : Segmented Dialect.strict.rules (front ++ ss) rest) (pos : Position) :
    keptFrom pos ss = (((tokensFrom pos ss).zip (startsFrom (charsOf front).length ss)).filter
      fun x => !endsComment (charsOf (front ++ ss) ++ rest) x.1 x.2).map Prod.fst := by
  induction ss generalizing front pos with
  | nil => rfl
  | cons s ss ih =>
    have hfront : Segmented Dialect.strict.rules front s.gap := by
      have hbehind := (segmented_append.mp h).1
      rw [charsOf_cons, List.append_assoc] at hbehind
      exact hbehind.of_append
    have htake : (charsOf (front ++ s :: ss) ++ rest).take ((charsOf front).length + s.gap.length) =
        charsOf front ++ s.gap := by
      rw [charsOf_append, charsOf_cons, ← List.append_assoc, List.append_assoc _ _ rest,
        ← List.length_append, List.take_left]
    have hends : endsComment (charsOf (front ++ s :: ss) ++ rest) ⟨s.lexeme, pos.past s.gap⟩
        ((charsOf front).length + s.gap.length) = s.endsComment := by
      rw [endsComment, htake, hfront.past_code]
      rfl
    have htail := @ih (front ++ [s]) (by simpa using h) (pos.past s.chars)
    have hlength : (charsOf (front ++ [s])).length = (charsOf front).length + s.chars.length := by
      simp [charsOf_append, Segment.chars]
    rw [hlength, List.append_assoc, List.singleton_append] at htail
    rw [keptFrom, tokensFrom, startsFrom, List.zip_cons_cons, List.filter_cons, hends, htail]
    cases s.endsComment <;> rfl

/-! ## 5. Both dialects -/

/-- A comment starts behind these characters: behind one slash the reader is still outside of
strings and comments, and behind two it is inside of a comment. -/
def CommentStarts (before : List Char) : Prop :=
  Inside.code.past (before ++ ['/']) = .code ∧ Inside.code.past (before ++ ['/', '/']) = .comment

/-- Two slashes behind segments and blanks start a comment. -/
theorem Segmented.commentStarts {ss : List Segment} {body : List Char}
    (h : Segmented Dialect.strict.rules ss (gap ++ '/' :: '/' :: body))
    (hblanks : ∀ c ∈ gap, isBlank c) : CommentStarts (charsOf ss ++ gap) := by
  have hslash : ∀ slashes : List Char, slashes.head? = some '/' →
      Inside.code.past (charsOf ss ++ gap ++ slashes) = Inside.code.past slashes := by
    intro slashes hhead
    have hss : Segmented Dialect.strict.rules ss (gap ++ slashes) :=
      h.congr (by rw [List.head?_append, List.head?_append, hhead]; rfl)
    rw [List.append_assoc, hss.past_code, Inside.past_blanks hblanks]
  constructor
  · rw [hslash _ rfl]
    rfl
  · rw [hslash _ rfl]
    rfl

/-- In front of a character that no gap and no lexeme starts with there are only blanks. -/
theorem IsGap.blanks_of_fault {c : Char} {cs : List Char} {cause : LexicalCause}
    (h : IsGap Dialect.strict.rules gap (c :: cs))
    (hfault : munch Dialect.strict.rules c cs = .fault cause) : ∀ b ∈ gap, isBlank b := by
  rcases h.blanks_or_comment rfl with hblanks | ⟨-, -, -, -, -, b, hb, hbreak⟩
  · exact hblanks
  · obtain rfl : c = b := Option.some.inj hb
    exact absurd hbreak (not_isLineBreak_of_fault hfault)

/-- How the strict and the legacy scanner end at one place, in front of what no gap and no lexeme
starts with. -/
inductive BothEnd (place : Position) : List Char → TokenStream → TokenStream → Prop
  | done : BothEnd place [] (.done place) (.done place)
  | fault {c : Char} {cs : List Char} {cause : LexicalCause} :
      BothEnd place (c :: cs) (.fault ⟨cause, place⟩) (.fault ⟨cause, place⟩)
  /-- A comment that no line break ends is a fault of the strict dialect, and a gap of the legacy
  one. -/
  | comment {body : List Char} {stop : Position} (hbody : ∀ c ∈ body, isLineBreak c = false) :
      BothEnd place ('/' :: '/' :: body) (.fault ⟨.unterminatedComment, place⟩) (.done stop)

theorem bothEnd_of_fault {c : Char} {cs : List Char} {cause : LexicalCause}
    (h : munch Dialect.strict.rules c cs = .fault cause) (place : Position) :
    BothEnd place (c :: cs) (scanFrom Dialect.strict.rules place (c :: cs))
      (scanFrom Dialect.legacy.rules place (c :: cs)) := by
  rw [scanFrom_fault h]
  rcases munch_cases c cs with ⟨-, hsame⟩ | ⟨-, ⟨-, hopen, htakes⟩ | ⟨_, _, -, -, ⟨_, hgap⟩, -⟩⟩
  · rw [scanFrom_fault ((hsame _ _).trans h)]
    exact .fault
  · rw [scanFrom_gap htakes, scanFrom_nil]
    obtain rfl := Munch.fault.inj (h.symm.trans hopen)
    have hcomment := munch_eq_fault_iff.mp hopen
    generalize c :: cs = rest at hcomment ⊢
    cases hcomment with
    | comment _ hbody => exact .comment hbody
  · exact absurd (hgap.symm.trans h) (by simp)

namespace BothEnd

variable {place : Position} {ending ending' : TokenStream} {e : LexicalError}

theorem strict_error (h : BothEnd place rest ending ending') (he : ending'.error? = some e) :
    ending.error? = some e := by
  cases h with
  | done => exact absurd he (by simp [TokenStream.error?])
  | fault => exact he
  | comment => exact absurd he (by simp [TokenStream.error?])

/-- A fault of the strict dialect alone is a comment that no line break ends. -/
theorem comment_of_error (h : BothEnd place rest ending ending') (hnone : ending'.error? = none)
    (he : ending.error? = some e) : ∃ body, rest = '/' :: '/' :: body ∧
      (∀ c ∈ body, isLineBreak c = false) ∧ e = ⟨.unterminatedComment, place⟩ := by
  cases h with
  | done => exact absurd he (by simp [TokenStream.error?])
  | fault => exact absurd hnone (by simp [TokenStream.error?])
  | comment hbody => exact ⟨_, rfl, hbody, (Option.some.inj he).symm⟩

theorem done_of_no_error (h : BothEnd place rest ending ending') (hnone : ending.error? = none) :
    rest = [] ∧ ending = .done place ∧ ending' = .done place := by
  cases h with
  | done => exact ⟨rfl, rfl, rfl⟩
  | fault => exact absurd hnone (by simp [TokenStream.error?])
  | comment => exact absurd hnone (by simp [TokenStream.error?])

end BothEnd

/-- **Both scanners on one text.**  They pass the segments of the strict cut, and the blanks behind
them, and end there. -/
theorem exists_both (cs : List Char) (pos : Position) :
    ∃ (ss : List Segment) (gap rest : List Char) (ending ending' : TokenStream),
      charsOf ss ++ (gap ++ rest) = cs ∧ Segmented Dialect.strict.rules ss (gap ++ rest) ∧
      (∀ c ∈ gap, isBlank c) ∧
      scanFrom Dialect.strict.rules pos cs = .prepend (tokensFrom pos ss) ending ∧
      scanFrom Dialect.legacy.rules pos cs = .prepend (keptFrom pos ss) ending' ∧
      BothEnd ((pos.past (charsOf ss)).past gap) rest ending ending' := by
  obtain ⟨ss, gap, rest, rfl, hss, hgap, hend⟩ := exists_segmented Dialect.strict.rules cs
  have hblanks : ∀ c ∈ gap, isBlank c := by
    cases rest with
    | nil =>
      rcases hgap.blanks_or_comment rfl with hblanks | ⟨-, -, -, -, -, b, hb, -⟩
      · exact hblanks
      · exact absurd hb (by simp)
    | cons c cs =>
      obtain ⟨cause, hfault⟩ := hend c cs rfl
      exact hgap.blanks_of_fault hfault
  have hlegacy : scanFrom Dialect.legacy.rules pos (charsOf ss ++ (gap ++ rest)) =
      .prepend (keptFrom pos ss)
        (scanFrom Dialect.legacy.rules ((pos.past (charsOf ss)).past gap) rest) := by
    rw [hss.scanFrom_legacy, (isGap_of_blanks hblanks).scanFrom]
  have hstrict : scanFrom Dialect.strict.rules pos (charsOf ss ++ (gap ++ rest)) =
      .prepend (tokensFrom pos ss)
        (scanFrom Dialect.strict.rules ((pos.past (charsOf ss)).past gap) rest) := by
    rw [hss.scanFrom, hgap.scanFrom]
  refine ⟨ss, gap, rest, _, _, rfl, hss, hblanks, hstrict, hlegacy, ?_⟩
  cases rest with
  | nil =>
    rw [scanFrom_nil, scanFrom_nil]
    exact .done
  | cons c cs =>
    obtain ⟨cause, hfault⟩ := hend c cs rfl
    exact bothEnd_of_fault hfault _

/-- **The dialects find the same tokens, but for the line breaks of comments.**  A fault of the
legacy dialect is the same fault in the strict one.  Where the legacy dialect finds none, the strict
one finds fault with a text that ends inside a comment, and with no other, and the fault is where
that comment starts.  Where neither finds fault, the tokens of the legacy dialect are those of the
strict one without the line breaks that end a comment, each at its place, and both end at one
place. -/
theorem scan_strict_of_legacy (source : String) :
    (∀ e, (scan Dialect.legacy.rules source).error? = some e →
      (scan Dialect.strict.rules source).error? = some e) ∧
    ((scan Dialect.legacy.rules source).error? = none →
      ((∃ e, (scan Dialect.strict.rules source).error? = some e) ↔ endsInComment source) ∧
      ∀ e, (scan Dialect.strict.rules source).error? = some e → ∃ before body,
        source.toList = before ++ '/' :: '/' :: body ∧ CommentStarts before ∧
        (∀ c ∈ body, isLineBreak c = false) ∧
        e = ⟨.unterminatedComment, placeAt source.toList before.length⟩) ∧
    ((scan Dialect.legacy.rules source).error? = none →
      (scan Dialect.strict.rules source).error? = none →
      ∃ (g : Segmentation Dialect.strict.rules source.toList) (ts : List Token) (stop : Position),
        scan Dialect.strict.rules source = .ofTokens ts stop ∧
        ts.map Token.lexeme = g.segments.map Segment.lexeme ∧
        scan Dialect.legacy.rules source =
          .ofTokens (((ts.zip (startsFrom 0 g.segments)).filter
            fun x => !endsComment source.toList x.1 x.2).map Prod.fst) stop) := by
  obtain ⟨ss, gap, rest, ending, ending', hchars, hss, hblanks, hstrict, hlegacy, hends⟩ :=
    exists_both source.toList .start
  rw [← scan] at hstrict hlegacy
  have herror : (scan Dialect.strict.rules source).error? = ending.error? := by
    rw [hstrict, TokenStream.error?_prepend]
  have herror' : (scan Dialect.legacy.rules source).error? = ending'.error? := by
    rw [hlegacy, TokenStream.error?_prepend]
  refine ⟨?_, ?_, ?_⟩
  · intro e he
    rw [herror'] at he
    rw [herror]
    exact hends.strict_error he
  · intro hnone
    constructor
    · rw [← Option.ne_none_iff_exists', ne_eq, scan, strict_of_legacy .start .start _ hnone,
        not_not]
      rfl
    · intro e he
      rw [herror'] at hnone
      rw [herror] at he
      obtain ⟨body, rfl, hbody, rfl⟩ := hends.comment_of_error hnone he
      refine ⟨charsOf ss ++ gap, body, ?_, hss.commentStarts hblanks, hbody, ?_⟩
      · rw [← hchars, List.append_assoc]
      · rw [← hchars, ← hss.past_gap (isGap_of_blanks hblanks)]
  · intro _ hnone
    rw [herror] at hnone
    obtain ⟨rfl, rfl, rfl⟩ := hends.done_of_no_error hnone
    rw [List.append_nil] at hchars hss
    refine ⟨⟨ss, gap, hchars, hss, isGap_of_blanks hblanks⟩, tokensFrom .start ss, _, hstrict,
      lexemesOf_tokensFrom .start ss, ?_⟩
    have hkept := @Segmented.keptFrom_eq_filter _ [] _ hss .start
    rw [List.nil_append, hchars] at hkept
    rw [hlegacy, hkept]
    rfl

/-- A fault behind a comment is found by both, a text that ends inside a comment by one, and of the
two line breaks behind a comment the legacy dialect leaves out the first. -/
theorem scan_strict_comments :
    (scan Dialect.strict.rules "a//b\n?").error? = some ⟨.unexpectedCharacter '?', ⟨2, 1⟩⟩ ∧
    endsInComment "a //b" ∧
    ∃ (offsets : List Nat) (ts : List Token) (stop : Position),
      scan Dialect.strict.rules "a//b\r\n\nc" = .ofTokens ts stop ∧
      scan Dialect.legacy.rules "a//b\r\n\nc" = .ofTokens (((ts.zip offsets).filter
        fun x => !endsComment "a//b\r\n\nc".toList x.1 x.2).map Prod.fst) stop := by
  have hfault : (scan Dialect.legacy.rules "a//b\n?").error? =
      some ⟨.unexpectedCharacter '?', ⟨2, 1⟩⟩ := by
    rw [scan_eq_scanWithin]
    decide
  have hopen : (scan Dialect.legacy.rules "a //b").error? = none ∧
      (scan Dialect.strict.rules "a //b").error? = some ⟨.unterminatedComment, ⟨1, 3⟩⟩ := by
    rw [scan_eq_scanWithin, scan_eq_scanWithin]
    decide
  have hclosed : (scan Dialect.legacy.rules "a//b\r\n\nc").error? = none ∧
      (scan Dialect.strict.rules "a//b\r\n\nc").error? = none := by
    rw [scan_eq_scanWithin, scan_eq_scanWithin]
    decide
  obtain ⟨g, ts, stop, hstrict, -, hlegacy⟩ :=
    (scan_strict_of_legacy "a//b\r\n\nc").2.2 hclosed.1 hclosed.2
  exact ⟨(scan_strict_of_legacy "a//b\n?").1 _ hfault,
    ((scan_strict_of_legacy "a //b").2.1 hopen.1).1.mp ⟨_, hopen.2⟩,
    startsFrom 0 g.segments, ts, stop, hstrict, hlegacy⟩

end SchemaLang
