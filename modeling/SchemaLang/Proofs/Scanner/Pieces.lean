/-
# What a piece is

`munch` computes the piece at the front of a text.  Here the pieces are described without it: the
fillers, which are the blanks and the complete comments (`IsFiller`), and the texts that a lexeme
is written as (`Lexeme.StandsAs`).  Both are said of a text together with what is behind it, since
that is what makes a piece maximal or a comment complete.

The two descriptions are the two ways in which `munch` succeeds (`munch_eq_gap_iff`,
`munch_eq_lexeme_iff`).  As `munch` is a function, no two different pieces stand at the front of
one text.  And as a description looks at one character behind the piece only, a piece stays what it
is when the text behind it changes further on.
-/
import SchemaLang.Proofs.Scanner.Dialects

namespace SchemaLang

open Text

/-! ## 1. Fillers and lexemes -/

/-- A whole line break: a carriage return takes the line feed behind it along. -/
inductive IsBreak : List Char → List Char → Prop
  | returnFeed {rest : List Char} : IsBreak ['\r', '\n'] rest
  | feed {rest : List Char} : IsBreak ['\n'] rest
  | lone {rest : List Char} (hrest : rest.head? ≠ some '\n') : IsBreak ['\r'] rest

/-- A blank, or a comment that is complete where `rest` is behind it. -/
inductive IsFiller (rules : Rules) : List Char → List Char → Prop
  | blank {c : Char} {rest : List Char} (hc : isBlank c) : IsFiller rules [c] rest
  /-- A comment up to its line break, which must be there. -/
  | comment {body rest : List Char} (hkeeps : rules.commentTakesLineBreak = false)
      (hbody : ∀ c ∈ body, isLineBreak c = false) (hrest : ∃ b ∈ rest.head?, isLineBreak b) :
      IsFiller rules ('/' :: '/' :: body) rest
  /-- A comment through its line break. -/
  | line {body ending rest : List Char} (htakes : rules.commentTakesLineBreak = true)
      (hbody : ∀ c ∈ body, isLineBreak c = false) (hending : IsBreak ending rest) :
      IsFiller rules ('/' :: '/' :: (body ++ ending)) rest
  /-- A comment to the end of the text. -/
  | lastLine {body : List Char} (htakes : rules.commentTakesLineBreak = true)
      (hbody : ∀ c ∈ body, isLineBreak c = false) : IsFiller rules ('/' :: '/' :: body) []

/-- The lexeme is written as `text`, and `rest` behind it does not go on with it. -/
inductive Lexeme.StandsAs : Lexeme → List Char → List Char → Prop
  | keyword {k : Keyword} {rest : List Char} (hrest : ∀ c ∈ rest.head?, isNamePart c = false) :
      StandsAs (keyword k) k.text.toList rest
  | identifier {name : String} {rest : List Char} (hname : isName name.toList)
      (hfree : ∀ k : Keyword, k.text ≠ name) (hrest : ∀ c ∈ rest.head?, isNamePart c = false) :
      StandsAs (identifier name) name.toList rest
  | integer {digits : String} {rest : List Char} (hne : digits.toList ≠ [])
      (hdigits : ∀ c ∈ digits.toList, c.isDigit) (hrest : ∀ c ∈ rest.head?, c.isDigit = false) :
      StandsAs (integer digits) digits.toList rest
  | string {body : String} {rest : List Char} (hbody : ∀ c ∈ body.toList, isStringPart c) :
      StandsAs (string body) ('"' :: (body.toList ++ ['"'])) rest
  | punct {p : Punct} {rest : List Char} : StandsAs (punct p) [p.char] rest
  | newline {text rest : List Char} (hbreak : IsBreak text rest) : StandsAs newline text rest

/-! ## 2. One character behind a piece -/

theorem IsBreak.congr {text rest rest' : List Char} (h : IsBreak text rest)
    (hrest : rest'.head? = rest.head?) : IsBreak text rest' := by
  cases h with
  | returnFeed => exact .returnFeed
  | feed => exact .feed
  | lone h => exact .lone (by rwa [hrest])

theorem head?_eq_none_iff_of_eq {rest rest' : List Char} (hrest : rest'.head? = rest.head?) :
    rest' = [] ↔ rest = [] := by
  rw [← List.head?_eq_none_iff, hrest, List.head?_eq_none_iff]

/-- **A filler is one by the character behind it.** -/
theorem IsFiller.congr {rules : Rules} {text rest rest' : List Char} (h : IsFiller rules text rest)
    (hrest : rest'.head? = rest.head?) : IsFiller rules text rest' := by
  cases h with
  | blank hc => exact .blank hc
  | comment hkeeps hbody h => exact .comment hkeeps hbody (by rwa [hrest])
  | line htakes hbody hending => exact .line htakes hbody (hending.congr hrest)
  | lastLine htakes hbody =>
    obtain rfl := (head?_eq_none_iff_of_eq hrest).mpr rfl
    exact .lastLine htakes hbody

/-- **A lexeme stands as its text by the character behind it.** -/
theorem Lexeme.StandsAs.congr {l : Lexeme} {text rest rest' : List Char}
    (h : l.StandsAs text rest) (hrest : rest'.head? = rest.head?) : l.StandsAs text rest' := by
  cases h with
  | keyword h => exact .keyword (by rwa [hrest])
  | identifier hname hfree h => exact .identifier hname hfree (by rwa [hrest])
  | integer hne hdigits h => exact .integer hne hdigits (by rwa [hrest])
  | string hbody => exact .string hbody
  | punct => exact .punct
  | newline hbreak => exact .newline (hbreak.congr hrest)

/-- Behind any lexeme may stand what goes on with none: no part of a name and no line feed. -/
theorem Lexeme.StandsAs.before {l : Lexeme} {text rest rest' : List Char}
    (h : l.StandsAs text rest) (hrest : ∀ c ∈ rest'.head?, isNamePart c = false ∧ c ≠ '\n') :
    l.StandsAs text rest' := by
  have hname : ∀ c ∈ rest'.head?, isNamePart c = false := fun c hc => (hrest c hc).1
  cases h with
  | keyword h => exact .keyword hname
  | identifier hname' hfree h => exact .identifier hname' hfree hname
  | integer hne hdigits h =>
    refine .integer hne hdigits fun c hc => ?_
    have hpart := hname c hc
    simp only [isNamePart, Bool.or_eq_false_iff] at hpart
    exact hpart.2
  | string hbody => exact .string hbody
  | punct => exact .punct
  | newline hbreak =>
    cases hbreak with
    | returnFeed => exact .newline .returnFeed
    | feed => exact .newline .feed
    | lone h => exact .newline (.lone fun hfeed => (hrest _ hfeed).2 rfl)

/-- Nothing at all goes on with a lexeme. -/
theorem Lexeme.StandsAs.atEnd {l : Lexeme} {text rest : List Char} (h : l.StandsAs text rest) :
    l.StandsAs text [] :=
  h.before fun _ hc => absurd hc (by simp)

/-! ## 3. Line breaks -/

theorem IsBreak.exists_cons {text rest : List Char} (h : IsBreak text rest) :
    ∃ b bs, text ++ rest = b :: bs ∧ isLineBreak b := by
  cases h with
  | returnFeed => exact ⟨'\r', '\n' :: rest, rfl, by decide⟩
  | feed => exact ⟨'\n', rest, rfl, by decide⟩
  | lone hrest => exact ⟨'\r', rest, rfl, by decide⟩

/-- The whole break at the front is what is split off. -/
theorem splitLineBreak_eq_iff {c : Char} {cs text rest : List Char} (hc : isLineBreak c) :
    splitLineBreak (c :: cs) = (text, rest) ↔ text ++ rest = c :: cs ∧ IsBreak text rest := by
  constructor
  · intro h
    have htext := splitLineBreak_text (c :: cs)
    rw [h] at htext
    refine ⟨htext, ?_⟩
    unfold splitLineBreak at h
    split at h
    · obtain ⟨rfl, rfl⟩ := Prod.mk.inj h
      exact .returnFeed
    · next c' cs' hne heq =>
      obtain ⟨rfl, rfl⟩ := List.cons.inj heq
      obtain ⟨rfl, rfl⟩ := Prod.mk.inj h
      rcases isLineBreak_iff.mp hc with rfl | rfl
      · exact .feed
      · refine .lone fun hfeed => ?_
        obtain ⟨ds, rfl⟩ := List.head?_eq_some_iff.mp hfeed
        exact hne ds rfl rfl
    · simp_all
  · rintro ⟨htext, hbreak⟩
    rw [← htext]
    cases hbreak with
    | returnFeed => rfl
    | feed => rfl
    | lone hrest =>
      cases rest with
      | nil => rfl
      | cons d ds =>
        have hd : d ≠ '\n' := by simpa using hrest
        simp [splitLineBreak, hd]

theorem munch_eq_newline_iff {rules : Rules} {c : Char} {cs text rest : List Char}
    (hc : isLineBreak c) : munch rules c cs = .lexeme .newline text rest ↔
      text ++ rest = c :: cs ∧ IsBreak text rest := by
  rw [munch_lineBreak hc, ← splitLineBreak_eq_iff hc, Prod.ext_iff]
  simp

/-- The slashes of a comment are in its line too. -/
theorem no_break_slashes {body : List Char} (h : ∀ c ∈ body, isLineBreak c = false) :
    ∀ c ∈ '/' :: '/' :: body, isLineBreak c = false :=
  List.forall_mem_cons.mpr ⟨by decide, List.forall_mem_cons.mpr ⟨by decide, h⟩⟩

theorem not_isLineBreak_of_isStringPart {c : Char} (h : isStringPart c) :
    isLineBreak c = false := by
  simp only [isStringPart, Bool.and_eq_true, Bool.not_eq_true'] at h
  exact h.2

/-- A lexeme that is no line break is written without one. -/
theorem Lexeme.StandsAs.no_break {l : Lexeme} {text rest : List Char} (h : l.StandsAs text rest)
    (hl : l ≠ .newline) : ∀ c ∈ text, isLineBreak c = false := by
  have hname : ∀ {cs : List Char}, isName cs → ∀ c ∈ cs, isLineBreak c = false := by
    intro cs hcs c hc
    cases cs with
    | nil => exact absurd hc (by simp)
    | cons d ds =>
      simp only [isName, Bool.and_eq_true, List.all_eq_true] at hcs
      rcases List.mem_cons.mp hc with rfl | hc
      · exact not_isLineBreak_of_isNamePart (isNamePart_of_isNameStart hcs.1)
      · exact not_isLineBreak_of_isNamePart (hcs.2 c hc)
  cases h with
  | @keyword k _ => exact hname k.isName_text
  | identifier h => exact hname h
  | integer _ hdigits =>
    intro c hc
    exact not_isLineBreak_of_isNamePart (isNamePart_of_isDigit (hdigits c hc))
  | string hbody =>
    have hquote : ∀ c ∈ ['"'], isLineBreak c = false := List.forall_mem_singleton.mpr (by decide)
    refine List.forall_mem_cons.mpr ⟨by decide, List.forall_mem_append.mpr ⟨?_, hquote⟩⟩
    exact fun c hc => not_isLineBreak_of_isStringPart (hbody c hc)
  | @punct p _ =>
    intro c hc
    obtain rfl := List.mem_singleton.mp hc
    cases p <;> decide
  | newline => exact absurd rfl hl

/-! ## 4. The piece at the front -/

/-- The text of a comment is a run, the second slash included. -/
theorem munchComment_run {body rest : List Char} (hbody : ∀ c ∈ body, isLineBreak c = false)
    (hrest : ∀ b ∈ rest.head?, isLineBreak b) :
    ('/' :: (body ++ rest)).takeWhile (!isLineBreak ·) = '/' :: body ∧
      ('/' :: (body ++ rest)).dropWhile (!isLineBreak ·) = rest := by
  have hrun : ∀ c ∈ '/' :: body, (!isLineBreak c) = true := by
    intro c hc
    rcases List.mem_cons.mp hc with rfl | hc
    · decide
    · simpa using hbody c hc
  exact takeWhile_run hrun fun c hc => by simpa using hrest c hc

variable {rules : Rules} {c : Char} {cs text rest : List Char} {l : Lexeme}

/-- A lexeme is taken off the front wherever it stands there. -/
theorem Lexeme.StandsAs.munch (h : l.StandsAs text rest) (htext : text ++ rest = c :: cs) :
    munch rules c cs = .lexeme l text rest := by
  have hcut : ∀ {l : Lexeme}, l.WellFormed → l.EndsBefore rest → l.source.toList ++ rest = c :: cs →
      SchemaLang.munch rules c cs = .lexeme l l.source.toList rest := by
    intro l hl hrest htext
    obtain ⟨c', cs', hsource, hmunch⟩ := @Lexeme.WellFormed.cut rules _ _ hl hrest
    obtain ⟨rfl, rfl⟩ := List.cons.inj (htext.symm.trans hsource)
    exact hmunch
  cases h with
  | keyword hrest => exact hcut (l := .keyword _) trivial hrest htext
  | @identifier name _ hname hfree hrest =>
    refine hcut (l := .identifier name) ⟨hname, ?_⟩ hrest htext
    exact List.find?_eq_none.mpr fun k _ => by simpa using hfree k
  | integer hne hdigits hrest => exact hcut (l := .integer _) ⟨hne, hdigits⟩ hrest htext
  | @string body _ hbody =>
    have hsource : (Lexeme.string body).source.toList = '"' :: (body.toList ++ ['"']) := by
      simp [Lexeme.source]
    rw [← hsource] at htext ⊢
    exact hcut (l := .string body) hbody trivial htext
  | @punct p _ =>
    have hsource : (Lexeme.punct p).source.toList = [p.char] := String.toList_singleton p.char
    rw [← hsource] at htext ⊢
    exact hcut (l := .punct p) trivial trivial htext
  | newline hbreak =>
    obtain ⟨b, bs, hb, hc⟩ := hbreak.exists_cons
    obtain ⟨rfl, rfl⟩ := List.cons.inj (htext.symm.trans hb)
    exact (munch_eq_newline_iff hc).mpr ⟨htext, hbreak⟩

/-- A filler is taken off the front wherever it stands there. -/
theorem IsFiller.munch (h : IsFiller rules text rest) (htext : text ++ rest = c :: cs) :
    munch rules c cs = .gap text rest := by
  cases h with
  | blank hc =>
    obtain ⟨rfl, rfl⟩ := List.cons.inj htext
    simp [SchemaLang.munch, hc]
  | @comment body rest hkeeps hbody hrest =>
    obtain ⟨rfl, rfl⟩ : '/' = c ∧ '/' :: (body ++ rest) = cs := by simpa using htext
    obtain ⟨b, hb, hbreak⟩ := hrest
    obtain ⟨bs, rfl⟩ := List.head?_eq_some_iff.mp hb
    obtain ⟨htake, hdrop⟩ := @munchComment_run _ (b :: bs) hbody (by simpa using hbreak)
    rw [munch_comment ⟨rfl, rfl⟩, munchComment_of_break hdrop, hkeeps, htake]
    rfl
  | @line body ending rest htakes hbody hending =>
    obtain ⟨rfl, rfl⟩ : '/' = c ∧ '/' :: (body ++ (ending ++ rest)) = cs := by
      simpa using htext
    obtain ⟨b, bs, hb, hbreak⟩ := hending.exists_cons
    rw [hb]
    obtain ⟨htake, hdrop⟩ := @munchComment_run _ (b :: bs) hbody (by simpa using hbreak)
    have hsplit := (splitLineBreak_eq_iff hbreak).mpr ⟨hb, hending⟩
    rw [munch_comment ⟨rfl, rfl⟩, munchComment_of_break hdrop, htakes, htake, hsplit]
    rfl
  | @lastLine body htakes hbody =>
    obtain ⟨rfl, rfl⟩ : '/' = c ∧ '/' :: (body ++ []) = cs := by simpa using htext
    obtain ⟨htake, hdrop⟩ := @munchComment_run _ [] hbody (by simp)
    rw [munch_comment ⟨rfl, rfl⟩]
    simp only [munchComment, htake, hdrop, htakes, if_true]

/-- A gap is a filler, and a lexeme stands as its text. -/
def Munch.IsPiece (rules : Rules) : Munch → Prop
  | gap text rest => IsFiller rules text rest
  | lexeme l text rest => l.StandsAs text rest
  | fault _ => True

theorem munchComment_isPiece (hslash : cs.head? = some '/') :
    (munchComment rules cs).IsPiece rules := by
  obtain ⟨ds, rfl⟩ := List.head?_eq_some_iff.mp hslash
  have htake : ('/' :: ds).takeWhile (!isLineBreak ·) =
      '/' :: ds.takeWhile (!isLineBreak ·) := List.takeWhile_cons_of_pos (by decide)
  have hrun : ∀ d ∈ ds.takeWhile (!isLineBreak ·), isLineBreak d = false := fun d hd => by
    simpa using List.all_eq_true.mp List.all_takeWhile d hd
  cases hdrop : ('/' :: ds).dropWhile (!isLineBreak ·) with
  | nil =>
    simp only [munchComment, hdrop, htake]
    split
    · next htakes => exact .lastLine htakes hrun
    · trivial
  | cons b bs =>
    have hb := isLineBreak_of_dropWhile hdrop
    rw [munchComment_of_break hdrop, htake]
    split
    · next htakes => exact .line htakes hrun ((splitLineBreak_eq_iff hb).mp rfl).2
    · next hkeeps => exact .comment (by simpa using hkeeps) hrun ⟨b, rfl, hb⟩

theorem munchString_isPiece : (munchString cs).IsPiece rules := by
  unfold munchString
  split
  · next rest hdrop =>
    have hstring := @Lexeme.StandsAs.string (String.ofList (cs.takeWhile isStringPart)) rest
      (by rw [String.toList_ofList]; exact List.all_eq_true.mp List.all_takeWhile)
    rwa [String.toList_ofList] at hstring
  · trivial

/-- The word at the front, keyword or not. -/
theorem standsAs_ofWord (hname : isName text) (hrest : ∀ d ∈ rest.head?, isNamePart d = false) :
    (Lexeme.ofWord (String.ofList text)).StandsAs text rest := by
  have htext : (String.ofList text).toList = text := String.toList_ofList
  unfold Lexeme.ofWord
  split
  · next k hk =>
    have hkeyword := Lexeme.StandsAs.keyword (k := k) hrest
    rwa [Keyword.text_of_ofText? hk, htext] at hkeyword
  · next hk =>
    have hfree : ∀ k : Keyword, k.text ≠ String.ofList text := by
      intro k hkeyword
      rw [← hkeyword, Keyword.ofText?_text] at hk
      exact absurd hk (by simp)
    have hidentifier := @Lexeme.StandsAs.identifier _ rest (by rwa [htext]) hfree hrest
    rwa [htext] at hidentifier

theorem head?_dropWhile_eq_false {p : Char → Bool} :
    ∀ d ∈ (cs.dropWhile p).head?, p d = false := by
  intro d hd
  have hhead := List.head?_dropWhile_not p cs
  rw [hd] at hhead
  simpa using hhead

/-- **What is taken off the front is a filler, or a lexeme that stands there.** -/
theorem munch_isPiece : (munch rules c cs).IsPiece rules := by
  by_cases hbreak : isLineBreak c
  · rw [munch_lineBreak hbreak]
    exact .newline ((splitLineBreak_eq_iff hbreak).mp rfl).2
  unfold munch
  split
  · next hc => exact .blank hc
  split
  · next hcomment =>
    exact munchComment_isPiece (by simpa using (Bool.and_eq_true_iff.mp hcomment).2)
  split
  · next p hp =>
    rw [← Punct.char_of_ofChar? hp]
    exact .punct
  split
  · exact munchString_isPiece
  split
  · next hdigit =>
    have hrun : ∀ d ∈ c :: cs.takeWhile Char.isDigit, d.isDigit :=
      List.forall_mem_cons.mpr ⟨hdigit, List.all_eq_true.mp List.all_takeWhile⟩
    have hinteger := @Lexeme.StandsAs.integer (String.ofList (c :: cs.takeWhile Char.isDigit))
      (cs.dropWhile Char.isDigit)
      (by rw [String.toList_ofList]; simp) (by rwa [String.toList_ofList]) head?_dropWhile_eq_false
    rwa [String.toList_ofList] at hinteger
  split
  · next hstart => exact standsAs_ofWord (by simp [isName, hstart]) head?_dropWhile_eq_false
  · trivial

/-- **A gap is taken off the front exactly where a filler stands there.** -/
theorem munch_eq_gap_iff :
    munch rules c cs = .gap text rest ↔ text ++ rest = c :: cs ∧ IsFiller rules text rest := by
  refine ⟨fun h => ⟨(munch_text (by rw [h]; rfl)).1, ?_⟩, fun h => h.2.munch h.1⟩
  have hpiece := @munch_isPiece rules c cs
  rwa [h] at hpiece

/-- **A lexeme is taken off the front exactly where it stands there.** -/
theorem munch_eq_lexeme_iff :
    munch rules c cs = .lexeme l text rest ↔ text ++ rest = c :: cs ∧ l.StandsAs text rest := by
  refine ⟨fun h => ⟨(munch_text (by rw [h]; rfl)).1, ?_⟩, fun h => h.2.munch h.1⟩
  have hpiece := @munch_isPiece rules c cs
  rwa [h] at hpiece

end SchemaLang
