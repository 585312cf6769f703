/-
# Texts that grow

Text that is put behind a text leaves its tokens as they are, but for the last.  A word or an
integer may be the beginning of a longer one, and a carriage return may be half of a line break
(`Lexeme.GoesOn`).  All that is so only where nothing is behind the token: one character is enough to
tell that it is complete, and whether the text behind it is at fault does not matter.

The segments of a text carry this, as each of them stands in front of all that is behind it.  They
stay where the first character behind them does, so what is read of a text is told by what is read
and one character more (`Segmented.read_eq`).
-/
import SchemaLang.Proofs.Scanner.Segments

namespace SchemaLang

open Text

variable {rules : Rules} {text behind more : List Char} {l : Lexeme} {c : Char} {ss : List Segment}

/-! ## 1. What a lexeme goes on with -/

/-- The lexeme is a longer one where the character is behind its text: a word goes on with what a
name goes on with, an integer with a digit, and a carriage return with a line feed. -/
inductive Lexeme.GoesOn : Lexeme → List Char → Char → Prop
  | keyword {k : Keyword} {text : List Char} {c : Char} (hc : isNamePart c) :
      GoesOn (keyword k) text c
  | identifier {name : String} {text : List Char} {c : Char} (hc : isNamePart c) :
      GoesOn (identifier name) text c
  | integer {digits : String} {text : List Char} {c : Char} (hc : c.isDigit) :
      GoesOn (integer digits) text c
  | lone : GoesOn newline ['\r'] '\n'

/-- What is put behind a lexeme goes on with it, or leaves it as it is. -/
theorem Lexeme.StandsAs.grow_cases (h : l.StandsAs text []) (more : List Char) :
    l.StandsAs text more ∨ ∃ c ∈ more.head?, l.GoesOn text c := by
  refine or_iff_not_imp_right.mpr fun hstop => ?_
  have hfree : ∀ c ∈ more.head?, ¬l.GoesOn text c := fun c hc hgoes => hstop ⟨c, hc, hgoes⟩
  cases h with
  | keyword =>
    refine .keyword fun c hc => ?_
    simpa using fun hpart => hfree c hc (.keyword hpart)
  | identifier hname hword =>
    refine .identifier hname hword fun c hc => ?_
    simpa using fun hpart => hfree c hc (.identifier hpart)
  | integer hne hdigits =>
    refine .integer hne hdigits fun c hc => ?_
    simpa using fun hdigit => hfree c hc (.integer hdigit)
  | string hbody => exact .string hbody
  | punct => exact .punct
  | newline hbreak =>
    cases hbreak with
    | returnFeed => exact .newline .returnFeed
    | feed => exact .newline .feed
    | lone => exact .newline (.lone fun hfeed => hfree _ hfeed .lone)

theorem isName_append {run : List Char} (h : isName text) (hrun : ∀ c ∈ run, isNamePart c) :
    isName (text ++ run) := by
  cases text with
  | nil => exact absurd h (by simp [isName])
  | cons c cs =>
    simp only [isName, Bool.and_eq_true, List.all_eq_true] at h
    simp only [List.cons_append, isName, Bool.and_eq_true, List.all_eq_true]
    exact ⟨h.1, List.forall_mem_append.mpr ⟨h.2, hrun⟩⟩

/-- A run of characters that goes on with the first of them starts with it. -/
theorem append_takeWhile_cons {p : Char → Bool} (hc : p c) :
    text ++ [c] <+: text ++ (c :: more).takeWhile p := by
  rw [List.takeWhile_cons_of_pos hc]
  exact (List.prefix_append_right_inj text).mpr ⟨_, rfl⟩

/-- A name with more of a name behind it is a longer word. -/
theorem exists_longer_word (hname : isName text) (hc : isNamePart c) (more : List Char) :
    ∃ l longer rest, text ++ c :: more = longer ++ rest ∧ text ++ [c] <+: longer ∧
      Lexeme.StandsAs l longer rest := by
  have hrun : ∀ d ∈ (c :: more).takeWhile isNamePart, isNamePart d :=
    List.all_eq_true.mp List.all_takeWhile
  refine ⟨_, text ++ (c :: more).takeWhile isNamePart, (c :: more).dropWhile isNamePart, ?_,
    append_takeWhile_cons hc, standsAs_ofWord (isName_append hname hrun) head?_dropWhile_eq_false⟩
  rw [List.append_assoc, List.takeWhile_append_dropWhile]

/-- Where a lexeme goes on with a character, a longer one stands at the same place. -/
theorem Lexeme.StandsAs.exists_longer (h : l.StandsAs text []) (hc : l.GoesOn text c)
    (more : List Char) :
    ∃ l' longer rest, text ++ c :: more = longer ++ rest ∧ text ++ [c] <+: longer ∧
      Lexeme.StandsAs l' longer rest := by
  cases hc with
  | @keyword k _ _ hpart =>
    cases h with
    | keyword => exact exists_longer_word k.isName_text hpart more
  | identifier hpart =>
    cases h with
    | identifier hname => exact exists_longer_word hname hpart more
  | @integer digits _ _ hdigit =>
    cases h with
    | integer hne hdigits =>
      have hrun : ∀ d ∈ digits.toList ++ (c :: more).takeWhile Char.isDigit, d.isDigit :=
        List.forall_mem_append.mpr ⟨hdigits, List.all_eq_true.mp List.all_takeWhile⟩
      have hlonger := @Lexeme.StandsAs.integer
        (String.ofList (digits.toList ++ (c :: more).takeWhile Char.isDigit))
        ((c :: more).dropWhile Char.isDigit) (by rw [String.toList_ofList]; simp [hne])
        (by rwa [String.toList_ofList]) head?_dropWhile_eq_false
      rw [String.toList_ofList] at hlonger
      refine ⟨_, _, _, ?_, append_takeWhile_cons hdigit, hlonger⟩
      rw [List.append_assoc, List.takeWhile_append_dropWhile]
  | lone => exact ⟨.newline, ['\r', '\n'], more, rfl, List.prefix_refl _, .newline .returnFeed⟩

/-! ## 2. Segments of a longer text -/

/-- **Segments stay what they are in a longer text**, but for the last one, where nothing is behind
it and its lexeme goes on with the first new character. -/
theorem Segmented.grow_cases (h : Segmented rules ss []) (more : List Char) :
    Segmented rules ss more ∨
      ∃ front last c l longer rest, ss = front ++ [last] ∧ more.head? = some c ∧
        last.lexeme.GoesOn last.text c ∧ last.text ++ [c] <+: longer ∧
        charsOf ss ++ more = charsOf (front ++ [⟨last.gap, l, longer⟩]) ++ rest ∧
        Segmented rules (front ++ [⟨last.gap, l, longer⟩]) rest := by
  rcases List.eq_nil_or_concat ss with rfl | ⟨front, last, rfl⟩
  · exact .inl trivial
  rw [List.concat_eq_append] at h ⊢
  obtain ⟨hfront, hgap, hlexeme, -⟩ := segmented_append.mp h
  simp only [charsOf_nil, List.append_nil] at hgap hlexeme
  have hne : charsOf [last] ≠ [] := by simp [hlexeme.ne_nil]
  -- what is in front of a lexeme sees only its first character, and that one stays
  have hsame : ∀ tail, (last.text ++ tail).head? = last.text.head? := fun tail => by
    rw [List.head?_append_of_ne_nil _ hlexeme.ne_nil]
  rcases hlexeme.grow_cases more with hkept | ⟨c, hc, hgoes⟩
  · refine .inl (segmented_append.mpr ⟨hfront.congr (head?_append_congr hne _ _), ?_, ?_, trivial⟩)
    · exact hgap.congr (hsame more)
    · exact hkept
  · obtain ⟨cs, rfl⟩ := List.head?_eq_some_iff.mp hc
    obtain ⟨l, longer, rest, hsplit, hlonger, hstands⟩ := hlexeme.exists_longer hgoes cs
    refine .inr ⟨front, last, c, l, longer, rest, rfl, rfl, hgoes, hlonger, ?_, ?_⟩
    · simp [charsOf_append, ← hsplit]
    · have hwhole : charsOf [⟨last.gap, l, longer⟩] ++ rest = charsOf [last] ++ c :: cs := by
        simp [← hsplit]
      refine segmented_append.mpr ⟨?_, ?_, hstands, trivial⟩
      · rw [hwhole]
        exact hfront.congr (head?_append_congr hne _ _)
      · show IsGap rules last.gap (longer ++ rest)
        rw [← hsplit]
        exact hgap.congr (hsame _)

theorem Segmented.tokensFrom_prefix (h : Segmented rules ss behind) (pos : Position) :
    tokensFrom pos ss <+: (SchemaLang.scanFrom rules pos (charsOf ss ++ behind)).toList := by
  rw [h.scanFrom, TokenStream.toList_prepend]
  exact List.prefix_append _ _

theorem TokenStream.read_prepend (ts : List Token) (s : TokenStream) :
    (prepend ts s).read (some ts.length) =
      (ts.map fun t => ⟨some t.lexeme, t.pos⟩, ReadEnd.limit) := by
  induction ts with
  | nil => cases s <;> rfl
  | cons t ts ih =>
    have hcons : prepend (t :: ts) s = token t (prepend ts s) := rfl
    have hlimit : (some (ts.length + 1)).map (· - 1) = some ts.length := rfl
    rw [hcons, List.length_cons, read, hlimit, ih]
    · rfl
    · simp

theorem length_tokensFrom (pos : Position) (ss : List Segment) :
    (tokensFrom pos ss).length = ss.length := by
  induction ss generalizing pos with
  | nil => rfl
  | cons s ss ih => rw [tokensFrom, List.length_cons, ih, List.length_cons]

/-- **The tokens of segments are read alike** in front of any text that starts with the same
character. -/
theorem Segmented.read_eq {behind' : List Char} (h : Segmented rules ss behind)
    (hbehind : behind'.head? = behind.head?) (pos : Position) :
    (SchemaLang.scanFrom rules pos (charsOf ss ++ behind')).read (some ss.length) =
      (SchemaLang.scanFrom rules pos (charsOf ss ++ behind)).read (some ss.length) := by
  rw [h.scanFrom, (h.congr hbehind).scanFrom, ← length_tokensFrom pos ss,
    TokenStream.read_prepend, TokenStream.read_prepend]

/-- A text with the same characters as another one, up to the first behind some, has those in front
of it and the same one behind them. -/
theorem exists_of_take_succ_eq {front cs : List Char}
    (h : cs.take (front.length + 1) = (front ++ behind).take (front.length + 1)) :
    ∃ behind', cs = front ++ behind' ∧ behind'.head? = behind.head? := by
  have hfront : cs.take front.length = front := by
    have hless := congrArg (List.take front.length) h
    simpa [List.take_take] using hless
  refine ⟨cs.drop front.length, ?_, ?_⟩
  · conv_lhs => rw [← List.take_append_drop front.length cs, hfront]
  · have hnext := congrArg (·[front.length]?) h
    simpa [List.getElem?_take, List.getElem?_append_right, List.head?_eq_getElem?] using hnext

/-! ## 3. Texts -/

/-- **Text that is put behind a text changes no token that is complete.**  All tokens of a text are
the first tokens of any longer one, places included, unless the last of them touches the end and
goes on with the first new character.  In that case it is the only one that changes: a token that is
written longer stands in its place.  So the first tokens that are read from a text depend on what
they are written as, the gaps in front of them and one character more. -/
theorem scan_append (d : Dialect) (source : String) :
    (∃ ss behind, AreTokens d.rules source.toList ss behind) ∧
      ∀ ss behind, AreTokens d.rules source.toList ss behind →
        (∀ more : String,
          (scan d.rules source).toList <+: (scan d.rules (source ++ more)).toList ∨
            ∃ front last c l longer, ss = front ++ [last] ∧ behind = [] ∧
              more.toList.head? = some c ∧ last.lexeme.GoesOn last.text c ∧
              last.text ++ [c] <+: longer ∧
              tokensFrom .start (front ++ [⟨last.gap, l, longer⟩]) <+:
                (scan d.rules (source ++ more)).toList) ∧
        ∀ front later, ss = front ++ later → ∀ other : String,
          other.toList.take ((charsOf front).length + 1) =
              source.toList.take ((charsOf front).length + 1) →
            (scan d.rules other).read (some front.length) =
              (scan d.rules source).read (some front.length) := by
  refine ⟨exists_areTokens _ _, fun ss behind h => ⟨fun more => ?_, ?_⟩⟩
  · have htokens : (scan d.rules source).toList = tokensFrom .start ss := h.tokens .start
    have hwhole : (source ++ more).toList = charsOf ss ++ (behind ++ more.toList) := by
      rw [String.toList_append, ← h.chars, List.append_assoc]
    rw [htokens, scan, hwhole]
    by_cases hbehind : behind = []
    · have hss := h.segmented
      subst hbehind
      rcases hss.grow_cases more.toList with hkept | ⟨front, last, c, l, longer, rest, rfl, hc,
        hgoes, hlonger, hchars, hgrown⟩
      · exact .inl (hkept.tokensFrom_prefix .start)
      · refine .inr ⟨front, last, c, l, longer, rfl, rfl, hc, hgoes, hlonger, ?_⟩
        rw [List.nil_append, hchars]
        exact hgrown.tokensFrom_prefix .start
    · have hkept : Segmented d.rules ss (behind ++ more.toList) :=
        h.segmented.congr (List.head?_append_of_ne_nil _ hbehind)
      exact .inl (hkept.tokensFrom_prefix .start)
  · rintro front later rfl other htake
    obtain ⟨hfront, -⟩ := segmented_append.mp h.segmented
    have hsource : source.toList = charsOf front ++ (charsOf later ++ behind) := by
      rw [← h.chars, charsOf_append, List.append_assoc]
    rw [hsource] at htake
    obtain ⟨behind', hother, hhead⟩ := exists_of_take_succ_eq htake
    rw [scan, scan, hsource, hother]
    exact hfront.read_eq hhead .start

/-- A keyword at the end of a text stays one in front of a mark, and the name in front of it is read
as it is in front of a string that is not closed. -/
theorem scan_append_mark :
    [⟨.identifier "a", ⟨1, 1⟩⟩, ⟨.keyword .kwString, ⟨1, 3⟩⟩] <+:
        (scan Dialect.strict.rules ("a string" ++ ";")).toList ∧
      (scan Dialect.strict.rules "a \"").read (some 1) =
        (scan Dialect.strict.rules "a string").read (some 1) := by
  let name : Segment := ⟨[], .identifier "a", ['a']⟩
  let word : Segment := ⟨[' '], .keyword .kwString, Keyword.kwString.text.toList⟩
  have hblank : ∀ c ∈ " string".toList.head?, isNamePart c = false := by
    intro c hc
    obtain rfl : ' ' = c := by simpa using hc
    decide
  have hname : name.lexeme.StandsAs name.text " string".toList :=
    @Lexeme.StandsAs.identifier "a" _ (by decide) (fun k => by cases k <;> decide) hblank
  have hgap : IsGap Dialect.strict.rules word.gap word.text :=
    @IsGap.cons _ [' '] [] _ (.blank (by decide)) .nil
  have hss : Segmented Dialect.strict.rules [name, word] [] :=
    ⟨.nil, hname, hgap, .keyword (by simp), trivial⟩
  have hcut : AreTokens Dialect.strict.rules "a string".toList [name, word] [] := {
    chars := by decide
    segmented := hss
    tokens := fun pos => by
      have hscan := hss.scanFrom pos
      rw [List.append_nil, scanFrom_nil] at hscan
      have hchars : "a string".toList = charsOf [name, word] := by decide
      rw [hchars, hscan, TokenStream.toList_prepend]
      exact List.append_nil _ }
  obtain ⟨happend, hread⟩ := (scan_append .strict "a string").2 _ _ hcut
  refine ⟨?_, hread [name] [word] rfl "a \"" (by decide)⟩
  have htokens := hcut.tokens .start
  rcases happend ";" with hkept | ⟨front, last, c, l, longer, hlast, -, hc, hgoes, -⟩
  · rwa [scan, htokens] at hkept
  · obtain rfl : word = last := by
      have hend := congrArg List.getLast? hlast
      simpa using hend
    obtain rfl : ';' = c := by simpa using hc
    cases hgoes with
    | keyword hpart => exact absurd hpart (by decide)

end SchemaLang
