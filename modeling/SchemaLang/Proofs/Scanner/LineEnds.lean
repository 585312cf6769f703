/-
# How lines end does not matter

A line ends in a line feed, in a carriage return, or in both.  Writing every line end as a single
line feed (`normalizeLineEnds`) shortens a text, so no offset behind the first line end stays what
it was; but lines and columns do (`past_normalizeLineEnds`), since no column counts a line end.

A filler stays a filler when the line ends in it and behind it are written anew, a lexeme stays that
lexeme, and a fault stays that fault: nothing but a line break has a line end in it, and what is
behind a piece is only asked whether it is a line end.  So the scanner takes the same steps with
both texts (`scanFrom_normalizeLineEnds`), and so does the grammar.
-/
import SchemaLang.Document.Parse
import SchemaLang.Proofs.Scanner.Offsets
import SchemaLang.Text.Utf8

namespace SchemaLang

open Text

variable {rules : Rules} {text rest : List Char} {l : Lexeme} {c : Char} {cs : List Char}

/-! ## 1. Writing line ends anew -/

theorem normalizeLineEnds_cons_of_not_break (hc : isLineBreak c = false) (cs : List Char) :
    normalizeLineEnds (c :: cs) = c :: normalizeLineEnds cs := by
  refine normalizeLineEnds_cons ?_ cs
  rintro rfl
  exact absurd hc (by decide)

/-- A text without line ends stays as it is. -/
theorem normalizeLineEnds_of_no_break (h : ∀ c ∈ text, isLineBreak c = false) (rest : List Char) :
    normalizeLineEnds (text ++ rest) = text ++ normalizeLineEnds rest := by
  induction text with
  | nil => rfl
  | cons c cs ih =>
    obtain ⟨hc, hcs⟩ := List.forall_mem_cons.mp h
    rw [List.cons_append, normalizeLineEnds_cons_of_not_break hc, ih hcs, List.cons_append]

theorem normalizeLineEnds_eq_self (h : ∀ c ∈ text, isLineBreak c = false) :
    normalizeLineEnds text = text := by
  have happend := normalizeLineEnds_of_no_break h []
  rwa [List.append_nil, normalizeLineEnds_nil, List.append_nil] at happend

/-- **Two texts are written anew one by one**, unless the cut parts a carriage return from its line
feed. -/
theorem normalizeLineEnds_append (h : CutsNoBreak text rest) :
    normalizeLineEnds (text ++ rest) = normalizeLineEnds text ++ normalizeLineEnds rest := by
  fun_induction normalizeLineEnds text with
  | case1 cs ih =>
    rw [List.cons_append, List.cons_append, normalizeLineEnds_pair, ih h.of_cons.of_cons,
      List.cons_append]
  | case2 cs hne ih =>
    have hhead := h.head?_ne (head?_ne_feed hne)
    rw [List.cons_append, normalizeLineEnds_return hhead, ih h.of_cons, List.cons_append]
  | case3 c cs hpair hc ih =>
    rw [List.cons_append, normalizeLineEnds_cons hc, ih h.of_cons, List.cons_append]
  | case4 => rfl

/-- The character at the front is written anew. -/
theorem head?_normalizeLineEnds (cs : List Char) :
    (normalizeLineEnds cs).head? = cs.head?.map fun c => if isLineBreak c then '\n' else c := by
  fun_cases normalizeLineEnds cs with
  | case1 cs => rfl
  | case2 cs => rfl
  | case3 c cs hpair hc =>
    by_cases hfeed : c = '\n'
    · subst hfeed
      rfl
    · have hreturn : c ≠ '\r' := hc
      simp [isLineBreak, hfeed, hreturn]
  | case4 => rfl

/-- **Lines and columns stay**, whatever the line ends are. -/
theorem past_normalizeLineEnds (p : Position) (cs : List Char) :
    p.past (normalizeLineEnds cs) = p.past cs := by
  fun_induction normalizeLineEnds cs generalizing p with
  | case1 cs ih =>
    rw [Position.past_cons _ (fun hreturn => absurd hreturn (by decide)), ih]
    rfl
  | case2 cs hne ih =>
    have hreturn : '\r' = '\r' → cs.head? ≠ some '\n' := fun _ => head?_ne_feed hne
    rw [Position.past_cons _ (fun hreturn => absurd hreturn (by decide)),
      Position.past_cons _ hreturn, ih]
    rfl
  | case3 c cs hpair hc ih =>
    rw [Position.past_cons _ (fun hreturn => absurd hreturn hc),
      Position.past_cons _ (fun hreturn => absurd hreturn hc), ih]
  | case4 => rfl

/-! ## 2. Pieces with their line ends written anew -/

/-- What a class that no line break is in says of the first character behind a piece stays. -/
theorem forall_head?_normalizeLineEnds {p : Char → Bool} (hfeed : p '\n' = false)
    (h : ∀ c ∈ rest.head?, p c = false) : ∀ c ∈ (normalizeLineEnds rest).head?, p c = false := by
  intro c hc
  rw [head?_normalizeLineEnds] at hc
  obtain ⟨d, hd, rfl⟩ := Option.map_eq_some_iff.mp hc
  split
  · exact hfeed
  · exact h d hd

/-- In front of a line break is in front of a line break. -/
theorem exists_break_normalizeLineEnds (h : ∃ b ∈ rest.head?, isLineBreak b) :
    ∃ b ∈ (normalizeLineEnds rest).head?, isLineBreak b := by
  obtain ⟨b, hb, hbreak⟩ := h
  refine ⟨'\n', ?_, by decide⟩
  rw [head?_normalizeLineEnds, hb]
  simp [hbreak]

/-- A whole line break is written as a line feed. -/
theorem IsBreak.normalizeLineEnds (h : IsBreak text rest) :
    Text.normalizeLineEnds text = ['\n'] := by
  cases h <;> rfl

/-- **A filler stays one.** -/
theorem IsFiller.normalizeLineEnds (h : IsFiller rules text rest) :
    IsFiller rules (Text.normalizeLineEnds text) (Text.normalizeLineEnds rest) := by
  cases h with
  | blank hc =>
    rw [normalizeLineEnds_cons_of_not_break (not_isLineBreak_of_isBlank hc)]
    exact .blank hc
  | comment hkeeps hbody hbreak =>
    rw [normalizeLineEnds_eq_self (no_break_slashes hbody)]
    exact .comment hkeeps hbody (exists_break_normalizeLineEnds hbreak)
  | @line body ending _ htakes hbody hending =>
    have htext := normalizeLineEnds_of_no_break (no_break_slashes hbody) ending
    rw [List.cons_append, List.cons_append, hending.normalizeLineEnds] at htext
    rw [htext]
    exact .line htakes hbody .feed
  | lastLine htakes hbody =>
    rw [normalizeLineEnds_eq_self (no_break_slashes hbody)]
    exact .lastLine htakes hbody

/-- **A lexeme stays that lexeme.** -/
theorem Lexeme.StandsAs.normalizeLineEnds (h : l.StandsAs text rest) :
    l.StandsAs (Text.normalizeLineEnds text) (Text.normalizeLineEnds rest) := by
  by_cases hl : l = .newline
  · subst hl
    cases h with
    | newline hbreak =>
      rw [hbreak.normalizeLineEnds]
      exact .newline .feed
  · rw [normalizeLineEnds_eq_self (h.no_break hl)]
    cases h with
    | keyword hrest => exact .keyword (forall_head?_normalizeLineEnds (by decide) hrest)
    | identifier hname hfree hrest =>
      exact .identifier hname hfree (forall_head?_normalizeLineEnds (by decide) hrest)
    | integer hne hdigits hrest =>
      exact .integer hne hdigits (forall_head?_normalizeLineEnds (by decide) hrest)
    | string hbody => exact .string hbody
    | punct => exact .punct
    | newline => exact absurd rfl hl

/-- **A fault stays that fault.** -/
theorem LexicalCause.StandsAt.normalizeLineEnds {cause : LexicalCause}
    (h : cause.StandsAt rules cs) : cause.StandsAt rules (Text.normalizeLineEnds cs) := by
  cases h with
  | @character c behind hodd hcomment =>
    have hbreak : isLineBreak c = false := by
      cases hc : isLineBreak c with
      | false => rfl
      | true => exact absurd hodd (by simp [isOdd, hc])
    rw [normalizeLineEnds_cons_of_not_break hbreak]
    refine .character hodd fun hslash => hcomment ⟨hslash.1, ?_⟩
    have hhead := hslash.2
    rw [head?_normalizeLineEnds] at hhead
    obtain ⟨d, hd, hslash⟩ := Option.map_eq_some_iff.mp hhead
    split at hslash
    · exact absurd hslash (by decide)
    · rwa [hslash] at hd
  | @string body behind hbody hbehind =>
    have hline : ∀ c ∈ body, isLineBreak c = false :=
      fun c hc => not_isLineBreak_of_isStringPart (hbody c hc)
    rw [normalizeLineEnds_cons_of_not_break (by decide), normalizeLineEnds_of_no_break hline]
    refine .string hbody fun b hb => ?_
    rw [head?_normalizeLineEnds] at hb
    obtain ⟨d, hd, rfl⟩ := Option.map_eq_some_iff.mp hb
    rw [if_pos (hbehind d hd)]
    decide
  | comment hkeeps hbody =>
    rw [normalizeLineEnds_eq_self (no_break_slashes hbody)]
    exact .comment hkeeps hbody

/-! ## 3. The scanner takes the same steps -/

/-- **A text with its line ends written anew** has the same tokens at the same places, and the same
end. -/
theorem scanFrom_normalizeLineEnds (rules : Rules) (pos : Position) (cs : List Char) :
    scanFrom rules pos (normalizeLineEnds cs) = scanFrom rules pos cs := by
  fun_induction scanFrom rules pos cs with
  | case1 pos => rw [normalizeLineEnds_nil, scanFrom_nil]
  | case2 pos c cs text rest h ih =>
    obtain ⟨htext, hfiller⟩ := munch_eq_gap_iff.mp h
    rw [← htext, normalizeLineEnds_append hfiller.cutsNoBreak, hfiller.normalizeLineEnds.scanFrom,
      past_normalizeLineEnds, ih]
  | case3 pos c cs l text rest h ih =>
    obtain ⟨htext, hlexeme⟩ := munch_eq_lexeme_iff.mp h
    rw [← htext, normalizeLineEnds_append hlexeme.cutsNoBreak,
      hlexeme.normalizeLineEnds.scanFrom, past_normalizeLineEnds, ih]
  | case4 pos c cs cause h =>
    have hbreak : isLineBreak c = false := by simpa using not_isLineBreak_of_fault h
    have hfault := (munch_eq_fault_iff.mp h).normalizeLineEnds
    rw [normalizeLineEnds_cons_of_not_break hbreak] at hfault ⊢
    exact scanFrom_fault (munch_eq_fault_iff.mpr hfault)

/-- **How lines end does not matter.**  A text in which every line end is written as a single line
feed has the same tokens with the same lines and columns, or the same fault behind the same tokens,
and it makes the same document or fails in the same way. -/
theorem scan_parse_normalizeLineEnds (d : Dialect) (source : String) :
    scan d.rules (String.ofList (normalizeLineEnds source.toList)) = scan d.rules source ∧
      Document.parse d (String.ofList (normalizeLineEnds source.toList)) =
        Document.parse d source := by
  have hscan : scan d.rules (String.ofList (normalizeLineEnds source.toList)) =
      scan d.rules source := by
    rw [scan, String.toList_ofList, scanFrom_normalizeLineEnds, scan]
  refine ⟨hscan, ?_⟩
  rw [Document.parse, hscan, Document.parse]

end SchemaLang
