/-
# Places are counted

The scanner moves its place along from piece to piece.  Here a place is counted from the text and
an offset alone (`placeAt`): the line is one more than the number of line breaks in front of the
offset, and the column one more than the number of characters since the last of them.  Nothing in
this refers to pieces, dialects or to how the scanner gets there.

The two meet at every offset that parts no carriage return from its line feed (`past_placeAt`), and
the scanner never stops at any other.  So each token is at the place of the offset where its text
starts, the end of the text at the place behind all characters, and a fault at the place of the
character, the quote or the slashes that it is about (`scan_placed`).
-/
import SchemaLang.Proofs.Scanner.Segments

namespace SchemaLang

open Text

/-! ## 1. Counting -/

/-- A line break ends with the character at that offset: a line feed, or a carriage return that has
no line feed behind it. -/
def endsBreakAt (cs : List Char) (i : Nat) : Bool :=
  cs[i]? == some '\n' || cs[i]? == some '\r' && cs[i + 1]? != some '\n'

/-- How many line breaks are in front of an offset. -/
def breaksBefore (cs : List Char) (n : Nat) : Nat := (List.range n).countP (endsBreakAt cs)

/-- How many characters are between the last line break in front of an offset, or the start of the
text, and the offset: as many as can be passed going back. -/
def sinceBreak (cs : List Char) (n : Nat) : Nat :=
  ((List.range n).reverse.takeWhile (!endsBreakAt cs ·)).length

/-- The place of an offset. -/
def placeAt (cs : List Char) (n : Nat) : Position :=
  ⟨1 + breaksBefore cs n, 1 + sinceBreak cs n⟩

example : placeAt "a\r\n\r\tb".toList 5 = ⟨3, 2⟩ := by decide

theorem placeAt_succ_of_break {cs : List Char} {n : Nat} (h : endsBreakAt cs n = true) :
    placeAt cs (n + 1) = (placeAt cs n).nextLine := by
  simp [placeAt, breaksBefore, sinceBreak, List.range_succ, h, Position.nextLine, Nat.add_assoc]

theorem placeAt_succ_of_no_break {cs : List Char} {n : Nat} (h : endsBreakAt cs n = false) :
    placeAt cs (n + 1) = (placeAt cs n).nextColumn := by
  simp [placeAt, breaksBefore, sinceBreak, List.range_succ, h, Position.nextColumn, Nat.add_assoc]

/-- What is at an offset is told by the characters behind it. -/
theorem endsBreakAt_of_drop {cs behind : List Char} {c : Char} {n : Nat}
    (h : cs.drop n = c :: behind) :
    endsBreakAt cs n = (c == '\n' || c == '\r' && behind.head? != some '\n') := by
  have hfirst : cs[n]? = some c := by
    rw [← Nat.add_zero n, ← List.getElem?_drop, h]
    rfl
  have hsecond : cs[n + 1]? = behind.head? := by
    rw [← List.getElem?_drop, h, List.getElem?_cons_succ, List.head?_eq_getElem?]
  rw [endsBreakAt, hfirst, hsecond]
  rfl

theorem CutsNoBreak.of_cons {c : Char} {front behind : List Char}
    (h : CutsNoBreak (c :: front) behind) : CutsNoBreak front behind := by
  intro hlast
  exact h (by rw [List.getLast?_cons, hlast]; rfl)

/-- A carriage return at the front is a whole break, unless the cut or the text has a line feed
behind it. -/
theorem CutsNoBreak.head?_ne {front behind : List Char} (h : CutsNoBreak ('\r' :: front) behind)
    (hfront : front.head? ≠ some '\n') : (front ++ behind).head? ≠ some '\n' := by
  cases front with
  | nil => exact h rfl
  | cons d ds => simpa using hfront

theorem head?_ne_feed {cs : List Char} (h : ∀ ds, cs = '\n' :: ds → False) :
    cs.head? ≠ some '\n' := by
  intro hhead
  obtain ⟨ds, hds⟩ := List.head?_eq_some_iff.mp hhead
  exact h ds hds

/-- A line break ends with a character that is one, unless a line feed goes on with it. -/
theorem endsBreakAt_eq_isLineBreak {cs front behind : List Char} {c : Char} {n : Nat}
    (hcs : cs.drop n = c :: (front ++ behind)) (h : CutsNoBreak (c :: front) behind)
    (hfront : c = '\r' → front.head? ≠ some '\n') : endsBreakAt cs n = isLineBreak c := by
  rw [endsBreakAt_of_drop hcs]
  by_cases hc : c = '\r'
  · subst hc
    simpa [isLineBreak] using h.head?_ne (hfront rfl)
  · have hreturn : (c == '\r') = false := by simpa using hc
    simp [isLineBreak, hreturn]

/-- **A place that is moved along stays the place of its offset**, unless the move parts a carriage
return from its line feed. -/
theorem past_placeAt {cs front behind : List Char} {n : Nat} (hcs : cs.drop n = front ++ behind)
    (h : CutsNoBreak front behind) :
    (placeAt cs n).past front = placeAt cs (n + front.length) := by
  generalize hp : placeAt cs n = p
  fun_induction Position.past p front generalizing n with
  | case1 p => exact hp.symm
  | case2 p front ih =>
    -- both characters are one break, which ends with the second of them
    have hfeed : cs.drop (n + 1) = '\n' :: (front ++ behind) := by
      rw [← List.drop_drop, hcs]
      rfl
    have hbehind : cs.drop (n + 2) = front ++ behind := by
      rw [← List.drop_drop, hcs]
      rfl
    have hreturn : placeAt cs (n + 1) = (placeAt cs n).nextColumn :=
      placeAt_succ_of_no_break (by rw [endsBreakAt_of_drop hcs]; rfl)
    have hplace : placeAt cs (n + 2) = (placeAt cs (n + 1)).nextLine :=
      placeAt_succ_of_break (by rw [endsBreakAt_of_drop hfeed]; rfl)
    rw [hreturn, hp] at hplace
    rw [ih hbehind h.of_cons.of_cons hplace, List.length_cons, List.length_cons]
    congr 1
    omega
  | case3 p c front hne ih =>
    have hbehind : cs.drop (n + 1) = front ++ behind := by
      rw [← List.drop_drop, hcs]
      rfl
    have hfront : c = '\r' → front.head? ≠ some '\n' :=
      fun hreturn => head?_ne_feed fun ds hds => hne ds hreturn hds
    have hends : endsBreakAt cs n = isLineBreak c := endsBreakAt_eq_isLineBreak hcs h hfront
    have hplace : placeAt cs (n + 1) = if isLineBreak c then p.nextLine else p.nextColumn := by
      split
      · next hc => rw [placeAt_succ_of_break (hends.trans hc), hp]
      · next hc => rw [placeAt_succ_of_no_break (hends.trans (by simpa using hc)), hp]
    rw [ih hbehind h.of_cons hplace, List.length_cons, Nat.add_assoc, Nat.add_comm 1]

/-! ## 2. The offsets of segments -/

variable {rules : Rules} {rest : List Char}

/-- The offsets at which the lexemes of segments start, the first gap being at `offset`. -/
def startsFrom (offset : Nat) : List Segment → List Nat
  | [] => []
  | s :: ss => (offset + s.gap.length) :: startsFrom (offset + s.chars.length) ss

theorem le_of_mem_startsFrom {ss : List Segment} {n o : Nat} (ho : o ∈ startsFrom n ss) :
    n ≤ o := by
  induction ss generalizing n with
  | nil => exact absurd ho (by simp [startsFrom])
  | cons s ss ih =>
    rcases List.mem_cons.mp ho with rfl | ho
    · exact Nat.le_add_right _ _
    · exact Nat.le_trans (Nat.le_add_right _ _) (ih ho)

/-- **The offsets grow** from one segment to the next, and up to the end of the last. -/
theorem Segmented.pairwise_startsFrom {ss : List Segment} (h : Segmented rules ss rest)
    {n stop : Nat} (hstop : n + (charsOf ss).length ≤ stop) :
    (startsFrom n ss ++ [stop]).Pairwise (· < ·) := by
  induction ss generalizing n with
  | nil => simp [startsFrom]
  | cons s ss ih =>
    obtain ⟨-, hlexeme, hss⟩ := h
    have htext : 0 < s.text.length := List.length_pos_iff.mpr hlexeme.ne_nil
    have hchars : s.chars.length = s.gap.length + s.text.length := List.length_append
    have hbehind : n + s.chars.length + (charsOf ss).length ≤ stop := by
      rw [charsOf_cons, List.length_append, List.length_append] at hstop
      omega
    refine List.pairwise_cons.mpr ⟨?_, ih hss hbehind⟩
    intro o ho
    rcases List.mem_append.mp ho with ho | ho
    · have hle := le_of_mem_startsFrom ho
      omega
    · obtain rfl := List.mem_singleton.mp ho
      omega

theorem Segmented.cutsNoBreak {ss : List Segment} (h : Segmented rules ss rest) :
    CutsNoBreak (charsOf ss) rest := by
  induction ss with
  | nil => exact fun hlast => absurd hlast (by simp)
  | cons s ss ih =>
    obtain ⟨-, hlexeme, hss⟩ := h
    have hsplit : charsOf (s :: ss) = s.chars ++ charsOf ss := rfl
    by_cases hnil : charsOf ss = []
    · rw [hnil] at hlexeme
      rw [hsplit, hnil, List.append_nil]
      exact hlexeme.chars_cutsNoBreak
    · intro hlast
      rw [hsplit, List.getLast?_append_of_ne_nil _ hnil] at hlast
      exact ih hss hlast

/-- **The tokens of segments are at the places of their offsets.** -/
theorem Segmented.map_pos_tokensFrom {ss : List Segment} (h : Segmented rules ss rest)
    {cs : List Char} {n : Nat} (hcs : cs.drop n = charsOf ss ++ rest) :
    (tokensFrom (placeAt cs n) ss).map Token.pos = (startsFrom n ss).map (placeAt cs) := by
  induction ss generalizing n with
  | nil => rfl
  | cons s ss ih =>
    obtain ⟨hgap, hlexeme, hss⟩ := h
    have hfront : cs.drop n = s.gap ++ (s.text ++ (charsOf ss ++ rest)) := by simpa using hcs
    have hwhole : cs.drop n = s.chars ++ (charsOf ss ++ rest) := by
      simpa [Segment.chars] using hfront
    have hbehind : cs.drop (n + s.chars.length) = charsOf ss ++ rest := by
      rw [← List.drop_drop, hwhole, List.drop_left]
    simp only [tokensFrom, startsFrom, List.map_cons]
    rw [past_placeAt hfront hgap.cutsNoBreak, past_placeAt hwhole hlexeme.chars_cutsNoBreak,
      ih hss hbehind]

/-- Behind segments and a gap the scanner is at the place of its offset. -/
theorem Segmented.past_gap {ss : List Segment} {gap : List Char}
    (h : Segmented rules ss (gap ++ rest)) (hgap : IsGap rules gap rest) :
    (Position.start.past (charsOf ss)).past gap =
      placeAt (charsOf ss ++ (gap ++ rest)) (charsOf ss ++ gap).length := by
  have hfront : Position.start.past (charsOf ss) =
      placeAt (charsOf ss ++ (gap ++ rest)) (charsOf ss).length := by
    have hplace := @past_placeAt (charsOf ss ++ (gap ++ rest)) _ _ 0 rfl h.cutsNoBreak
    rwa [Nat.zero_add] at hplace
  have hbehind : (charsOf ss ++ (gap ++ rest)).drop (charsOf ss).length = gap ++ rest :=
    List.drop_left
  rw [hfront, past_placeAt hbehind hgap.cutsNoBreak, List.length_append]

/-! ## 3. Where the scanner stops -/

/-- **Places count line breaks and characters.**  A text is segments, a gap and what the scanner
stops at, which is the end of the text or a fault.  The tokens are the lexemes of the segments, one
each, at the places of the offsets where the texts of these lexemes start.  What the scanner stops
at is at the place of its own offset, and the offsets grow. -/
theorem scan_placed (d : Dialect) (source : String) :
    ∃ (ss : List Segment) (gap rest : List Char) (ts : List Token) (ending : TokenStream),
      charsOf ss ++ gap ++ rest = source.toList ∧ Segmented d.rules ss (gap ++ rest) ∧
      IsGap d.rules gap rest ∧ scan d.rules source = .prepend ts ending ∧
      ts.map Token.lexeme = ss.map Segment.lexeme ∧
      ts.map Token.pos = (startsFrom 0 ss).map (placeAt source.toList) ∧
      (startsFrom 0 ss ++ [(charsOf ss ++ gap).length]).Pairwise (· < ·) ∧
      (rest = [] ∧ ending = .done (placeAt source.toList (charsOf ss ++ gap).length) ∨
        ∃ cause, cause.StandsAt d.rules rest ∧
          ending = .fault ⟨cause, placeAt source.toList (charsOf ss ++ gap).length⟩) := by
  obtain ⟨ss, gap, rest, hchars, hss, hgap, hend⟩ := exists_segmented d.rules source.toList
  have hwhole : charsOf ss ++ gap ++ rest = source.toList := by rw [List.append_assoc, hchars]
  have hscan : scan d.rules source = .prepend (tokensFrom .start ss)
      (scanFrom d.rules (placeAt source.toList (charsOf ss ++ gap).length) rest) := by
    rw [← hchars, ← hss.past_gap hgap, ← hgap.scanFrom, ← hss.scanFrom, hchars, scan]
  refine ⟨ss, gap, rest, tokensFrom .start ss, _, hwhole, hss, hgap, hscan,
    lexemesOf_tokensFrom .start ss, hss.map_pos_tokensFrom (n := 0) hchars.symm,
    hss.pairwise_startsFrom ?_, ?_⟩
  · rw [Nat.zero_add, List.length_append]
    exact Nat.le_add_right _ _
  · cases rest with
    | nil => exact .inl ⟨rfl, scanFrom_nil⟩
    | cons c cs =>
      obtain ⟨cause, hfault⟩ := hend c cs rfl
      exact .inr ⟨cause, munch_eq_fault_iff.mp hfault, scanFrom_fault hfault⟩

end SchemaLang
