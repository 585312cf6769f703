/-
# Line breaks and the ends of comments

The scanner asks the dialect in one place, behind a comment (`munch_cases`).  The legacy dialect
takes the line break there along, so its lexemes are those of the strict one with some breaks
left out.  Leaving a break out does no harm to the layout of a text: every break that is left is
still behind something that ends a line (`legacy_of_strict`).

A comment that has no break behind it is the last thing in its text.  Only the strict dialect finds
fault with it, and with nothing else that the legacy dialect lets pass (`strict_of_legacy`).  That a
text ends so is said of its characters alone (`Inside.past`).
-/
import Mathlib.Data.List.Chain
import SchemaLang.Proofs.Scanner.Dialects

namespace SchemaLang

open Text

/-! ## 1. Texts that are laid out -/

/-- A line may end behind a semicolon, a brace or another line break. -/
def Lexeme.endsLine : Lexeme → Bool
  | newline => true
  | punct .semicolon => true
  | punct .lbrace => true
  | punct .rbrace => true
  | _ => false

@[simp] theorem Lexeme.endsLine_keyword (k : Keyword) : (keyword k).endsLine = false := rfl

@[simp] theorem Lexeme.endsLine_string (s : String) : (string s).endsLine = false := rfl

@[simp] theorem Lexeme.endsLine_integer (ds : String) : (integer ds).endsLine = false := rfl

@[simp] theorem Lexeme.endsLine_punct (p : Punct) :
    (punct p).endsLine = decide (p = .semicolon ∨ p = .lbrace ∨ p = .rbrace) := by
  cases p <;> rfl

/-- Every line break is the first lexeme, or stands directly behind one that ends a line. -/
def Laid (ls : List Lexeme) : Prop := ls.IsChain fun l m => m = .newline → l.endsLine

/-- All that is not a line break. -/
def substance (ls : List Lexeme) : List Lexeme := ls.filter (· ≠ .newline)

@[simp] theorem substance_nil : substance [] = [] := rfl

@[simp] theorem substance_append (ls ms : List Lexeme) :
    substance (ls ++ ms) = substance ls ++ substance ms := List.filter_append ..

@[simp] theorem substance_newline (ls : List Lexeme) :
    substance (.newline :: ls) = substance ls := rfl

theorem substance_cons {l : Lexeme} (hl : l ≠ .newline) (ls : List Lexeme) :
    substance (l :: ls) = l :: substance ls := List.filter_cons_of_pos (by simpa using hl)

theorem ne_newline_of_not_endsLine {l : Lexeme} (h : l.endsLine = false) : l ≠ .newline := by
  rintro rfl
  exact absurd h (by decide)

/-- What is left of a text once the line breaks in front of it are taken off. -/
theorem exists_breaks (ls : List Lexeme) :
    ∃ k rest, ls = List.replicate k Lexeme.newline ++ rest ∧ rest.head? ≠ some .newline := by
  induction ls with
  | nil => exact ⟨0, [], rfl, by simp⟩
  | cons l ls ih =>
    by_cases hl : l = .newline
    · obtain ⟨k, rest, hk, hrest⟩ := ih
      exact ⟨k + 1, rest, by rw [hl, hk, List.replicate_succ, List.cons_append], hrest⟩
    · exact ⟨0, l :: ls, rfl, by simpa using hl⟩

theorem substance_breaks (k : Nat) (ls : List Lexeme) :
    substance (List.replicate k Lexeme.newline ++ ls) = substance ls := by
  induction k with
  | zero => rfl
  | succ k ih => rw [List.replicate_succ, List.cons_append, substance_newline, ih]

/-- A text without substance that starts with no line break is empty. -/
theorem eq_nil_of_substance {ls : List Lexeme} (h : substance ls = [])
    (hhead : ls.head? ≠ some .newline) : ls = [] := by
  cases ls with
  | nil => rfl
  | cons l ls =>
    have hl : l ≠ .newline := by simpa using hhead
    rw [substance_cons hl] at h
    exact absurd h (by simp)

theorem Laid.of_append {ls ms : List Lexeme} (h : Laid (ls ++ ms)) : Laid ms :=
  List.IsChain.right_of_append h

/-- Behind what ends no line stands no line break. -/
theorem Laid.head_ne {l : Lexeme} {ls : List Lexeme} (h : Laid (l :: ls))
    (hl : l.endsLine = false) : ls.head? ≠ some .newline := by
  intro hhead
  have hbreak := (List.isChain_cons.mp h).1 _ hhead rfl
  rw [hl] at hbreak
  exact absurd hbreak (by decide)

/-! ## 2. One piece in both dialects -/

/-- **Either dialect takes the same piece**, but for a comment: the legacy one takes the break
behind it along, and takes a comment without one that the strict one finds fault with. -/
theorem munch_cases (c : Char) (cs : List Char) :
    (¬(c = '/' ∧ cs.head? = some '/') ∧ ∀ rules rules', munch rules c cs = munch rules' c cs) ∨
    (c = '/' ∧ cs.head? = some '/') ∧
      ((cs.dropWhile (!isLineBreak ·) = [] ∧
          munch Dialect.strict.rules c cs = .fault .unterminatedComment ∧
          munch Dialect.legacy.rules c cs = .gap (c :: cs) []) ∨
        ∃ b rest, cs.dropWhile (!isLineBreak ·) = b :: rest ∧ isLineBreak b ∧
          (∃ text, munch Dialect.strict.rules c cs = .gap text (b :: rest)) ∧
          ∃ text, munch Dialect.legacy.rules c cs =
            .gap text (splitLineBreak (b :: rest)).2) := by
  by_cases hcomment : c = '/' ∧ cs.head? = some '/'
  · refine .inr ⟨hcomment, ?_⟩
    rw [munch_comment hcomment, munch_comment hcomment]
    cases hd : cs.dropWhile (!isLineBreak ·) with
    | nil =>
      have hcs := List.takeWhile_append_dropWhile (p := (!isLineBreak ·)) (l := cs)
      rw [hd, List.append_nil] at hcs
      refine .inl ⟨rfl, ?_, ?_⟩
      · simp only [munchComment, hd]
        rfl
      · simp only [munchComment, hd, hcs, hcomment.1]
        rfl
    | cons b rest =>
      exact .inr ⟨b, rest, rfl, isLineBreak_of_dropWhile hd, ⟨_, munchComment_of_break hd⟩,
        ⟨_, munchComment_of_break hd⟩⟩
  · exact .inl ⟨hcomment, fun _ _ => munch_eq_of_not_comment hcomment⟩

/-! ## 3. What the strict dialect lets pass -/

/-- A break may be left out. -/
theorem Laid.of_newline {l : Lexeme} {ls : List Lexeme} (h : Laid (l :: .newline :: ls)) :
    Laid (l :: ls) := by
  obtain ⟨hl, hrest⟩ := List.isChain_cons_cons.mp h
  exact List.isChain_cons.mpr ⟨fun _ _ _ => hl rfl, hrest.tail⟩

/-- **The legacy dialect finds no fault where the strict one finds none**, and a text that is laid
out in the strict dialect is laid out in the legacy one, whatever is in front of it. -/
theorem legacy_of_strict (p q : Position) (cs : List Char)
    (hstrict : (scanFrom Dialect.strict.rules p cs).error? = none) :
    (scanFrom Dialect.legacy.rules q cs).error? = none ∧
      ∀ l, Laid (l :: (scanFrom Dialect.strict.rules p cs).lexemes) →
        Laid (l :: (scanFrom Dialect.legacy.rules q cs).lexemes) := by
  fun_induction scanFrom Dialect.strict.rules p cs generalizing q with
  | case1 p =>
    rw [scanFrom_nil]
    exact ⟨rfl, fun _ h => h⟩
  | case2 p c cs text rest h ih =>
    rcases munch_cases c cs with ⟨-, hsame⟩ | ⟨-, ⟨-, hfault, -⟩ | ⟨b, bs, -, hb, ⟨_, hs⟩, _, hl⟩⟩
    · rw [scanFrom_gap ((hsame _ _).trans h)]
      exact ih _ hstrict
    · exact absurd (hfault.symm.trans h) (by simp)
    · obtain ⟨-, rfl⟩ := Munch.gap.inj (hs.symm.trans h)
      -- the legacy dialect is one lexeme further on, and that lexeme is a line break
      obtain ⟨herror, hlaid⟩ := ih q hstrict
      rw [scanFrom_lexeme (@munch_lineBreak Dialect.legacy.rules b bs hb)] at herror hlaid
      rw [scanFrom_gap hl]
      obtain ⟨hlexemes, hnone⟩ := scanFrom_anywhere Dialect.legacy.rules (q.past _) (q.past _) _
      refine ⟨hnone.mp herror, fun l hl => ?_⟩
      rw [← hlexemes]
      exact (hlaid l hl).of_newline
  | case3 p c cs l text rest h ih =>
    rcases munch_cases c cs with ⟨-, hsame⟩ | ⟨-, ⟨-, hfault, -⟩ | ⟨_, _, -, -, ⟨_, hs⟩, -⟩⟩
    · rw [scanFrom_lexeme ((hsame _ _).trans h)]
      obtain ⟨herror, hlaid⟩ := ih (q.past text) hstrict
      refine ⟨herror, fun k hk => ?_⟩
      obtain ⟨hfront, hbehind⟩ := List.isChain_cons_cons.mp hk
      exact List.isChain_cons_cons.mpr ⟨hfront, hlaid l hbehind⟩
    · exact absurd (hfault.symm.trans h) (by simp)
    · exact absurd (hs.symm.trans h) (by simp)
  | case4 p c cs cause h => exact absurd hstrict (by simp [TokenStream.error?])

/-- Nothing needs to be in front. -/
theorem laid_newline_cons {ls : List Lexeme} : Laid (.newline :: ls) ↔ Laid ls :=
  ⟨List.IsChain.tail, fun h => List.isChain_cons.mpr ⟨fun _ _ _ => rfl, h⟩⟩

/-! ## 4. Texts that end inside a comment -/

/-- What a reader of characters is inside of. -/
inductive Inside
  | code | string | comment
  deriving DecidableEq, Repr

/-- What the reader is inside of behind these characters.  A comment starts with two slashes
outside of a string and ends at the next line break. -/
def Inside.past : Inside → List Char → Inside
  | inside, [] => inside
  | code, '/' :: '/' :: cs => past comment cs
  | code, '"' :: cs => past string cs
  | code, _ :: cs => past code cs
  | string, c :: cs => if isStringPart c then past string cs else past code cs
  | comment, c :: cs => if isLineBreak c then past code cs else past comment cs

/-- The text ends inside a comment. -/
def endsInComment (source : String) : Prop := Inside.code.past source.toList = .comment

namespace Inside

theorem past_code_cons {c : Char} (hquote : c ≠ '"') (hslash : c ≠ '/') (cs : List Char) :
    code.past (c :: cs) = code.past cs := by
  rw [past]
  all_goals simp_all

theorem past_code_append {text : List Char} (h : ∀ c ∈ text, c ≠ '"' ∧ c ≠ '/')
    (rest : List Char) : code.past (text ++ rest) = code.past rest := by
  induction text with
  | nil => rfl
  | cons c text ih =>
    obtain ⟨hc, htext⟩ := List.forall_mem_cons.mp h
    rw [List.cons_append, past_code_cons hc.1 hc.2, ih htext]

theorem past_string_append {text : List Char} (h : ∀ c ∈ text, isStringPart c)
    (rest : List Char) : string.past (text ++ rest) = string.past rest := by
  induction text with
  | nil => rfl
  | cons c text ih =>
    obtain ⟨hc, htext⟩ := List.forall_mem_cons.mp h
    rw [List.cons_append, past, if_pos hc, ih htext]

theorem past_comment_append {text : List Char} (h : ∀ c ∈ text, (!isLineBreak c) = true)
    (rest : List Char) : comment.past (text ++ rest) = comment.past rest := by
  induction text with
  | nil => rfl
  | cons c text ih =>
    obtain ⟨hc, htext⟩ := List.forall_mem_cons.mp h
    rw [List.cons_append, past, if_neg (by simpa using hc), ih htext]

/-- A line break ends a comment. -/
theorem past_comment_break {b : Char} (hb : isLineBreak b) (rest : List Char) :
    comment.past (b :: rest) = code.past rest := by
  rw [past, if_pos hb]

/-- The front of a text and a line feed are all that is split off. -/
theorem mem_splitLineBreak {c : Char} {cs : List Char} (hc : c ∈ (splitLineBreak cs).1) :
    c = '\n' ∨ cs.head? = some c := by
  revert hc
  fun_cases splitLineBreak cs <;> simp +contextual [or_comm, eq_comm]

/-- The line break at the front is passed whole. -/
theorem past_splitLineBreak {b : Char} (hb : isLineBreak b) (rest : List Char) :
    code.past (splitLineBreak (b :: rest)).2 = code.past (b :: rest) := by
  have hbreaks : ∀ c ∈ (splitLineBreak (b :: rest)).1, c ≠ '"' ∧ c ≠ '/' := by
    intro c hc
    have hbreak : isLineBreak c := by
      rcases mem_splitLineBreak hc with rfl | hhead
      · decide
      · rwa [← Option.some.inj hhead]
    rcases isLineBreak_iff.mp hbreak with rfl | rfl <;> decide
  rw [← splitLineBreak_text (b :: rest), past_code_append hbreaks, splitLineBreak_text]

/-- A string is passed whole. -/
theorem past_munchString {cs text rest : List Char}
    (h : (munchString cs).cut? = some (text, rest)) : string.past cs = code.past rest := by
  have hcs := List.takeWhile_append_dropWhile (p := isStringPart) (l := cs)
  unfold munchString at h
  split at h
  · next hd =>
    obtain ⟨-, rfl⟩ : _ ∧ _ := by simpa [Munch.cut?] using h
    rw [← hcs, hd, past_string_append fun _ hc => List.all_eq_true.mp List.all_takeWhile _ hc,
      past, if_neg (by decide)]
  · exact absurd h (by simp [Munch.cut?])

/-- **A piece that is no comment leaves the reader outside of strings and comments.** -/
theorem past_munch {rules : Rules} {c : Char} {cs text rest : List Char}
    (hcomment : ¬(c = '/' ∧ cs.head? = some '/'))
    (h : (munch rules c cs).cut? = some (text, rest)) : code.past (c :: cs) = code.past rest := by
  have hrun : ∀ {p : Char → Bool}, p c → p '"' = false → p '/' = false →
      code.past (c :: cs) = code.past (cs.dropWhile p) := by
    intro p hc hquote hslash
    have hp : ∀ d, p d → d ≠ '"' ∧ d ≠ '/' := by
      intro d hd
      constructor
      · rintro rfl
        exact absurd hd (by simp [hquote])
      · rintro rfl
        exact absurd hd (by simp [hslash])
    rw [past_code_cons (hp c hc).1 (hp c hc).2]
    conv_lhs => rw [← List.takeWhile_append_dropWhile (p := p) (l := cs)]
    exact past_code_append
      (fun d hd => hp d (List.all_eq_true.mp List.all_takeWhile d hd)) _
  unfold munch at h
  split at h
  · next hblank =>
    obtain ⟨-, rfl⟩ : _ ∧ _ := by simpa [Munch.cut?] using h
    rcases isBlank_iff.mp hblank with rfl | rfl <;> rfl
  split at h
  · next hc => exact absurd (by simpa using hc) hcomment
  split at h
  · next hb =>
    obtain ⟨-, rfl⟩ := Prod.mk.inj (Option.some.inj h)
    exact (past_splitLineBreak hb cs).symm
  split at h
  · next p hp =>
    obtain ⟨-, rfl⟩ : _ ∧ _ := by simpa [Munch.cut?] using h
    refine past_code_cons ?_ ?_ _
    · rintro rfl
      exact absurd hp (by simp [show Punct.ofChar? '"' = none by decide])
    · rintro rfl
      exact absurd hp (by simp [show Punct.ofChar? '/' = none by decide])
  split at h
  · next hc =>
    obtain rfl : c = '"' := by simpa using hc
    rw [past]
    exact past_munchString h
  split at h
  · next hdigit =>
    obtain ⟨-, rfl⟩ : _ ∧ _ := by simpa [Munch.cut?] using h
    exact hrun hdigit (by decide) (by decide)
  split at h
  · next hname =>
    obtain ⟨-, rfl⟩ : _ ∧ _ := by simpa [Munch.cut?] using h
    exact hrun (isNamePart_of_isNameStart hname) (by decide) (by decide)
  · exact absurd h (by simp [Munch.cut?])

/-- At two slashes the reader is inside of a comment, as far as that goes. -/
theorem past_comment {c : Char} {cs : List Char} (h : c = '/' ∧ cs.head? = some '/') :
    code.past (c :: cs) = comment.past (cs.dropWhile (!isLineBreak ·)) := by
  obtain ⟨rfl, hcs⟩ := h
  obtain ⟨ds, rfl⟩ : ∃ ds, cs = '/' :: ds := by
    cases cs with
    | nil => exact absurd hcs (by simp)
    | cons d ds => exact ⟨ds, by rw [Option.some.inj hcs]⟩
  have hslash : comment.past ('/' :: ds) = comment.past ds := by
    rw [past, if_neg (by decide)]
  rw [past, ← hslash]
  conv_lhs => rw [← List.takeWhile_append_dropWhile (p := (!isLineBreak ·)) (l := '/' :: ds)]
  exact past_comment_append (fun d hd => List.all_eq_true.mp List.all_takeWhile d hd) _

end Inside

/-! ## 5. What the legacy dialect lets pass -/

/-- **Where the legacy dialect finds no fault, the strict one finds fault only with a comment that
the text ends in.** -/
theorem strict_of_legacy (p q : Position) (cs : List Char)
    (hlegacy : (scanFrom Dialect.legacy.rules q cs).error? = none) :
    (scanFrom Dialect.strict.rules p cs).error? = none ↔ Inside.code.past cs ≠ .comment := by
  fun_induction scanFrom Dialect.legacy.rules q cs generalizing p with
  | case1 q => simp [scanFrom_nil, TokenStream.error?, Inside.past]
  | case2 q c cs text rest h ih =>
    rcases munch_cases c cs with ⟨hno, hsame⟩ | ⟨hcomment, ⟨hd, hfault, hl⟩ |
      ⟨b, bs, hd, hb, ⟨_, hs⟩, _, hl⟩⟩
    · rw [scanFrom_gap ((hsame _ _).trans h), ih _ hlegacy,
        Inside.past_munch hno (by rw [h]; rfl)]
    · have hpast := Inside.past_comment hcomment
      rw [hd] at hpast
      rw [scanFrom_fault hfault, hpast]
      simp [TokenStream.error?, Inside.past]
    · obtain ⟨-, rfl⟩ := Munch.gap.inj (hl.symm.trans h)
      have hpast := Inside.past_comment hcomment
      rw [hd, Inside.past_comment_break hb] at hpast
      have hbreak : Inside.code.past (splitLineBreak (b :: bs)).2 = Inside.code.past bs := by
        rw [Inside.past_splitLineBreak hb]
        rcases isLineBreak_iff.mp hb with rfl | rfl <;> rfl
      rw [scanFrom_gap hs, scanFrom_lexeme (munch_lineBreak hb), hpast, ← hbreak]
      exact ih _ hlegacy
  | case3 q c cs l text rest h ih =>
    rcases munch_cases c cs with ⟨hno, hsame⟩ | ⟨-, ⟨-, -, hl⟩ | ⟨_, _, -, -, -, _, hl⟩⟩
    · rw [scanFrom_lexeme ((hsame _ _).trans h), Inside.past_munch hno (by rw [h]; rfl)]
      exact ih _ hlegacy
    · exact absurd (hl.symm.trans h) (by simp)
    · exact absurd (hl.symm.trans h) (by simp)
  | case4 q c cs cause h => exact absurd hlegacy (by simp [TokenStream.error?])

end SchemaLang
