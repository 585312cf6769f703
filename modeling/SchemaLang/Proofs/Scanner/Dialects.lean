/-
# The dialects cut alike

The scanner looks at the dialect in one place only, at the end of a comment: the break behind the
comment is a lexeme or it is none, and a comment that has no break behind it is a fault or it is
none.  So where both dialects find no fault with a text, they find the same lexemes in it, line
breaks aside (`contents_eq`).
-/
import SchemaLang.Proofs.Scanner.Written

namespace SchemaLang

open Text

/-! ## 1. Places do not matter -/

/-- A fault at the start of the text. -/
def LexicalError.unplaced (e : LexicalError) : LexicalError := ⟨e.cause, .start⟩

namespace TokenStream

/-- The same stream with every place forgotten. -/
def unplaced : TokenStream → TokenStream
  | done _ => done .start
  | fault e => fault e.unplaced
  | token t rest => token ⟨t.lexeme, .start⟩ rest.unplaced

@[simp] theorem lexemes_unplaced (s : TokenStream) : s.unplaced.lexemes = s.lexemes := by
  induction s with
  | done p => rfl
  | fault e => rfl
  | token t rest ih => exact congrArg (t.lexeme :: ·) ih

@[simp] theorem error?_unplaced (s : TokenStream) :
    s.unplaced.error? = s.error?.map LexicalError.unplaced := by
  induction s with
  | done p => rfl
  | fault e => rfl
  | token t rest ih => exact ih

theorem unplaced_prepend (ts : List Token) {s s' : TokenStream}
    (h : s.unplaced = s'.unplaced) : (prepend ts s).unplaced = (prepend ts s').unplaced := by
  induction ts with
  | nil => exact h
  | cons t ts ih => exact congrArg (token ⟨t.lexeme, .start⟩) ih

end TokenStream

/-- Nothing but its places depends on the place where a text starts. -/
theorem unplaced_scanFrom (rules : Rules) (p q : Position) (cs : List Char) :
    (scanFrom rules p cs).unplaced = (scanFrom rules q cs).unplaced := by
  fun_induction scanFrom rules p cs generalizing q with
  | case1 p => rw [scanFrom_nil]; rfl
  | case2 p c cs text rest h ih =>
    rw [scanFrom_gap h]
    exact ih _
  | case3 p c cs l text rest h ih =>
    rw [scanFrom_lexeme h]
    exact congrArg (TokenStream.token ⟨l, .start⟩) (ih _)
  | case4 p c cs cause h => rw [scanFrom_fault h]; rfl

/-- In particular the lexemes of a text do not, and neither does whether it is at fault. -/
theorem scanFrom_anywhere (rules : Rules) (p q : Position) (cs : List Char) :
    (scanFrom rules p cs).lexemes = (scanFrom rules q cs).lexemes ∧
      ((scanFrom rules p cs).error? = none ↔ (scanFrom rules q cs).error? = none) := by
  have hunplaced := unplaced_scanFrom rules p q cs
  have hlexemes := congrArg TokenStream.lexemes hunplaced
  have herror := congrArg (fun s => s.error? = none) hunplaced
  exact ⟨by simpa using hlexemes, by simpa using herror⟩

/-! ## 2. Comments -/

/-- A line break is cut off whole in either dialect. -/
theorem munch_lineBreak {rules : Rules} {c : Char} {cs : List Char} (hc : isLineBreak c) :
    munch rules c cs =
      .lexeme .newline (splitLineBreak (c :: cs)).1 (splitLineBreak (c :: cs)).2 := by
  rcases isLineBreak_iff.mp hc with rfl | rfl <;> rfl

theorem munch_comment {rules : Rules} {c : Char} {cs : List Char}
    (h : c = '/' ∧ cs.head? = some '/') : munch rules c cs = munchComment rules cs := by
  obtain ⟨rfl, hcs⟩ := h
  have hslash : (cs.head? == some '/') = true := by simp [hcs]
  simp only [munch, hslash]
  rfl

/-- Elsewhere the dialect does not matter. -/
theorem munch_eq_of_not_comment {rules rules' : Rules} {c : Char} {cs : List Char}
    (h : ¬(c = '/' ∧ cs.head? = some '/')) : munch rules c cs = munch rules' c cs := by
  have hcomment : (c == '/' && cs.head? == some '/') = false := by
    rw [Bool.and_eq_false_iff]
    by_cases hc : c = '/'
    · exact .inr (by simpa using fun hcs => h ⟨hc, hcs⟩)
    · exact .inl (by simpa using hc)
  simp only [munch, hcomment, Bool.false_eq_true, if_false]

/-- A comment that has a break behind it: the legacy dialect goes on behind the break, the strict
one in front of it. -/
theorem munchComment_of_break {rules : Rules} {cs rest : List Char} {c : Char}
    (h : cs.dropWhile (!isLineBreak ·) = c :: rest) :
    munchComment rules cs =
      if rules.commentTakesLineBreak then
        .gap ('/' :: cs.takeWhile (!isLineBreak ·) ++ (splitLineBreak (c :: rest)).1)
          (splitLineBreak (c :: rest)).2
      else .gap ('/' :: cs.takeWhile (!isLineBreak ·)) (c :: rest) := by
  simp only [munchComment, h]

theorem isLineBreak_of_dropWhile {cs rest : List Char} {c : Char}
    (h : cs.dropWhile (!isLineBreak ·) = c :: rest) : isLineBreak c := by
  have hhead := List.head?_dropWhile_not (!isLineBreak ·) cs
  rw [h] at hhead
  simpa using hhead

/-! ## 3. The lexemes of both dialects -/

/-- The lexemes before the end, line breaks aside. -/
def TokenStream.contents (s : TokenStream) : List Lexeme := s.lexemes.filter (· ≠ .newline)

theorem contents_newline (pos : Position) (s : TokenStream) :
    (TokenStream.token ⟨.newline, pos⟩ s).contents = s.contents := rfl

theorem contents_anywhere (rules : Rules) (p q : Position) (cs : List Char) :
    (scanFrom rules p cs).contents = (scanFrom rules q cs).contents :=
  congrArg (List.filter _) (scanFrom_anywhere rules p q cs).1

theorem contents_scanFrom (p q : Position) (cs : List Char)
    (hlegacy : (scanFrom Dialect.legacy.rules q cs).error? = none)
    (hstrict : (scanFrom Dialect.strict.rules p cs).error? = none) :
    (scanFrom Dialect.legacy.rules q cs).contents =
      (scanFrom Dialect.strict.rules p cs).contents := by
  fun_induction scanFrom Dialect.strict.rules p cs generalizing q with
  | case1 p => rw [scanFrom_nil]; rfl
  | case2 p c cs text rest h ih =>
    by_cases hcomment : c = '/' ∧ cs.head? = some '/'
    · rw [munch_comment hcomment] at h
      cases hd : cs.dropWhile (!isLineBreak ·) with
      | nil => exact absurd h (by simp [munchComment, hd, Dialect.rules])
      | cons b bs =>
        have hmunch := @munchComment_of_break Dialect.legacy.rules cs bs b hd
        rw [munchComment_of_break hd] at h
        obtain ⟨rfl, rfl⟩ := Munch.gap.inj h
        rw [scanFrom_gap ((munch_comment hcomment).trans hmunch)] at hlegacy ⊢
        -- the legacy dialect is one lexeme further on, and that lexeme is a line break
        have hbreak := @munch_lineBreak Dialect.legacy.rules b bs (isLineBreak_of_dropWhile hd)
        have hbehind := ih q (by
          rw [scanFrom_lexeme hbreak]
          exact (scanFrom_anywhere _ _ _ _).2.mp hlegacy) hstrict
        rw [← hbehind, scanFrom_lexeme hbreak, contents_newline]
        exact contents_anywhere _ _ _ _
    · rw [munch_eq_of_not_comment hcomment] at h
      rw [scanFrom_gap h] at hlegacy ⊢
      exact ih _ hlegacy hstrict
  | case3 p c cs l text rest h ih =>
    have hcomment : ¬(c = '/' ∧ cs.head? = some '/') := by
      intro hc
      rw [munch_comment hc] at h
      exact munchComment_ne_lexeme h
    rw [munch_eq_of_not_comment hcomment] at h
    rw [scanFrom_lexeme h] at hlegacy ⊢
    have hrest := ih _ hlegacy hstrict
    simp only [TokenStream.contents, TokenStream.lexemes, TokenStream.toList, List.map_cons,
      List.filter_cons] at hrest ⊢
    rw [hrest]
  | case4 p c cs cause h => exact absurd hstrict (by simp [TokenStream.error?])

/-- **Both dialects find the same lexemes in a text**, line breaks aside, where neither finds
fault with it. -/
theorem contents_eq {d₁ d₂ : Dialect} {source : String}
    (h₁ : (scan d₁.rules source).error? = none) (h₂ : (scan d₂.rules source).error? = none) :
    (scan d₁.rules source).contents = (scan d₂.rules source).contents := by
  cases d₁ with
  | legacy =>
    cases d₂ with
    | legacy => rfl
    | strict => exact contents_scanFrom _ _ _ h₁ h₂
  | strict =>
    cases d₂ with
    | legacy => exact (contents_scanFrom _ _ _ h₂ h₁).symm
    | strict => rfl

end SchemaLang
