/-
# The shapes of lexemes

`Lexeme` is a plain type: nothing in it keeps an integer from having letters for digits, or a
string from holding a quote.  The scanner makes no such lexemes.  `Lexeme.WellFormed` says which
ones it makes, and `wellFormed_scan` says that it makes no others.

The grammar never looks inside a name or an integer, so it would read ill-formed ones as well.
Every statement about what the grammar reads is therefore made about well-formed lexemes, and
this module is what carries such statements over to schema texts.
-/
import SchemaLang.Token.Scan

namespace SchemaLang

open Text

/-! ## 1. Well-formed lexemes -/

/-- The lexemes that a text can be cut into: a string holds no quote and no line break, an integer
is a run of decimal digits, and an identifier is a name that is no keyword. -/
def Lexeme.WellFormed : Lexeme → Prop
  | keyword _ => True
  | punct _ => True
  | string text => ∀ c ∈ text.toList, isStringPart c
  | integer digits => digits.toList ≠ [] ∧ ∀ c ∈ digits.toList, c.isDigit
  | identifier name => isName name.toList ∧ Keyword.ofText? name = none
  | newline => True

instance : (l : Lexeme) → Decidable l.WellFormed
  | .keyword _ => .isTrue trivial
  | .punct _ => .isTrue trivial
  | .string text => decidable_of_iff (text.toList.all isStringPart) List.all_eq_true
  | .integer digits =>
    decidable_of_iff (digits.toList ≠ [] ∧ digits.toList.all Char.isDigit)
      (and_congr Iff.rfl List.all_eq_true)
  | .identifier name =>
    inferInstanceAs (Decidable (isName name.toList ∧ Keyword.ofText? name = none))
  | .newline => .isTrue trivial

theorem Keyword.isName_text (k : Keyword) : isName k.text.toList := by cases k <;> decide

/-- A word makes a well-formed lexeme, keyword or not. -/
theorem Lexeme.wellFormed_ofWord {s : String} (h : isName s.toList) : (ofWord s).WellFormed := by
  unfold ofWord
  split
  · trivial
  · next hk => exact ⟨h, hk⟩

/-- A well-formed lexeme that serves as a name is the lexeme of that word. -/
theorem Lexeme.WellFormed.eq_ofWord {l : Lexeme} {s : String} (hl : l.WellFormed)
    (h : l.name? = some s) : l = ofWord s ∧ isName s.toList := by
  cases l with
  | keyword k =>
    obtain rfl : k.text = s := by simpa [name?] using h
    exact ⟨(ofWord_text k).symm, k.isName_text⟩
  | identifier name =>
    obtain rfl : name = s := by simpa [name?] using h
    exact ⟨by simp [ofWord, hl.2], hl.1⟩
  | punct p => simp [name?] at h
  | string text => simp [name?] at h
  | integer digits => simp [name?] at h
  | newline => simp [name?] at h

/-! ## 2. The scanner makes well-formed lexemes only -/

theorem munchString_wellFormed {cs text rest : List Char} {l : Lexeme}
    (h : munchString cs = .lexeme l text rest) : l.WellFormed := by
  unfold munchString at h
  split at h
  · next hd =>
    obtain ⟨rfl, -, -⟩ := Munch.lexeme.inj h
    intro c hc
    rw [String.toList_ofList] at hc
    exact List.all_eq_true.mp List.all_takeWhile c hc
  · exact absurd h (by simp)

theorem munchComment_ne_lexeme {rules : Rules} {cs text rest : List Char} {l : Lexeme} :
    munchComment rules cs ≠ .lexeme l text rest := by
  unfold munchComment
  split
  · split <;> simp
  · split <;> simp

/-- Whatever piece is taken off the front of a text, if it is a lexeme it is a well-formed one. -/
theorem munch_wellFormed {rules : Rules} {c : Char} {cs text rest : List Char} {l : Lexeme}
    (h : munch rules c cs = .lexeme l text rest) : l.WellFormed := by
  unfold munch at h
  split at h
  · exact absurd h (by simp)
  split at h
  · exact absurd h munchComment_ne_lexeme
  split at h
  · obtain ⟨rfl, -, -⟩ := Munch.lexeme.inj h
    trivial
  split at h
  · obtain ⟨rfl, -, -⟩ := Munch.lexeme.inj h
    trivial
  split at h
  · exact munchString_wellFormed h
  split at h
  · next hd =>
    obtain ⟨rfl, -, -⟩ := Munch.lexeme.inj h
    refine ⟨by simp, fun d hmem => ?_⟩
    rw [String.toList_ofList] at hmem
    rcases List.mem_cons.mp hmem with rfl | hmem
    · exact hd
    · exact List.all_eq_true.mp List.all_takeWhile d hmem
  split at h
  · next hs =>
    obtain ⟨rfl, -, -⟩ := Munch.lexeme.inj h
    refine Lexeme.wellFormed_ofWord ?_
    rw [String.toList_ofList]
    simp [isName, hs]
  · exact absurd h (by simp)

/-- A stream all of whose tokens are well-formed. -/
def TokenStream.WellFormed (s : TokenStream) : Prop := ∀ t ∈ s.toList, t.lexeme.WellFormed

theorem wellFormed_scanFrom (rules : Rules) (pos : Position) (cs : List Char) :
    (scanFrom rules pos cs).WellFormed := by
  fun_induction scanFrom rules pos cs with
  | case1 pos => exact fun t ht => absurd ht (by simp [TokenStream.toList])
  | case2 pos c cs text rest h ih => exact ih
  | case3 pos c cs l text rest h ih =>
    intro t ht
    rcases List.mem_cons.mp ht with rfl | ht
    · exact munch_wellFormed h
    · exact ih t ht
  | case4 pos c cs cause h => exact fun t ht => absurd ht (by simp [TokenStream.toList])

/-- **Every token of a schema text is well-formed**, also those in front of a lexical fault. -/
theorem wellFormed_scan (rules : Rules) (source : String) : (scan rules source).WellFormed :=
  wellFormed_scanFrom rules _ _

end SchemaLang
