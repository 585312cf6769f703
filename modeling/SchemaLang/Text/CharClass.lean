/-
# Classes of characters

The scanner tells characters apart by membership in five small classes: blanks, line breaks,
decimal digits, characters that start a name, and characters that continue one.  All five are
ASCII classes by definition of the language: a letter outside ASCII starts nothing.

A *name* is a character that starts one, followed by any run of characters that continue one
(`isName`).  Two longer shapes are built from it: names joined by dots (`isDottedName`) and the
path of an import, whose names are joined by dots or slashes (`isImportPath`).
-/

namespace SchemaLang.Text

/-! ## 1. Single characters -/

/-- Blanks are the space and the tab; they separate lexemes and mean nothing. -/
def isBlank (c : Char) : Bool := c == ' ' || c == '\t'

/-- A line feed and a carriage return each end a line. -/
def isLineBreak (c : Char) : Bool := c == '\n' || c == '\r'

/-- A name starts with an ASCII letter or an underscore. -/
def isNameStart (c : Char) : Bool := c == '_' || c.isLower || c.isUpper

/-- A name goes on with whatever starts one and with decimal digits. -/
def isNamePart (c : Char) : Bool := isNameStart c || c.isDigit

/-! ## 2. Names and paths -/

/-- A name: one character that starts it, then characters that continue it. -/
def isName : List Char → Bool
  | [] => false
  | c :: cs => isNameStart c && cs.all isNamePart

/-- Splits a text at every character of a class; the pieces between, empty ones included. -/
def pieces (sep : Char → Bool) : List Char → List (List Char)
  | [] => [[]]
  | c :: cs =>
    if sep c then [] :: pieces sep cs
    else match pieces sep cs with
      | [] => [[c]]
      | piece :: pieces => (c :: piece) :: pieces

/-- One or more names joined by single dots. -/
def isDottedName (cs : List Char) : Bool := (pieces (· == '.') cs).all isName

/-- One or more names joined by single dots or slashes. -/
def isImportPath (cs : List Char) : Bool := (pieces (fun c => c == '.' || c == '/') cs).all isName

/-! ## 3. The classes do not overlap -/

theorem isNamePart_of_isNameStart {c : Char} (h : isNameStart c) : isNamePart c := by
  simp [isNamePart, h]

theorem isNamePart_of_isDigit {c : Char} (h : c.isDigit) : isNamePart c := by
  simp [isNamePart, h]

/-- A character that continues a name is none that does not. -/
theorem ne_of_isNamePart {c d : Char} (hc : isNamePart c) (hd : isNamePart d = false) : c ≠ d := by
  rintro rfl
  exact absurd hc (by simp [hd])

/-- No decimal digit starts a name. -/
theorem not_isDigit_of_isNameStart {c : Char} (h : isNameStart c) : c.isDigit = false := by
  have hnine : '9'.toNat = 57 := rfl
  cases hd : c.isDigit with
  | false => rfl
  | true =>
    have hle : c.toNat ≤ '9'.toNat := of_decide_eq_true (Bool.and_eq_true_iff.mp hd).2
    simp only [isNameStart, Bool.or_eq_true, beq_iff_eq] at h
    rcases h with (rfl | hlower) | hupper
    · exact absurd hle (by decide)
    · have hlow : 'a'.toNat ≤ c.toNat := of_decide_eq_true (Bool.and_eq_true_iff.mp hlower).1
      have ha : 'a'.toNat = 97 := rfl
      omega
    · have hup : 'A'.toNat ≤ c.toNat := (of_decide_eq_true hupper).1
      have hA : 'A'.toNat = 65 := rfl
      omega

theorem isBlank_iff {c : Char} : isBlank c ↔ c = ' ' ∨ c = '\t' := by
  simp [isBlank]

theorem isLineBreak_iff {c : Char} : isLineBreak c ↔ c = '\n' ∨ c = '\r' := by
  simp [isLineBreak]

theorem not_isLineBreak_of_isBlank {c : Char} (h : isBlank c) : isLineBreak c = false := by
  rcases isBlank_iff.mp h with rfl | rfl <;> decide

theorem not_isLineBreak_of_isNamePart {c : Char} (h : isNamePart c) : isLineBreak c = false := by
  have hfeed : c ≠ '\n' := ne_of_isNamePart h (by decide)
  have hreturn : c ≠ '\r' := ne_of_isNamePart h (by decide)
  simp [isLineBreak, hfeed, hreturn]

theorem pieces_ne_nil (sep : Char → Bool) (cs : List Char) : pieces sep cs ≠ [] := by
  cases cs with
  | nil => simp [pieces]
  | cons c cs =>
    unfold pieces
    split
    · simp
    · split <;> simp

/-- A name holds no separator, so splitting leaves it whole. -/
theorem pieces_of_all {sep : Char → Bool} :
    ∀ {cs : List Char}, (∀ c ∈ cs, sep c = false) → pieces sep cs = [cs]
  | [], _ => rfl
  | c :: cs, h => by
    have hc : sep c = false := h c (by simp)
    have hcs := pieces_of_all fun d (hd : d ∈ cs) => h d (by simp [hd])
    simp [pieces, hc, hcs]

end SchemaLang.Text
