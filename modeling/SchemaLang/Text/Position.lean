/-
# Places in a text

A place is a line and a column, both counted from one; a column counts characters.  A line ends
at a line feed, at a carriage return, or at a carriage return with a line feed behind it, which
is one break and not two.

`Position.past` moves a place over a piece of text.  It is the only way a place moves, so the
place of anything the scanner finds is `start.past` of the text in front of it, provided that no
piece ends between the two characters of one break (`past_append`).
-/
import SchemaLang.Text.CharClass

namespace SchemaLang.Text

/-- A line and a column, counted from one. -/
structure Position where
  line : Nat
  column : Nat
  deriving DecidableEq, Repr

namespace Position

/-- The place where every text starts. -/
def start : Position := ⟨1, 1⟩

/-- The first column of the next line. -/
def nextLine (p : Position) : Position := ⟨p.line + 1, 1⟩

/-- The next column of the same line. -/
def nextColumn (p : Position) : Position := ⟨p.line, p.column + 1⟩

/-- The place behind a text that starts at this one. -/
def past (p : Position) : List Char → Position
  | [] => p
  | '\r' :: '\n' :: cs => past p.nextLine cs
  | c :: cs => past (if isLineBreak c then p.nextLine else p.nextColumn) cs

/-- How a message names a place. -/
def render (p : Position) : String :=
  "Line " ++ toString p.line ++ ", column " ++ toString p.column

/-! ## How places move -/

@[simp] theorem past_nil (p : Position) : p.past [] = p := rfl

theorem past_cons (p : Position) {c : Char} {cs : List Char} (h : c = '\r' → cs.head? ≠ some '\n') :
    p.past (c :: cs) = past (if isLineBreak c then p.nextLine else p.nextColumn) cs := by
  rw [past]
  rintro cs' rfl rfl
  exact absurd rfl (h rfl)

/-- Over a text without line breaks the line stays and each character is one column. -/
theorem past_of_no_break : ∀ (p : Position) {cs : List Char}, (∀ c ∈ cs, isLineBreak c = false) →
    p.past cs = ⟨p.line, p.column + cs.length⟩
  | p, [], _ => rfl
  | p, c :: cs, h => by
    have hc : isLineBreak c = false := h c (by simp)
    have hr : c ≠ '\r' := by rintro rfl; simp [isLineBreak] at hc
    rw [past_cons p fun e => absurd e hr, hc]
    have ih := past_of_no_break p.nextColumn fun d (hd : d ∈ cs) => h d (by simp [hd])
    rw [if_neg Bool.false_ne_true, ih, List.length_cons, nextColumn, Nat.add_assoc, Nat.add_comm 1]

/-- Moving over two pieces is moving over their join, unless the cut parts a carriage return
from its line feed. -/
theorem past_append (p : Position) (xs ys : List Char)
    (h : xs.getLast? = some '\r' → ys.head? ≠ some '\n') :
    p.past (xs ++ ys) = (p.past xs).past ys := by
  fun_induction past p xs with
  | case1 p => rfl
  | case2 p cs ih =>
    have h' : cs.getLast? = some '\r' → ys.head? ≠ some '\n' := by
      intro hl
      apply h
      cases cs with
      | nil => simp at hl
      | cons d ds => simpa [List.getLast?_cons_cons] using hl
    simpa [past] using ih h'
  | case3 p c cs hne ih =>
    have h' : cs.getLast? = some '\r' → ys.head? ≠ some '\n' := by
      intro hl
      apply h
      cases cs with
      | nil => simp at hl
      | cons d ds => simpa [List.getLast?_cons_cons] using hl
    have hcut : c = '\r' → (cs ++ ys).head? ≠ some '\n' := by
      rintro rfl
      cases cs with
      | nil => simpa using h rfl
      | cons d ds =>
        intro e
        simp only [List.cons_append, List.head?_cons, Option.some.injEq] at e
        subst e
        exact hne ds rfl rfl
    rw [List.cons_append, past_cons p hcut]
    exact ih h'

end Position
end SchemaLang.Text
