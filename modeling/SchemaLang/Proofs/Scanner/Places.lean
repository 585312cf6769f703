/-
# Places grow

Every piece that the scanner takes is non-empty, and moving over a non-empty piece leads to a later
place.  So the places of the tokens grow from one token to the next, the place of the end included,
and a place is enough to tell which token of a text is meant (`at?_injective`).
-/
import SchemaLang.Proofs.Grammar.Viability

namespace SchemaLang

open Text

/-! ## 1. Later places -/

/-- A place on a later line, or further on in the same line. -/
def Text.Position.Before (p q : Position) : Prop :=
  p.line < q.line ∨ p.line = q.line ∧ p.column < q.column

namespace Text.Position

variable {p q r : Position}

theorem Before.trans (h : p.Before q) (k : q.Before r) : p.Before r := by
  unfold Before at *
  omega

theorem Before.ne (h : p.Before q) : p ≠ q := by
  rintro rfl
  unfold Before at h
  omega

theorem before_nextLine (p : Position) : p.Before p.nextLine := .inl (Nat.lt_succ_self _)

theorem before_nextColumn (p : Position) : p.Before p.nextColumn :=
  .inr ⟨rfl, Nat.lt_succ_self _⟩

/-- **A piece of text leads to a later place.** -/
theorem before_past (p : Position) {cs : List Char} (h : cs ≠ []) : p.Before (p.past cs) := by
  fun_induction past p cs with
  | case1 p => exact absurd rfl h
  | case2 p cs ih =>
    by_cases hcs : cs = []
    · subst hcs
      exact p.before_nextLine
    · exact p.before_nextLine.trans (ih hcs)
  | case3 p c cs hne ih =>
    have hstep : p.Before (if isLineBreak c then p.nextLine else p.nextColumn) := by
      split
      · exact p.before_nextLine
      · exact p.before_nextColumn
    by_cases hcs : cs = []
    · subst hcs
      exact hstep
    · exact hstep.trans (ih hcs)

end Text.Position

/-! ## 2. Places of tokens -/

/-- Nothing is found in front of the place where a text starts, and nothing but the first token at
that place. -/
theorem pos_of_at?_scanFrom {rules : Rules} {p : Position} {cs : List Char} {k : Nat}
    {x : Sighting} (h : (scanFrom rules p cs).at? k = some x) :
    p.Before x.pos ∨ k = 0 ∧ x.pos = p := by
  fun_induction scanFrom rules p cs generalizing k with
  | case1 p =>
    cases k with
    | zero =>
      obtain rfl := Option.some.inj h
      exact .inr ⟨rfl, rfl⟩
    | succ k => exact absurd h (by simp [TokenStream.at?])
  | case2 p c cs text rest hm ih =>
    have hpast := p.before_past (munch_text (by rw [hm]; rfl)).2
    rcases ih h with hbefore | ⟨-, hpos⟩
    · exact .inl (hpast.trans hbefore)
    · exact .inl (hpos ▸ hpast)
  | case3 p c cs l text rest hm ih =>
    cases k with
    | zero =>
      obtain rfl := Option.some.inj h
      exact .inr ⟨rfl, rfl⟩
    | succ k =>
      have hpast := p.before_past (munch_text (by rw [hm]; rfl)).2
      rcases ih h with hbefore | ⟨-, hpos⟩
      · exact .inl (hpast.trans hbefore)
      · exact .inl (hpos ▸ hpast)
  | case4 p c cs cause hm =>
    cases k with
    | zero => exact absurd h (by simp [TokenStream.at?, TokenStream.sight?])
    | succ k => exact absurd h (by simp [TokenStream.at?])

/-- **No two tokens of a text are at one place**, and none is at the place of the end. -/
theorem at?_injective {rules : Rules} {p : Position} {cs : List Char} {i j : Nat}
    {x y : Sighting} (hx : (scanFrom rules p cs).at? i = some x)
    (hy : (scanFrom rules p cs).at? j = some y) (hpos : x.pos = y.pos) : i = j := by
  fun_induction scanFrom rules p cs generalizing i j with
  | case1 p =>
    cases i with
    | zero =>
      cases j with
      | zero => rfl
      | succ j => exact absurd hy (by simp [TokenStream.at?])
    | succ i => exact absurd hx (by simp [TokenStream.at?])
  | case2 p c cs text rest hm ih => exact ih hx hy
  | case3 p c cs l text rest hm ih =>
    have hpast := p.before_past (munch_text (by rw [hm]; rfl)).2
    -- whatever is behind the first token is behind its place
    have hbehind : ∀ {k : Nat} {z : Sighting},
        (scanFrom rules (p.past text) rest).at? k = some z → z.pos ≠ p := by
      intro k z hz
      rcases pos_of_at?_scanFrom hz with hbefore | ⟨-, hpos⟩
      · exact (hpast.trans hbefore).ne.symm
      · exact hpos ▸ hpast.ne.symm
    cases i with
    | zero =>
      cases j with
      | zero => rfl
      | succ j =>
        obtain rfl := Option.some.inj hx
        exact absurd hpos.symm (hbehind hy)
    | succ i =>
      cases j with
      | zero =>
        obtain rfl := Option.some.inj hy
        exact absurd hpos (hbehind hx)
      | succ j => rw [ih hx hy]
  | case4 p c cs cause hm =>
    cases i with
    | zero => exact absurd hx (by simp [TokenStream.at?, TokenStream.sight?])
    | succ i => exact absurd hx (by simp [TokenStream.at?])

end SchemaLang
