/-
# The scanner step by step

The scanner recurs on what is behind a piece, and that this is shorter is a proof and not a matter
of shape.  The equations here say what one step does, piece by piece.  `scanWithin` takes the same
steps and counts them, so what it makes of a given text can be computed; the scanner never takes
more steps than the text has characters (`scanFrom_eq_scanWithin`).
-/
import SchemaLang.Token.Scan

namespace SchemaLang

open Text

variable {rules : Rules} {pos : Position} {c : Char} {cs text rest : List Char}

/-! ## 1. One step -/

theorem scanFrom_nil : scanFrom rules pos [] = .done pos := by
  rw [scanFrom]

theorem scanFrom_gap (h : munch rules c cs = .gap text rest) :
    scanFrom rules pos (c :: cs) = scanFrom rules (pos.past text) rest := by
  rw [scanFrom]
  split <;> simp_all

theorem scanFrom_lexeme {l : Lexeme} (h : munch rules c cs = .lexeme l text rest) :
    scanFrom rules pos (c :: cs) = .token ⟨l, pos⟩ (scanFrom rules (pos.past text) rest) := by
  rw [scanFrom]
  split <;> simp_all

theorem scanFrom_fault {cause : LexicalCause} (h : munch rules c cs = .fault cause) :
    scanFrom rules pos (c :: cs) = .fault ⟨cause, pos⟩ := by
  rw [scanFrom]
  split <;> simp_all

/-! ## 2. Counted steps -/

/-- The tokens found in that many steps. -/
def scanWithin (rules : Rules) : Nat → Position → List Char → TokenStream
  | 0, pos, _ => .done pos
  | _ + 1, pos, [] => .done pos
  | n + 1, pos, c :: cs =>
    match munch rules c cs with
    | .gap text rest => scanWithin rules n (pos.past text) rest
    | .lexeme l text rest => .token ⟨l, pos⟩ (scanWithin rules n (pos.past text) rest)
    | .fault cause => .fault ⟨cause, pos⟩

/-- **No text takes more steps than it has characters.** -/
theorem scanFrom_eq_scanWithin {n : Nat} (h : cs.length ≤ n) :
    scanFrom rules pos cs = scanWithin rules n pos cs := by
  induction n generalizing pos cs with
  | zero =>
    obtain rfl : cs = [] := List.length_eq_zero_iff.mp (Nat.le_zero.mp h)
    exact scanFrom_nil
  | succ n ih =>
    cases cs with
    | nil => exact scanFrom_nil
    | cons c cs =>
      have hrest : ∀ {text rest : List Char}, (munch rules c cs).cut? = some (text, rest) →
          rest.length ≤ n := by
        intro text rest hcut
        have hlt := length_rest_lt hcut
        omega
      rw [scanWithin]
      split
      · next text rest hm => rw [scanFrom_gap hm, ih (hrest (by rw [hm]; rfl))]
      · next l text rest hm => rw [scanFrom_lexeme hm, ih (hrest (by rw [hm]; rfl))]
      · next cause hm => exact scanFrom_fault hm

theorem scan_eq_scanWithin (rules : Rules) (source : String) :
    scan rules source = scanWithin rules source.toList.length .start source.toList :=
  scanFrom_eq_scanWithin (Nat.le_refl _)

end SchemaLang
