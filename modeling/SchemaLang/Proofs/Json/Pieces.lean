/-
# Pieces

A step of the reader takes a piece off the front of a text, and what it makes of the piece does not
depend on what is behind it.  So a piece may be followed by something else and still come to the
same.

Two pieces look beyond their end.  The first half of a surrogate pair takes the second one along,
but a string that is closed holds all of it (`takeUnit_behind`).  A number ends where it does not go
on, so what is behind it must not go on with it (`EndsNumber`).
-/
import SchemaLang.Proofs.Json.Strings
import SchemaLang.Proofs.Text.Runs

namespace SchemaLang.Json

open Text

/-! ## 1. Strings -/

/-- A string that starts with a unit in hexadecimal holds its digits and something behind them. -/
theorem exists_of_takeString_unit {opening cs s rest : List Char}
    (h : takeString opening ('\\' :: 'u' :: cs) = .ok (s, rest)) :
    ∃ a b c d next tail, cs = a :: b :: c :: d :: next :: tail := by
  rw [takeString, if_neg (by decide)] at h
  split at h
  · exact absurd h (by simp)
  · next d behind hchar =>
    rw [takeChar_unit] at hchar
    unfold takeUnit at hchar
    split at hchar
    · exact ⟨_, _, _, _, _, _, rfl⟩
    · exact absurd hchar (by simp [fail])

/-- What a unit comes to is settled within the string that it stands in. -/
theorem takeUnit_behind {a b c e d : Char} {piece rest : List Char}
    (hpiece : ∀ behind, ∃ s, takeString [] (piece ++ behind) = .ok (s, behind))
    (h : takeUnit (a :: b :: c :: e :: (piece ++ rest)) = .ok (d, piece ++ rest))
    (behind : List Char) :
    takeUnit (a :: b :: c :: e :: (piece ++ behind)) = .ok (d, piece ++ behind) := by
  obtain ⟨s, hclosed⟩ := hpiece []
  rw [List.append_nil] at hclosed
  cases piece with
  | nil => exact absurd hclosed (by simp [takeString, fail])
  | cons next tail =>
    cases hunit : unit? a b c e with
    | none => exact absurd h (by simp [takeUnit, hunit, fail])
    | some high =>
      by_cases hslash : next = '\\'
      · subst hslash
        cases tail with
        | nil => simp [takeString, takeChar, fail] at hclosed
        | cons letter tail =>
          by_cases hu : letter = 'u'
          · subst hu
            obtain ⟨a', b', c', d', n, t, rfl⟩ := exists_of_takeString_unit hclosed
            cases hhigh : isHighSurrogate high with
            | false => simpa [takeUnit, hunit, hhigh] using h
            | true =>
              cases hunit' : unit? a' b' c' d' with
              | none => exact absurd h (by simp [takeUnit, hunit, hhigh, hunit', fail])
              | some low =>
                cases hlow : isLowSurrogate low with
                | false => simpa [takeUnit, hunit, hhigh, hunit', hlow] using h
                | true =>
                  -- then the second unit would have been taken as well
                  have hlength := congrArg (Except.map fun p => p.2.length) h
                  simp [takeUnit, hunit, hhigh, hunit', hlow, Except.map] at hlength
                  
          · simpa [takeUnit, hunit, hu] using h
      · simpa [takeUnit, hunit, hslash] using h

/-- A unit is taken off the front, whatever is behind the string. -/
theorem exists_of_takeUnit {cs piece rest : List Char} {d : Char}
    (hpiece : ∀ behind, ∃ s, takeString [] (piece ++ behind) = .ok (s, behind))
    (h : takeUnit cs = .ok (d, piece ++ rest)) : ∃ front, cs = front ++ (piece ++ rest) ∧
      ∀ behind, takeUnit (front ++ (piece ++ behind)) = .ok (d, piece ++ behind) := by
  have hsingle : ∀ {a b c e : Char}, cs = a :: b :: c :: e :: (piece ++ rest) →
      ∃ front, cs = front ++ (piece ++ rest) ∧
        ∀ behind, takeUnit (front ++ (piece ++ behind)) = .ok (d, piece ++ behind) := by
    rintro a b c e rfl
    exact ⟨[a, b, c, e], rfl, takeUnit_behind hpiece h⟩
  have h' := h
  unfold takeUnit at h'
  split at h'
  · next a b c e next tail =>
    split at h'
    · exact absurd h' (by simp [fail])
    · next high hunit =>
      split at h'
      · next a' b' c' d' next' tail' hhigh hcons =>
        split at h'
        · exact absurd h' (by simp [fail])
        · next low hunit' =>
          split at h'
          · next hlow =>
            obtain ⟨hjoin, htail⟩ := Prod.mk.inj (Except.ok.inj h')
            refine ⟨[a, b, c, e, '\\', 'u', a', b', c', d'], by simp [hcons, htail], ?_⟩
            intro behind
            cases piece with
            | nil =>
              obtain ⟨s, hclosed⟩ := hpiece []
              exact absurd hclosed (by simp [takeString, fail])
            | cons x piece => simp [takeUnit, hunit, hhigh, hunit', hlow, hjoin]
          · exact hsingle (by rw [(Prod.mk.inj (Except.ok.inj h')).2])
      · exact hsingle (by rw [(Prod.mk.inj (Except.ok.inj h')).2])
  · exact absurd h' (by simp [fail])

/-- **A character of a string is taken off the front**, whatever is behind the string. -/
theorem exists_of_takeChar {opening cs piece rest : List Char} {c d : Char}
    (hpiece : ∀ behind, ∃ s, takeString [] (piece ++ behind) = .ok (s, behind))
    (h : takeChar opening c cs = .ok (d, piece ++ rest)) : ∃ front, cs = front ++ (piece ++ rest) ∧
      ∀ opening' behind,
        takeChar opening' c (front ++ (piece ++ behind)) = .ok (d, piece ++ behind) := by
  unfold takeChar at h
  split at h
  · next hslash =>
    obtain rfl := eq_of_beq hslash
    split at h
    · exact absurd h (by simp [fail])
    · next tail =>
      obtain ⟨front, rfl, hfront⟩ := exists_of_takeUnit hpiece h
      exact ⟨'u' :: front, rfl, fun _ behind => takeChar_unit.trans (hfront behind)⟩
    · next letter tail hu =>
      split at h
      · next hescaped =>
        obtain ⟨rfl, rfl⟩ := Prod.mk.inj (Except.ok.inj h)
        exact ⟨[letter], rfl, fun _ behind => takeChar_escape (fun e => hu (by rw [e])) hescaped⟩
      · exact absurd h (by simp [fail])
  · next hslash =>
    split at h
    · exact absurd h (by simp [fail])
    · next hlow =>
      obtain ⟨rfl, rfl⟩ := Prod.mk.inj (Except.ok.inj h)
      exact ⟨[], rfl, fun _ behind => by simp [takeChar, hslash, hlow]⟩

/-- **A string is taken off the front**, whatever is behind it. -/
theorem exists_of_takeString {opening cs s rest : List Char}
    (h : takeString opening cs = .ok (s, rest)) : ∃ piece, cs = piece ++ rest ∧
      ∀ opening' behind, takeString opening' (piece ++ behind) = .ok (s, behind) := by
  fun_induction takeString opening cs generalizing s rest with
  | case1 => exact absurd h (by simp [fail])
  | case2 c cs hc =>
    obtain ⟨rfl, rfl⟩ := Prod.mk.inj (Except.ok.inj h)
    obtain rfl := eq_of_beq hc
    exact ⟨['"'], rfl, takeString_quote⟩
  | case3 => exact absurd h (by simp)
  | case4 c cs hc d mid hd ih =>
    cases hs : takeString opening mid with
    | error e => simp [hs, Except.map] at h
    | ok r =>
      simp only [hs, Except.map, Except.ok.injEq, Prod.mk.injEq] at h
      obtain ⟨rfl, rfl⟩ := h
      obtain ⟨piece, rfl, hpiece⟩ := ih hs
      obtain ⟨front, rfl, hfront⟩ := exists_of_takeChar (fun behind => ⟨_, hpiece [] behind⟩) hd
      refine ⟨c :: (front ++ piece), by simp, fun opening' behind => ?_⟩
      have htake := hfront opening' behind
      rw [List.cons_append, List.append_assoc, takeString_char (by simpa using hc) htake, hpiece]
      rfl

/-! ## 2. Numbers -/

/-- What a number does not go on with. -/
def EndsNumber (rest : List Char) : Prop :=
  ∀ c ∈ rest.head?, c.isDigit = false ∧ c ≠ '.' ∧ c ≠ 'e' ∧ c ≠ 'E'

theorem exists_of_takeWhole {cs whole rest : List Char} (h : takeWhole cs = some (whole, rest)) :
    (∃ d ds, whole = d :: ds ∧ d.isDigit) ∧ cs = whole ++ rest ∧
      ∀ behind, (∀ c ∈ behind.head?, c.isDigit = false) →
        takeWhole (whole ++ behind) = some (whole, behind) := by
  unfold takeWhole at h
  split at h
  · exact absurd h (by simp)
  · next c cs =>
    split at h
    · next hzero =>
      obtain ⟨rfl, rfl⟩ := Prod.mk.inj (Option.some.inj h)
      obtain rfl := eq_of_beq hzero
      exact ⟨⟨_, _, rfl, by decide⟩, rfl, fun _ _ => rfl⟩
    · next hzero =>
      split at h
      · next hdigit =>
        obtain ⟨rfl, rfl⟩ := Prod.mk.inj (Option.some.inj h)
        refine ⟨⟨_, _, rfl, hdigit⟩, ?_, fun behind hbehind => ?_⟩
        · rw [List.cons_append, List.takeWhile_append_dropWhile]
        · have hdigits : ∀ d ∈ cs.takeWhile Char.isDigit, d.isDigit :=
            List.all_eq_true.mp List.all_takeWhile
          obtain ⟨htake, hdrop⟩ := takeWhile_run hdigits hbehind
          rw [List.cons_append, takeWhole, if_neg hzero, if_pos hdigit, htake, hdrop]
      · exact absurd h (by simp)

theorem takeFraction_none {rest : List Char}
    (hrest : ∀ c ∈ rest.head?, c.isDigit = false ∧ c ≠ '.') : takeFraction rest = ([], rest) := by
  unfold takeFraction
  split
  · exact absurd rfl (hrest '.' rfl).2
  · rfl

theorem exists_of_takeFraction {cs fraction rest : List Char}
    (h : takeFraction cs = (fraction, rest)) :
    ∃ piece, cs = piece ++ rest ∧ (∀ c ∈ piece.head?, c = '.') ∧
      ∀ behind, (∀ c ∈ behind.head?, c.isDigit = false ∧ c ≠ '.') →
        takeFraction (piece ++ behind) = (fraction, behind) := by
  unfold takeFraction at h
  split at h
  · next d cs =>
    split at h
    · next hdigit =>
      obtain ⟨rfl, rfl⟩ := Prod.mk.inj h
      refine ⟨'.' :: d :: cs.takeWhile Char.isDigit, ?_, by simp, fun behind hbehind => ?_⟩
      · simp
      · have hdigits : ∀ d ∈ cs.takeWhile Char.isDigit, d.isDigit :=
          List.all_eq_true.mp List.all_takeWhile
        obtain ⟨htake, hdrop⟩ := takeWhile_run hdigits fun c hc => (hbehind c hc).1
        simp only [List.cons_append, takeFraction, if_pos hdigit, htake, hdrop]
    · obtain ⟨rfl, rfl⟩ := Prod.mk.inj h
      exact ⟨[], rfl, by simp, fun _ => takeFraction_none⟩
  · obtain ⟨rfl, rfl⟩ := Prod.mk.inj h
    exact ⟨[], rfl, by simp, fun _ => takeFraction_none⟩

theorem takeExponent_none {rest : List Char} (hrest : EndsNumber rest) :
    takeExponent rest = (false, [], rest) := by
  unfold takeExponent
  split
  · exact absurd rfl (hrest 'e' rfl).2.2.1
  · exact absurd rfl (hrest 'E' rfl).2.2.2
  · rfl

theorem takeExponent_mark {e : Char} (he : e = 'e' ∨ e = 'E') (tail : List Char) :
    takeExponent (e :: tail) =
      if ((takeSign tail).2.takeWhile Char.isDigit).isEmpty then (false, [], e :: tail)
      else ((takeSign tail).1, (takeSign tail).2.takeWhile Char.isDigit,
        (takeSign tail).2.dropWhile Char.isDigit) := by
  rcases he with rfl | rfl <;> rfl

/-- A sign is taken off digits. -/
theorem exists_of_takeSign (tail : List Char) : ∃ sign, tail = sign ++ (takeSign tail).2 ∧
    ∀ d ds, d.isDigit → takeSign (sign ++ d :: ds) = ((takeSign tail).1, d :: ds) := by
  unfold takeSign
  split
  · exact ⟨['-'], rfl, fun _ _ _ => rfl⟩
  · exact ⟨['+'], rfl, fun _ _ _ => rfl⟩
  · refine ⟨[], rfl, fun d ds hd => ?_⟩
    rw [List.nil_append]
    split
    · next hcons =>
      obtain ⟨rfl, -⟩ := List.cons.inj hcons
      exact absurd hd (by decide)
    · next hcons =>
      obtain ⟨rfl, -⟩ := List.cons.inj hcons
      exact absurd hd (by decide)
    · rfl

theorem exists_of_takeExponent {cs digits rest : List Char} {negative : Bool}
    (h : takeExponent cs = (negative, digits, rest)) :
    ∃ piece, cs = piece ++ rest ∧ (∀ c ∈ piece.head?, c = 'e' ∨ c = 'E') ∧
      ∀ behind, EndsNumber behind →
        takeExponent (piece ++ behind) = (negative, digits, behind) := by
  have hnothing : (false, [], cs) = (negative, digits, rest) → ∃ piece, cs = piece ++ rest ∧
      (∀ c ∈ piece.head?, c = 'e' ∨ c = 'E') ∧ ∀ behind, EndsNumber behind →
        takeExponent (piece ++ behind) = (negative, digits, behind) := by
    rintro ⟨⟩
    exact ⟨[], rfl, by simp, fun _ => takeExponent_none⟩
  by_cases hmark : ∃ e tail, (e = 'e' ∨ e = 'E') ∧ cs = e :: tail
  · obtain ⟨e, tail, he, rfl⟩ := hmark
    rw [takeExponent_mark he] at h
    split at h
    · exact hnothing h
    · next hsome =>
      obtain ⟨sign, htail, hsign⟩ := exists_of_takeSign tail
      obtain ⟨d, ds, hdigits⟩ := List.exists_cons_of_ne_nil (fun e => hsome (List.isEmpty_iff.mpr e))
      obtain ⟨hnegative, h⟩ := Prod.mk.inj h
      obtain ⟨rfl, rfl⟩ := Prod.mk.inj h
      have hall : ∀ c ∈ (takeSign tail).2.takeWhile Char.isDigit, c.isDigit :=
        List.all_eq_true.mp List.all_takeWhile
      refine ⟨e :: (sign ++ (takeSign tail).2.takeWhile Char.isDigit), ?_, ?_, ?_⟩
      · rw [List.cons_append, List.append_assoc, List.takeWhile_append_dropWhile, ← htail]
      · intro c hc
        obtain rfl := Option.some.inj hc
        exact he
      · intro behind hbehind
        obtain ⟨htake, hdrop⟩ := takeWhile_run hall fun c hc => (hbehind c hc).1
        have hpast : takeSign (sign ++ ((takeSign tail).2.takeWhile Char.isDigit ++ behind)) =
            (negative, (takeSign tail).2.takeWhile Char.isDigit ++ behind) := by
          rw [hdigits, List.cons_append, hsign d _ (hall d (by rw [hdigits]; exact List.mem_cons_self)),
            hnegative]
        rw [List.cons_append, List.append_assoc, takeExponent_mark he, hpast]
        simp only [htake, hdrop, if_neg hsome]
  · refine hnothing ?_
    rw [← h]
    unfold takeExponent
    split
    · exact absurd ⟨_, _, .inl rfl, rfl⟩ hmark
    · exact absurd ⟨_, _, .inr rfl, rfl⟩ hmark
    · rfl

/-- A minus sign is taken off digits. -/
theorem exists_of_takeMinus (cs : List Char) : ∃ minus, cs = minus ++ (takeMinus cs).2 ∧
    ∀ d ds, d.isDigit → takeMinus (minus ++ d :: ds) = ((takeMinus cs).1, d :: ds) := by
  unfold takeMinus
  split
  · exact ⟨['-'], rfl, fun _ _ _ => rfl⟩
  · refine ⟨[], rfl, fun d ds hd => ?_⟩
    rw [List.nil_append]
    split
    · next hcons =>
      obtain ⟨rfl, -⟩ := List.cons.inj hcons
      exact absurd hd (by decide)
    · rfl

/-- **A number is taken off the front**, whatever is behind it, as long as it does not go on with
the number. -/
theorem exists_of_takeNumber {cs rest : List Char} {t : NumberText}
    (h : takeNumber cs = some (t, rest)) : ∃ piece, cs = piece ++ rest ∧
      ∀ behind, EndsNumber behind → takeNumber (piece ++ behind) = some (t, behind) := by
  unfold takeNumber at h
  simp only at h
  split at h
  · exact absurd h (by simp)
  · next whole mid hwhole =>
    obtain ⟨rfl, rfl⟩ := Prod.mk.inj (Option.some.inj h)
    obtain ⟨⟨d, ds, rfl, hd⟩, hunsigned, hwhole⟩ := exists_of_takeWhole hwhole
    obtain ⟨point, hpoint, hdot, hfraction⟩ := exists_of_takeFraction
      (show takeFraction mid = ((takeFraction mid).1, (takeFraction mid).2) from rfl)
    obtain ⟨power, hpower, hmark, hexponent⟩ := exists_of_takeExponent
      (show takeExponent (takeFraction mid).2 = ((takeExponent (takeFraction mid).2).1,
        (takeExponent (takeFraction mid).2).2.1, (takeExponent (takeFraction mid).2).2.2) from rfl)
    obtain ⟨minus, hcs, hminus⟩ := exists_of_takeMinus cs
    refine ⟨minus ++ (d :: ds ++ (point ++ power)), ?_, fun behind hbehind => ?_⟩
    · rw [List.append_assoc, List.append_assoc, List.append_assoc, ← hpower, ← hpoint, ← hunsigned,
        ← hcs]
    · have hbehindPoint : ∀ c ∈ (power ++ behind).head?, c.isDigit = false ∧ c ≠ '.' := by
        cases power with
        | nil => exact fun c hc => ⟨(hbehind c hc).1, (hbehind c hc).2.1⟩
        | cons e power =>
          intro c hc
          obtain rfl := Option.some.inj hc
          rcases hmark _ rfl with rfl | rfl <;> decide
      have hbehindWhole : ∀ c ∈ (point ++ (power ++ behind)).head?, c.isDigit = false := by
        cases point with
        | nil => exact fun c hc => (hbehindPoint c hc).1
        | cons e point =>
          intro c hc
          obtain rfl := Option.some.inj hc
          obtain rfl := hdot _ rfl
          decide
      have hsigned := hminus d (ds ++ (point ++ (power ++ behind))) hd
      simp only [takeNumber, List.append_assoc, List.cons_append] at hwhole hsigned ⊢
      simp only [hsigned, hwhole _ hbehindWhole, hfraction _ hbehindPoint, hexponent _ hbehind]

/-- A run of digits that does not start with a zero is a number. -/
theorem takeNumber_digits {d : Char} {ds rest : List Char} (hzero : d ≠ '0')
    (hdigits : ∀ c ∈ d :: ds, c.isDigit) (hrest : EndsNumber rest) :
    takeNumber (d :: (ds ++ rest)) = some (⟨false, d :: ds, [], false, []⟩, rest) := by
  have hd := hdigits d List.mem_cons_self
  have hminus : takeMinus (d :: (ds ++ rest)) = (false, d :: (ds ++ rest)) := by
    unfold takeMinus
    split
    · next hcons =>
      obtain ⟨rfl, -⟩ := List.cons.inj hcons
      exact absurd hd (by decide)
    · rfl
  obtain ⟨htake, hdrop⟩ := takeWhile_run (fun c hc => hdigits c (List.mem_cons_of_mem _ hc))
    fun c hc => (hrest c hc).1
  have hwhole : takeWhole (d :: (ds ++ rest)) = some (d :: ds, rest) := by
    rw [takeWhole, if_neg (by simpa using hzero), if_pos hd, htake, hdrop]
  simp only [takeNumber, hminus, hwhole, takeExponent_none hrest,
    takeFraction_none fun c hc => ⟨(hrest c hc).1, (hrest c hc).2.1⟩]

/-! ## 3. Words -/

/-- What starts like a number is no word. -/
theorem takeWord_digit {c : Char} (hc : c.isDigit) (cs : List Char) :
    takeWord (c :: cs) = none ∧ takeWord ('-' :: c :: cs) = none := by
  have hne : ∀ d : Char, d.isDigit = false → d ≠ c := by
    rintro d hd rfl
    exact absurd hc (by simp [hd])
  have hn := hne 'n' (by decide)
  have ht := hne 't' (by decide)
  have hf := hne 'f' (by decide)
  have hN := hne 'N' (by decide)
  have hI := hne 'I' (by decide)
  have hminus := hne '-' (by decide)
  constructor <;> simp [takeWord, words, dropWord, *]

/-- A number is no word. -/
theorem takeWord_of_takeNumber {cs rest : List Char} {t : NumberText}
    (h : takeNumber cs = some (t, rest)) : takeWord cs = none := by
  unfold takeNumber at h
  simp only at h
  split at h
  · exact absurd h (by simp)
  · next whole mid hwhole =>
    obtain ⟨⟨d, ds, rfl, hd⟩, hunsigned, -⟩ := exists_of_takeWhole hwhole
    have hword := takeWord_digit hd (ds ++ mid)
    unfold takeMinus at hunsigned
    split at hunsigned
    · next tail =>
      obtain rfl : tail = d :: ds ++ mid := hunsigned
      exact hword.2
    · obtain rfl : cs = d :: ds ++ mid := hunsigned
      exact hword.1

/-- **A word is taken off the front**, whatever is behind it. -/
theorem exists_of_takeWord {cs rest : List Char} {v : Json} (h : takeWord cs = some (v, rest)) :
    ∃ piece, cs = piece ++ rest ∧ ∀ behind, takeWord (piece ++ behind) = some (v, behind) := by
  have hdrop : ∀ {ws cs rest : List Char}, dropWord ws cs = some rest → cs = ws ++ rest := by
    intro ws
    induction ws with
    | nil =>
      intro cs rest h
      exact Option.some.inj h
    | cons w ws ih =>
      intro cs rest h
      cases cs with
      | nil => exact absurd h (by simp [dropWord])
      | cons c cs =>
        rw [dropWord] at h
        split at h
        · next heq => rw [ih h, heq, List.cons_append]
        · exact absurd h (by simp)
  obtain ⟨⟨word, w⟩, hmem, hw⟩ := List.exists_of_findSome?_eq_some h
  obtain ⟨r, hr, heq⟩ := Option.map_eq_some_iff.mp hw
  obtain ⟨rfl, rfl⟩ := Prod.mk.inj heq
  refine ⟨word.toList, hdrop hr, fun behind => ?_⟩
  simp only [words, List.mem_cons, List.not_mem_nil, or_false, Prod.mk.injEq] at hmem
  rcases hmem with ⟨rfl, rfl⟩ | ⟨rfl, rfl⟩ | ⟨rfl, rfl⟩ | ⟨rfl, rfl⟩ | ⟨rfl, rfl⟩ | ⟨rfl, rfl⟩
  all_goals rfl

/-! ## 4. Steps -/

/-- What may stand behind a piece that leads to a state: behind a value, which may be a number,
nothing that goes on with it. -/
def State.Ends : State → List Char → Prop
  | behind _ _, rest => EndsNumber rest
  | _, _ => True

/-- A piece that is not empty starts with the first character. -/
theorem exists_tail_of_append {c : Char} {cs piece rest : List Char} (h : c :: cs = piece ++ rest)
    (hlength : rest.length < (c :: cs).length) : ∃ tail, piece = c :: tail ∧ cs = tail ++ rest := by
  cases piece with
  | nil =>
    rw [h, List.nil_append] at hlength
    exact absurd hlength (Nat.lt_irrefl _)
  | cons d tail =>
    obtain ⟨rfl, rfl⟩ := List.cons.inj h
    exact ⟨tail, rfl, rfl⟩

theorem exists_of_startValue {frames : List Frame} {state : State} {c : Char} {cs rest : List Char}
    (h : startValue frames c cs = .ok (state, rest)) : ∃ piece, cs = piece ++ rest ∧
      ∀ behind, state.Ends behind → startValue frames c (piece ++ behind) = .ok (state, behind) := by
  simp only [startValue_eq_ok_iff] at h ⊢
  cases h with
  | string hs =>
    obtain ⟨piece, rfl, hpiece⟩ := exists_of_takeString hs
    exact ⟨piece, rfl, fun behind _ => .string (hpiece _ behind)⟩
  | object => exact ⟨[], rfl, fun behind _ => .object behind⟩
  | array => exact ⟨[], rfl, fun behind _ => .array behind⟩
  | word hc hword =>
    obtain ⟨piece, hcs, hpiece⟩ := exists_of_takeWord hword
    obtain ⟨tail, rfl, rfl⟩ := exists_tail_of_append hcs (length_rest_lt_of_takeWord hword)
    exact ⟨tail, rfl, fun behind _ => .word hc (hpiece behind)⟩
  | number hc hword hnumber hvalue =>
    obtain ⟨piece, hcs, hpiece⟩ := exists_of_takeNumber hnumber
    obtain ⟨tail, rfl, rfl⟩ := exists_tail_of_append hcs (length_rest_lt_of_takeNumber hnumber)
    refine ⟨tail, rfl, fun behind hbehind => ?_⟩
    have hnumber' := hpiece behind hbehind
    exact .number hc (takeWord_of_takeNumber hnumber') hnumber' hvalue

theorem exists_of_startKey {frames : List Frame} {members : List (String × Json)} {state : State}
    {c : Char} {cs rest : List Char} (h : startKey frames members c cs = .ok (state, rest)) :
    ∃ piece, cs = piece ++ rest ∧
      ∀ behind, startKey frames members c (piece ++ behind) = .ok (state, behind) := by
  simp only [startKey_eq_ok_iff] at h ⊢
  obtain ⟨rfl, s, hs, rfl⟩ := h
  obtain ⟨piece, rfl, hpiece⟩ := exists_of_takeString hs
  exact ⟨piece, rfl, fun behind => ⟨rfl, s, hpiece _ behind, rfl⟩⟩

/-- **A step takes a piece off the front**, whatever may stand behind it. -/
theorem exists_of_step {state state' : State} {c : Char} {cs rest : List Char}
    (h : step state c cs = .ok (state', rest)) : ∃ piece, cs = piece ++ rest ∧
      ∀ behind, state'.Ends behind → step state c (piece ++ behind) = .ok (state', behind) := by
  have hturn := turn_step state c
  generalize step state c = turn at hturn h
  have hkey {frames : List Frame} {members : List (String × Json)}
      (h : startKey frames members c cs = .ok (state', rest)) : ∃ piece, cs = piece ++ rest ∧
      ∀ behind, state'.Ends behind →
        startKey frames members c (piece ++ behind) = .ok (state', behind) := by
    obtain ⟨piece, hcs, hpiece⟩ := exists_of_startKey h
    exact ⟨piece, hcs, fun behind _ => hpiece behind⟩
  cases hturn with
  | value frames => exact exists_of_startValue h
  | item frames => exact exists_of_startValue h
  | firstKey frames => exact hkey h
  | key frames members => exact hkey h
  | taken htakes =>
    obtain ⟨rfl, rfl⟩ := Prod.mk.inj (Except.ok.inj h)
    exact ⟨[], rfl, fun behind _ => rfl⟩
  | noColon frames members key => exact absurd h (by simp [fail])
  | noMark frames v c fault => exact absurd h (by simp [fail])

end SchemaLang.Json
