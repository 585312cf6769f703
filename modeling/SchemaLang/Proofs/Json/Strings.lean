/-
# Written strings are read

A string is written character by character, and each character as a piece that the reader takes as
a whole.  The hard case is a character above U+FFFF: its two units are read one after the other,
and only the first of them tells that the second belongs to it.  A unit must not be the last thing
in a text, which it never is, since the closing quote is behind it.
-/
import SchemaLang.Json.Read
import SchemaLang.Json.Written

namespace SchemaLang.Json

open Text

/-! ## 1. Units -/

theorem hexValue?_hexDigit {d : Nat} (hd : d < 16) : hexValue? (hexDigit d) = some d := by
  have hall : ∀ d < 16, hexValue? (hexDigit d) = some d := by decide
  exact hall d hd

/-- The four digits of a unit. -/
theorem hexDigits_four (n : Nat) : hexDigits 4 n =
    [hexDigit (n / 16 / 16 / 16 % 16), hexDigit (n / 16 / 16 % 16), hexDigit (n / 16 % 16),
      hexDigit (n % 16)] := rfl

theorem unit?_hexDigits {n : Nat} (hn : n < 0x10000) :
    unit? (hexDigit (n / 16 / 16 / 16 % 16)) (hexDigit (n / 16 / 16 % 16))
      (hexDigit (n / 16 % 16)) (hexDigit (n % 16)) = some n := by
  simp only [unit?, hexValue?_hexDigit (Nat.mod_lt _ (by decide : 0 < 16)), bind,
    Option.bind_some, pure, Option.some.injEq]
  omega

/-- No character is half of a surrogate pair. -/
theorem not_surrogate (c : Char) :
    isHighSurrogate c.toNat = false ∧ isLowSurrogate c.toNat = false := by
  have hvalid : c.toNat < 0xD800 ∨ 0xDFFF < c.toNat ∧ c.toNat < 0x110000 := c.valid
  simp only [isHighSurrogate, isLowSurrogate, Bool.and_eq_false_iff, decide_eq_false_iff_not]
  omega

theorem charOfUnit_toNat (c : Char) : charOfUnit c.toNat = c := by
  obtain ⟨hhigh, hlow⟩ := not_surrogate c
  rw [charOfUnit, hhigh, hlow, Bool.or_self, if_neg Bool.false_ne_true, Char.ofNat_toNat]

/-- A character that is one unit. -/
theorem takeUnit_single {c : Char} (hc : c.toNat < 0x10000) (next : Char) (rest : List Char) :
    takeUnit (hexDigits 4 c.toNat ++ next :: rest) = .ok (c, next :: rest) := by
  rw [hexDigits_four]
  simp only [List.cons_append, List.nil_append, takeUnit, unit?_hexDigits hc,
    (not_surrogate c).1, charOfUnit_toNat]

/-- A character that is two units. -/
theorem takeUnit_pair {c : Char} (hc : 0x10000 ≤ c.toNat) (next : Char) (rest : List Char) :
    takeUnit (hexDigits 4 (0xD800 + (c.toNat - 0x10000) / 0x400) ++
      (writtenUnit (0xDC00 + (c.toNat - 0x10000) % 0x400) ++ next :: rest)) =
        .ok (c, next :: rest) := by
  have hvalid : c.toNat < 0xD800 ∨ 0xDFFF < c.toNat ∧ c.toNat < 0x110000 := c.valid
  obtain ⟨high, hhigh⟩ : ∃ high, high = 0xD800 + (c.toNat - 0x10000) / 0x400 := ⟨_, rfl⟩
  obtain ⟨low, hlow⟩ : ∃ low, low = 0xDC00 + (c.toNat - 0x10000) % 0x400 := ⟨_, rfl⟩
  have hhighUnit : isHighSurrogate high = true := by
    simp only [isHighSurrogate, Bool.and_eq_true, decide_eq_true_eq]
    omega
  have hlowUnit : isLowSurrogate low = true := by
    simp only [isLowSurrogate, Bool.and_eq_true, decide_eq_true_eq]
    omega
  have hjoin : joinSurrogates high low = c := by
    have hnat : 0x10000 + (high - 0xD800) * 0x400 + (low - 0xDC00) = c.toNat := by omega
    rw [joinSurrogates, hnat, Char.ofNat_toNat]
  rw [← hhigh, ← hlow, writtenUnit, hexDigits_four, hexDigits_four]
  simp only [List.cons_append, List.nil_append, takeUnit,
    unit?_hexDigits (show high < 0x10000 by omega), unit?_hexDigits (show low < 0x10000 by omega),
    hhighUnit, hlowUnit, if_true, hjoin]

/-! ## 2. Characters -/

theorem escapedChar?_of_controlLetter? {c letter : Char} (h : controlLetter? c = some letter) :
    letter ≠ 'u' ∧ escapedChar? letter = some c := by
  unfold controlLetter? at h
  split at h
  case h_6 => exact absurd h (by simp)
  all_goals
    obtain rfl := Option.some.inj h
    decide

/-- A letter behind a backslash. -/
theorem takeChar_escape {opening rest : List Char} {letter c : Char} (hu : letter ≠ 'u')
    (h : escapedChar? letter = some c) :
    takeChar opening '\\' (letter :: rest) = .ok (c, rest) := by
  unfold takeChar
  rw [if_pos (by decide)]
  split
  · next hnil => exact absurd hnil (by simp)
  · next rest' hcons => exact absurd (List.cons.inj hcons).1 hu
  · next letter' rest' _ hcons =>
    obtain ⟨rfl, rfl⟩ := List.cons.inj hcons
    rw [h]

theorem takeChar_unit {opening rest : List Char} :
    takeChar opening '\\' ('u' :: rest) = takeUnit rest := rfl

/-- **A character is read as it was written**, whatever is behind it. -/
theorem exists_takeChar (opening : List Char) (c next : Char) (rest : List Char) :
    ∃ w ws, writtenChar c = w :: ws ∧ w ≠ '"' ∧
      takeChar opening w (ws ++ next :: rest) = .ok (c, next :: rest) := by
  unfold writtenChar
  split
  · next hc =>
    have hescaped : c ≠ 'u' ∧ escapedChar? c = some c := by
      rcases Bool.or_eq_true_iff.mp hc with hc | hc
      · rw [eq_of_beq hc]
        decide
      · rw [eq_of_beq hc]
        decide
    exact ⟨_, _, rfl, by decide, takeChar_escape hescaped.1 hescaped.2⟩
  · next hplain =>
    split
    · next letter hletter =>
      obtain ⟨hu, hescaped⟩ := escapedChar?_of_controlLetter? hletter
      exact ⟨_, _, rfl, by decide, takeChar_escape hu hescaped⟩
    · simp only
      split
      · next hvisible =>
        obtain ⟨hquote, hslash⟩ : c ≠ '"' ∧ c ≠ '\\' := by simpa using hplain
        have hlow : 0x20 ≤ c.toNat := by
          simp only [Bool.and_eq_true, decide_eq_true_eq] at hvisible
          exact hvisible.1
        refine ⟨c, [], rfl, hquote, ?_⟩
        unfold takeChar
        rw [if_neg (by simpa using hslash), if_neg (Nat.not_lt.mpr hlow)]
        rfl
      · split
        · next hunit =>
          exact ⟨_, _, rfl, by decide, takeChar_unit.trans (takeUnit_single hunit next rest)⟩
        · next hpair =>
          refine ⟨_, _, rfl, by decide, takeChar_unit.trans ?_⟩
          have htake := takeUnit_pair (Nat.not_lt.mp hpair) next rest
          rwa [← List.append_assoc] at htake

/-! ## 3. Strings -/

theorem takeString_quote (opening rest : List Char) :
    takeString opening ('"' :: rest) = .ok ([], rest) := by
  rw [takeString, if_pos (by decide)]

theorem takeString_char {opening cs rest : List Char} {w c : Char} (hw : w ≠ '"')
    (h : takeChar opening w cs = .ok (c, rest)) : takeString opening (w :: cs) =
      (takeString opening rest).map fun (s, behind) => (c :: s, behind) := by
  rw [takeString, if_neg (by simpa using hw)]
  split
  · next e he => exact absurd (he.symm.trans h) (by simp)
  · next d rest' hok =>
    obtain ⟨rfl, rfl⟩ := Prod.mk.inj (Except.ok.inj (hok.symm.trans h))
    rfl

/-- **A string is read as it was written**, up to its closing quote. -/
theorem takeString_written (opening s rest : List Char) :
    takeString opening (s.flatMap writtenChar ++ '"' :: rest) = .ok (s, rest) := by
  induction s with
  | nil => exact takeString_quote opening rest
  | cons c s ih =>
    obtain ⟨next, behind, hbehind⟩ :
        ∃ next behind, s.flatMap writtenChar ++ '"' :: rest = next :: behind :=
      List.exists_cons_of_ne_nil (by simp)
    obtain ⟨w, ws, hwritten, hw, htake⟩ := exists_takeChar opening c next behind
    rw [List.flatMap_cons, List.append_assoc, hbehind, hwritten, List.cons_append,
      takeString_char hw htake, ← hbehind, ih]
    rfl

end SchemaLang.Json
