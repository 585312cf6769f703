/-
# What loaded scalars denote

Numbers and truth values are taken generously, and here it is said what is taken for what, without
a word on how it is found out.  An integer may be written as a truth value, as a floating-point
number that is this integer exactly, or in a string (`IntegerText`); a truth value as one of two
numbers or as a word.  A value denotes at most one integer and at most one truth value, and what
the loaders return is denoted by what they were given (`denotes_of_asInteger`,
`denotesTruth_of_asBoolean`).

The way from a string to its integer goes through a normal form.  Each step towards it takes off
something that counts for nothing, so the lemmas on the steps say what has been taken off.
-/
import Mathlib.Algebra.Field.Rat
import Mathlib.Data.List.TakeWhile
import Mathlib.Tactic.FieldSimp
import Mathlib.Tactic.NormNum
import SchemaLang.Artifact.Scalar

namespace SchemaLang

open Text

/-! ## 1. Floating-point numbers -/

namespace Binary64

/-- The rational number that a finite binary number is. -/
def value? : Binary64 → Option ℚ
  | finite negative m e => some (signed negative m * (2 : ℚ) ^ e)
  | _ => none

theorem signed_mul (negative : Bool) (m k : Nat) :
    signed negative (m * k) = signed negative m * k := by
  cases negative <;> simp [signed]

/-- A binary number is the integer that is found for it. -/
theorem value?_of_toInt? {x : Binary64} {n : Int} (h : x.toInt? = some n) :
    x.value? = some (n : ℚ) := by
  cases x with
  | nan => exact absurd h (by simp [toInt?])
  | infinite negative => exact absurd h (by simp [toInt?])
  | finite negative m e =>
    have htwo : ∀ k, ((twoTo k : Nat) : ℚ) = (2 : ℚ) ^ k := by
      intro k
      simp [twoTo]
    simp only [toInt?] at h
    rw [value?, Option.some.injEq]
    split at h
    · next he =>
      obtain rfl : signed negative (m * twoTo e.toNat) = n := Option.some.inj h
      have hexp : ((e.toNat : Nat) : Int) = e := Int.toNat_of_nonneg he
      rw [signed_mul, Int.cast_mul, Int.cast_natCast, htwo, ← zpow_natCast, hexp]
    · next he =>
      split at h
      · next hwhole =>
        obtain rfl : signed negative (m / twoTo e.natAbs) = n := Option.some.inj h
        obtain ⟨q, rfl⟩ : twoTo e.natAbs ∣ m := Nat.dvd_of_mod_eq_zero (by simpa using hwhole)
        have hexp : e = -((e.natAbs : Nat) : Int) := by omega
        have hne : (2 : ℚ) ^ e.natAbs ≠ 0 := pow_ne_zero _ (by norm_num)
        rw [Nat.mul_div_cancel_left _ (twoTo_pos _), Nat.mul_comm, signed_mul, Int.cast_mul,
          Int.cast_natCast, htwo]
        nth_rewrite 2 [hexp]
        rw [zpow_neg, zpow_natCast, mul_assoc, mul_inv_cancel₀ hne, mul_one]
      · exact absurd h (by simp)

end Binary64

namespace Json

/-! ## 2. Strings that hold an integer -/

/-- A zero or an underscore. -/
def isZeroPart (c : Char) : Bool := c == '0' || c == '_'

/-- A digit or an underscore. -/
def isDigitPart (c : Char) : Bool := c.isDigit || c == '_'

/-- A point with nothing but zeros behind it, or nothing at all. -/
def IsZeroFraction (cs : List Char) : Prop :=
  cs = [] ∨ ∃ zeros, cs = '.' :: zeros ∧ ∀ c ∈ zeros, c = '0'

/-- A minus sign, or nothing. -/
def minus (negative : Bool) : List Char := if negative then ['-'] else []

/-- A text that holds an integer: the digits of the integer and what counts for nothing there,
which is blanks at the ends, a plus sign, zeros in front, underscores and an empty fraction.  The
minus sign may stand behind the zeros. -/
inductive IntegerText : List Char → Int → Prop
  | intro {front plus zeros digits fraction back : List Char} (negative : Bool)
      (hfront : ∀ c ∈ front, isWhiteSpace c) (hplus : plus = [] ∨ plus = ['+'])
      (hzeros : ∀ c ∈ zeros, isZeroPart c) (hdigits : ∀ c ∈ digits, isDigitPart c)
      (hsome : ∃ c ∈ digits, c.isDigit)
      (hfraction : IsZeroFraction fraction) (hback : ∀ c ∈ back, isWhiteSpace c) :
      IntegerText (front ++ (plus ++ zeros ++ minus negative ++ digits ++ fraction) ++ back)
        (Binary64.signed negative (digitsValue (digits.filter Char.isDigit)))

/-! ### Taking off what counts for nothing -/

theorem exists_of_strip (cs : List Char) :
    ∃ front back, cs = front ++ strip cs ++ back ∧
      (∀ c ∈ front, isWhiteSpace c) ∧ ∀ c ∈ back, isWhiteSpace c := by
  have hfront := List.takeWhile_append_dropWhile (p := isWhiteSpace) (l := cs)
  have hback := List.takeWhile_append_dropWhile (p := isWhiteSpace)
    (l := (cs.dropWhile isWhiteSpace).reverse)
  refine ⟨cs.takeWhile isWhiteSpace,
    ((cs.dropWhile isWhiteSpace).reverse.takeWhile isWhiteSpace).reverse, ?_, ?_, ?_⟩
  · rw [strip, List.append_assoc, ← List.reverse_append, hback, List.reverse_reverse, hfront]
  · exact fun c hc => List.mem_takeWhile_imp hc
  · exact fun c hc => List.mem_takeWhile_imp (List.mem_reverse.mp hc)

theorem exists_of_dropZerosBehind {last : Char} {cs ds : List Char} (hlast : isZeroPart last)
    (h : dropZerosBehind last cs = some ds) :
    ∃ zeros, last :: cs = zeros ++ ds ∧ ∀ c ∈ zeros, isZeroPart c := by
  induction cs generalizing last with
  | nil =>
    obtain rfl := Option.some.inj h
    exact ⟨[], rfl, by simp⟩
  | cons c cs ih =>
    rw [dropZerosBehind] at h
    split at h
    · next hc =>
      obtain ⟨zeros, heq, hzeros⟩ := ih hc h
      refine ⟨last :: zeros, by rw [heq, List.cons_append], ?_⟩
      simpa using ⟨hlast, hzeros⟩
    · split at h
      · obtain rfl := Option.some.inj h
        exact ⟨[], rfl, by simp⟩
      · split at h
        · obtain rfl := Option.some.inj h
          exact ⟨[last], rfl, by simpa using hlast⟩
        · exact absurd h (by simp)

theorem exists_of_dropLeadingZeros {cs ds : List Char} (h : dropLeadingZeros cs = some ds) :
    ∃ zeros, cs = zeros ++ ds ∧ ∀ c ∈ zeros, isZeroPart c := by
  cases cs with
  | nil => exact absurd h (by simp [dropLeadingZeros])
  | cons c cs =>
    rw [dropLeadingZeros] at h
    split at h
    · next hc => exact exists_of_dropZerosBehind (by simp [isZeroPart, hc]) h
    · split at h
      · obtain rfl := Option.some.inj h
        exact ⟨[], rfl, by simp⟩
      · exact absurd h (by simp)

theorem exists_of_dropZeroFraction (cs : List Char) :
    ∃ fraction, cs = dropZeroFraction cs ++ fraction ∧ IsZeroFraction fraction := by
  have hcut := List.takeWhile_append_dropWhile (p := (· != '.')) (l := cs)
  unfold dropZeroFraction
  split
  · next point zeros hdrop =>
    split
    · next hzeros =>
      have hpoint : point = '.' := by
        have hhead := List.head?_dropWhile_not (· != '.') cs
        simpa [hdrop] using hhead
      refine ⟨point :: '0' :: zeros, ?_, .inr ⟨'0' :: zeros, by rw [hpoint], ?_⟩⟩
      · rw [← hdrop, hcut]
      · simpa using hzeros
    · exact ⟨[], by simp, .inl rfl⟩
  · exact ⟨[], by simp, .inl rfl⟩

theorem flatten_pieces (sep : Char → Bool) (cs : List Char) :
    (pieces sep cs).flatten = cs.filter fun c => !sep c := by
  induction cs with
  | nil => rfl
  | cons c cs ih =>
    unfold pieces
    split
    · next hc => rw [List.flatten_cons, List.nil_append, ih, List.filter_cons_of_neg (by simp [hc])]
    · next hc =>
      rw [List.filter_cons_of_pos (by simp [hc]), ← ih]
      split
      · next hnone => exact absurd hnone (pieces_ne_nil sep cs)
      · next hpieces => rw [hpieces]; rfl

/-- What is left of a sign and digits once the underscores are gone. -/
theorem exists_of_dropUnderscores {whole ds : List Char} {negative : Bool}
    (h : dropUnderscores whole = minus negative ++ ds) (hds : ∀ c ∈ ds, c.isDigit) :
    ∃ zeros digits, whole = zeros ++ minus negative ++ digits ∧ (∀ c ∈ zeros, isZeroPart c) ∧
      (∀ c ∈ digits, isDigitPart c) ∧ digits.filter Char.isDigit = ds := by
  have hkept : ∀ {cs : List Char}, (cs.filter fun c => !(c == '_')) = ds →
      (∀ c ∈ cs, isDigitPart c) ∧ cs.filter Char.isDigit = ds := by
    intro cs hcs
    have hpart : ∀ c ∈ cs, isDigitPart c := by
      intro c hc
      by_cases hunder : c = '_'
      · simp [isDigitPart, hunder]
      · have hmem : c ∈ ds := by
          rw [← hcs]
          exact List.mem_filter.mpr ⟨hc, by simpa using hunder⟩
        simp [isDigitPart, hds c hmem]
    refine ⟨hpart, ?_⟩
    rw [← hcs]
    refine List.filter_congr fun c hc => ?_
    by_cases hunder : c = '_'
    · rw [hunder]
      decide
    · have hdigit : c.isDigit := by simpa [isDigitPart, hunder] using hpart c hc
      simp [hdigit, hunder]
  simp only [dropUnderscores] at h
  split at h
  · refine ⟨[], ds, by rw [h, List.nil_append], by simp, ?_, List.filter_eq_self.mpr hds⟩
    intro c hc
    simp [isDigitPart, hds c hc]
  · rw [flatten_pieces] at h
    cases negative with
    | false =>
      obtain ⟨hpart, hdigits⟩ := hkept h
      exact ⟨[], whole, by simp [minus], by simp, hpart, hdigits⟩
    | true =>
      obtain ⟨zeros, digits, rfl, hzeros, -, hrest⟩ := List.filter_eq_cons_iff.mp h
      obtain ⟨hpart, hdigits⟩ := hkept hrest
      refine ⟨zeros, digits, by simp [minus], fun c hc => ?_, hpart, hdigits⟩
      simpa [isZeroPart] using .inr (by simpa using hzeros c hc)

/-- A normal form is a sign and digits. -/
theorem exists_of_normalNumeral? {cs : List Char} {n : Int} (h : normalNumeral? cs = some n) :
    ∃ negative ds k, cs = minus negative ++ ds ∧ ds ≠ [] ∧ (∀ c ∈ ds, c.isDigit) ∧
      readNumeral ds = .ok k ∧ n = Binary64.signed negative k := by
  unfold normalNumeral? at h
  -- first the sign is taken off, then the digits are judged, then they are read
  split at h
  next negative ds hsign =>
  have hcs : cs = minus negative ++ ds := by
    split at hsign
    · obtain ⟨rfl, rfl⟩ := Prod.mk.inj hsign
      rfl
    · obtain ⟨rfl, rfl⟩ := Prod.mk.inj hsign
      rfl
  split at h
  · exact absurd h (by simp)
  · next hshape =>
    simp only [Bool.or_eq_true, not_or, Bool.not_eq_true', Bool.not_eq_false,
      List.all_eq_true] at hshape
    split at h
    · next k hread =>
      obtain rfl := Option.some.inj h
      exact ⟨negative, ds, k, hcs, by simpa using hshape.1.1, hshape.1.2, hread, rfl⟩
    · exact absurd h (by simp)

/-- The integer of a string is that of its normal form. -/
theorem exists_of_asIntegerText {s : String} {n : Int} (h : asIntegerText s = .valid n) :
    ∃ cs, normalize s.toList = some cs ∧ normalNumeral? cs = some n := by
  unfold asIntegerText at h
  split at h
  · exact absurd h (by simp [Checked.issue])
  split at h
  · next k hk =>
    obtain rfl := Checked.valid.inj h
    exact Option.bind_eq_some_iff.mp hk
  · exact absurd h (by simp [Checked.issue])

theorem digitsValue_of_readNumeral {ds : List Char} {n : Nat} (h : readNumeral ds = .ok n) :
    digitsValue ds = n := by
  unfold readNumeral at h
  split at h
  · exact absurd h (by simp)
  · exact Except.ok.inj h

theorem digitsValue_append_of_zeros {zeros : List Char} (h : ∀ c ∈ zeros, c = '0')
    (ds : List Char) : digitsValue (zeros ++ ds) = digitsValue ds := by
  induction zeros with
  | nil => rfl
  | cons c zeros ih =>
    obtain rfl : c = '0' := h c List.mem_cons_self
    show digitsValue (zeros ++ ds) = _
    exact ih fun d hd => h d (List.mem_cons_of_mem _ hd)

theorem filter_isDigit_of_zeros {zeros : List Char} (h : ∀ c ∈ zeros, isZeroPart c) :
    ∀ c ∈ zeros.filter Char.isDigit, c = '0' := by
  intro c hc
  obtain ⟨hmem, hdigit⟩ := List.mem_filter.mp hc
  have hpart : c = '0' ∨ c = '_' := by simpa [isZeroPart] using h c hmem
  rcases hpart with rfl | rfl
  · rfl
  · exact absurd hdigit (by decide)

/-! ### From the normal form back to the text -/

/-- What is left of a sign and digits in front of which nothing has been taken off. -/
theorem exists_of_normalizeUnsigned {cs ds : List Char} {negative : Bool}
    (h : normalizeUnsigned cs = some (minus negative ++ ds)) (hds : ∀ c ∈ ds, c.isDigit) :
    ∃ zeros digits fraction, cs = zeros ++ minus negative ++ digits ++ fraction ∧
      (∀ c ∈ zeros, isZeroPart c) ∧ (∀ c ∈ digits, isDigitPart c) ∧
      digits.filter Char.isDigit = ds ∧ IsZeroFraction fraction := by
  obtain ⟨es, hes, hnormal⟩ := Option.map_eq_some_iff.mp h
  obtain ⟨zeros, rfl, hzeros⟩ := exists_of_dropLeadingZeros hes
  obtain ⟨fraction, hcut, hfraction⟩ := exists_of_dropZeroFraction es
  obtain ⟨more, digits, hwhole, hmore, hdigits, hvalue⟩ := exists_of_dropUnderscores hnormal hds
  refine ⟨zeros ++ more, digits, fraction, ?_, ?_, hdigits, hvalue, hfraction⟩
  · rw [hwhole] at hcut
    rw [hcut]
    simp only [List.append_assoc]
  · intro c hc
    rcases List.mem_append.mp hc with hc | hc
    · exact hzeros c hc
    · exact hmore c hc

theorem exists_isDigit {digits ds : List Char} (h : digits.filter Char.isDigit = ds)
    (hds : ds ≠ []) : ∃ c ∈ digits, c.isDigit := by
  obtain ⟨c, hc⟩ := List.exists_mem_of_ne_nil _ (h ▸ hds)
  exact ⟨c, List.mem_filter.mp hc⟩

/-- What is left of a text between its blanks is a sign and digits. -/
theorem exists_of_normalize {cs ds : List Char} {negative : Bool}
    (h : normalize cs = some (minus negative ++ ds)) (hne : ds ≠ []) (hds : ∀ c ∈ ds, c.isDigit) :
    ∃ plus zeros digits fraction,
      strip cs = plus ++ zeros ++ minus negative ++ digits ++ fraction ∧
      (plus = [] ∨ plus = ['+']) ∧ (∀ c ∈ zeros, isZeroPart c) ∧ (∀ c ∈ digits, isDigitPart c) ∧
      (∃ c ∈ digits, c.isDigit) ∧ digitsValue (digits.filter Char.isDigit) = digitsValue ds ∧
      IsZeroFraction fraction := by
  unfold normalize at h
  split at h
  · exact absurd h (by simp)
  · next rest _ hstrip =>
    obtain ⟨zeros, digits, fraction, rfl, hzeros, hdigits, hvalue, hfraction⟩ :=
      exists_of_normalizeUnsigned h hds
    exact ⟨['+'], zeros, digits, fraction, by simp [hstrip], .inr rfl, hzeros, hdigits,
      exists_isDigit hvalue hne, by rw [hvalue], hfraction⟩
  · next rest hstrip =>
    obtain ⟨es, hes, hsign⟩ := Option.map_eq_some_iff.mp h
    -- the sign has been taken off in front, so the zeros behind it are leading digits
    cases negative with
    | false =>
      have hminus : '-' ∈ ds := by
        have hds' : '-' :: es = ds := hsign
        simp [← hds']
      exact absurd (hds _ hminus) (by decide)
    | true =>
      obtain rfl : es = ds := (List.cons.inj hsign).2
      have hplain : normalizeUnsigned rest = some (minus false ++ es) := hes
      obtain ⟨zeros, digits, fraction, rfl, hzeros, hdigits, hvalue, hfraction⟩ :=
        exists_of_normalizeUnsigned hplain hds
      refine ⟨[], [], zeros ++ digits, fraction, by simp [hstrip, minus], .inl rfl, by simp, ?_,
        ?_, ?_, hfraction⟩
      · intro c hc
        rcases List.mem_append.mp hc with hc | hc
        · have hpart : c = '0' ∨ c = '_' := by simpa [isZeroPart] using hzeros c hc
          rcases hpart with rfl | rfl <;> decide
        · exact hdigits c hc
      · obtain ⟨c, hc, hdigit⟩ := exists_isDigit hvalue hne
        exact ⟨c, List.mem_append_right _ hc, hdigit⟩
      · rw [List.filter_append, digitsValue_append_of_zeros (filter_isDigit_of_zeros hzeros),
          hvalue]
  · obtain ⟨zeros, digits, fraction, hstrip, hzeros, hdigits, hvalue, hfraction⟩ :=
      exists_of_normalizeUnsigned h hds
    exact ⟨[], zeros, digits, fraction, by simp [hstrip], .inl rfl, hzeros, hdigits,
      exists_isDigit hvalue hne, by rw [hvalue], hfraction⟩

/-- **A string holds the integer that is read from it.** -/
theorem integerText_of_asIntegerText {s : String} {n : Int} (h : asIntegerText s = .valid n) :
    IntegerText s.toList n := by
  obtain ⟨cs, hnormal, hvalue⟩ := exists_of_asIntegerText h
  obtain ⟨negative, ds, k, rfl, hne, hds, hread, rfl⟩ := exists_of_normalNumeral? hvalue
  obtain ⟨front, back, htext, hfront, hback⟩ := exists_of_strip s.toList
  obtain ⟨plus, zeros, digits, fraction, hstrip, hplus, hzeros, hdigits, hsome, hsame,
    hfraction⟩ := exists_of_normalize hnormal hne hds
  rw [htext, hstrip, ← digitsValue_of_readNumeral hread, ← hsame]
  exact .intro negative hfront hplus hzeros hdigits hsome hfraction hback

/-! ### One integer for each text -/

theorem isDigit_of_isWhiteSpace {c : Char} (h : isWhiteSpace c) : c.isDigit = false := by
  by_contra hdigit
  rw [Bool.not_eq_false] at hdigit
  have hlow : '0'.toNat ≤ c.toNat := of_decide_eq_true (Bool.and_eq_true_iff.mp hdigit).1
  have hhigh : c.toNat ≤ '9'.toNat := of_decide_eq_true (Bool.and_eq_true_iff.mp hdigit).2
  have hzero : '0'.toNat = 48 := rfl
  have hnine : '9'.toNat = 57 := rfl
  obtain ⟨r, hr, hbounds⟩ := CodeRanges.has_iff.mp h
  have hapart : ∀ r ∈ whiteSpaceRanges, r.2 < 48 ∨ 57 < r.1 := by decide
  have := hapart r hr
  omega

/-- Blanks hold no digit, no minus sign and no point. -/
theorem blanks_plain {cs : List Char} (h : ∀ c ∈ cs, isWhiteSpace c) :
    cs.filter Char.isDigit = [] ∧ '-' ∉ cs ∧ '.' ∉ cs := by
  refine ⟨List.filter_eq_nil_iff.mpr fun c hc => ?_, fun hc => ?_, fun hc => ?_⟩
  · simp [isDigit_of_isWhiteSpace (h c hc)]
  · exact absurd (h _ hc) (by decide)
  · exact absurd (h _ hc) (by decide)

/-- The integer of a text can be told from the minus sign in it and from its digits in front of
the point. -/
theorem IntegerText.eq_signed {cs : List Char} {n : Int} (h : IntegerText cs n) :
    n = Binary64.signed (cs.contains '-')
      (digitsValue ((cs.takeWhile (· != '.')).filter Char.isDigit)) := by
  cases h with
  | @intro front plus zeros digits fraction back negative hfront hplus hzeros hdigits _ hfraction
      hback =>
    obtain ⟨hfrontDigits, hfrontMinus, hfrontPoint⟩ := blanks_plain hfront
    obtain ⟨hbackDigits, hbackMinus, hbackPoint⟩ := blanks_plain hback
    have hplusPlain : plus.filter Char.isDigit = [] ∧ '-' ∉ plus ∧ '.' ∉ plus := by
      rcases hplus with rfl | rfl <;> decide
    have hminus : (minus negative).filter Char.isDigit = [] ∧ '.' ∉ minus negative ∧
        ('-' ∈ minus negative ↔ negative) := by
      cases negative <;> decide
    have hzerosPlain : '-' ∉ zeros ∧ '.' ∉ zeros :=
      ⟨fun hc => absurd (hzeros _ hc) (by decide), fun hc => absurd (hzeros _ hc) (by decide)⟩
    have hdigitsPlain : '-' ∉ digits ∧ '.' ∉ digits :=
      ⟨fun hc => absurd (hdigits _ hc) (by decide), fun hc => absurd (hdigits _ hc) (by decide)⟩
    have hfractionPlain : '-' ∉ fraction := by
      rcases hfraction with rfl | ⟨zeros, rfl, hall⟩
      · simp
      · intro hc
        rcases List.mem_cons.mp hc with hc | hc
        · exact absurd hc (by decide)
        · exact absurd (hall _ hc) (by decide)
    have hbehind : ((fraction ++ back).takeWhile (· != '.')).filter Char.isDigit = [] := by
      rcases hfraction with rfl | ⟨zeros, rfl, -⟩
      · refine List.filter_eq_nil_iff.mpr fun c hc => ?_
        exact List.filter_eq_nil_iff.mp hbackDigits c (List.takeWhile_subset _ hc)
      · rfl
    have hsign : (front ++ (plus ++ zeros ++ minus negative ++ digits ++ fraction) ++ back).contains
        '-' = negative := by
      rw [Bool.eq_iff_iff, List.contains_iff_mem]
      simp only [List.mem_append, hfrontMinus, hplusPlain.2.1, hzerosPlain.1, hdigitsPlain.1,
        hfractionPlain, hbackMinus, hminus.2.2, false_or, or_false]
    have hbefore : '.' ∉ front ++ plus ++ zeros ++ minus negative ++ digits := by
      simp only [List.mem_append, hfrontPoint, hplusPlain.2.2, hzerosPlain.2, hdigitsPlain.2,
        hminus.2.1, or_self, not_false_eq_true]
    have hcut : front ++ (plus ++ zeros ++ minus negative ++ digits ++ fraction) ++ back =
        (front ++ plus ++ zeros ++ minus negative ++ digits) ++ (fraction ++ back) := by
      simp only [List.append_assoc]
    have hrun : ∀ c ∈ front ++ plus ++ zeros ++ minus negative ++ digits, (c != '.') = true :=
      fun c hc => by simpa using ne_of_mem_of_not_mem hc hbefore
    rw [hsign, hcut, List.takeWhile_append_of_pos hrun, List.filter_append, hbehind]
    simp only [List.filter_append, hfrontDigits, hplusPlain.1, hminus.1, List.nil_append,
      List.append_nil]
    rw [digitsValue_append_of_zeros (filter_isDigit_of_zeros hzeros)]

theorem IntegerText.unique {cs : List Char} {m n : Int} (hm : IntegerText cs m)
    (hn : IntegerText cs n) : m = n :=
  hm.eq_signed.trans hn.eq_signed.symm

/-! ## 3. Integers -/

/-- The integer that a value is taken for. -/
inductive Denotes : Json → Int → Prop
  | int (n : Int) : Denotes (int n) n
  | bool (b : Bool) : Denotes (bool b) b.toInt
  | float {x : Binary64} {n : Int} (h : x.value? = some (n : ℚ)) : Denotes (float x) n
  | string {s : String} {n : Int} (h : IntegerText s.toList n) : Denotes (string s) n

theorem Denotes.unique {v : Json} {m n : Int} (hm : v.Denotes m) (hn : v.Denotes n) : m = n := by
  cases hm with
  | int => cases hn; rfl
  | bool => cases hn; rfl
  | float hm =>
    cases hn with
    | float hn => exact Int.cast_injective (Option.some.inj (hm.symm.trans hn))
  | string hm =>
    cases hn with
    | string hn => exact hm.unique hn

theorem of_asIntegerFloat {x : Binary64} {n : Int} (h : asIntegerFloat x = .valid n) :
    x.toInt? = some n ∧ fitsWord n := by
  unfold asIntegerFloat at h
  split at h
  · split at h
    · next k hk =>
      split at h
      · next hfits =>
        obtain rfl := Checked.valid.inj h
        exact ⟨hk, hfits⟩
      · exact absurd h (by simp [Checked.issue])
    · exact absurd h (by simp [Checked.issue])
  · exact absurd h (by simp [Checked.issue])

theorem value?_of_asIntegerFloat {x : Binary64} {n : Int} (h : asIntegerFloat x = .valid n) :
    x.value? = some (n : ℚ) :=
  Binary64.value?_of_toInt? (of_asIntegerFloat h).1

/-- **Whatever is taken for an integer denotes it.** -/
theorem denotes_of_asInteger {v : Json} {n : Int} (h : asInteger v = .valid n) : v.Denotes n := by
  cases v with
  | int k =>
    obtain rfl := Checked.valid.inj h
    exact .int k
  | bool b =>
    obtain rfl := Checked.valid.inj h
    cases b with
    | false => exact .bool false
    | true => exact .bool true
  | float x => exact .float (value?_of_asIntegerFloat h)
  | string s => exact .string (integerText_of_asIntegerText h)
  | null => exact absurd h (by simp [asInteger, Checked.issue])
  | array items => exact absurd h (by simp [asInteger, Checked.issue])
  | object members => exact absurd h (by simp [asInteger, Checked.issue])

/-! ## 4. Truth values -/

/-- The words for a truth value. -/
def truthWords (b : Bool) : List String := if b then trueWords else falseWords

/-- The truth value that a value is taken for. -/
inductive DenotesTruth : Json → Bool → Prop
  | bool (b : Bool) : DenotesTruth (bool b) b
  | int (b : Bool) : DenotesTruth (int b.toInt) b
  | float {x : Binary64} {b : Bool} (h : x.value? = some (b.toInt : ℚ)) : DenotesTruth (float x) b
  | word {s : String} {b : Bool} (h : lowerAscii s ∈ truthWords b) : DenotesTruth (string s) b

theorem toInt_injective {a b : Bool} (h : a.toInt = b.toInt) : a = b := by
  revert a b
  decide

theorem DenotesTruth.unique {v : Json} {a b : Bool} (ha : v.DenotesTruth a)
    (hb : v.DenotesTruth b) : a = b := by
  cases ha with
  | bool => cases hb; rfl
  | int =>
    generalize hn : a.toInt = n at hb
    cases hb with
    | int => exact toInt_injective hn
  | float ha =>
    cases hb with
    | float hb => exact toInt_injective (Int.cast_injective (Option.some.inj (ha.symm.trans hb)))
  | word ha =>
    cases hb with
    | word hb =>
      have hdisjoint : ∀ w ∈ trueWords, w ∉ falseWords := by decide
      cases a <;> cases b
      · rfl
      · exact absurd ha (hdisjoint _ hb)
      · exact absurd hb (hdisjoint _ ha)
      · rfl

theorem eq_toInt_of_asBooleanInt {n : Int} {b : Bool} (h : asBooleanInt n = .valid b) :
    n = b.toInt := by
  unfold asBooleanInt at h
  split at h
  · next hn =>
    obtain rfl := Checked.valid.inj h
    exact hn
  · split at h
    · next hn =>
      obtain rfl := Checked.valid.inj h
      exact hn
    · exact absurd h (by simp [Checked.issue])

theorem mem_truthWords_of_asBooleanText {s : String} {b : Bool} (h : asBooleanText s = .valid b) :
    lowerAscii s ∈ truthWords b := by
  simp only [asBooleanText] at h
  split at h
  · next hword =>
    obtain rfl := Checked.valid.inj h
    exact List.contains_iff_mem.mp hword
  · split at h
    · next hword =>
      obtain rfl := Checked.valid.inj h
      exact List.contains_iff_mem.mp hword
    · exact absurd h (by simp [Checked.issue])

/-- **Whatever is taken for a truth value denotes it.** -/
theorem denotesTruth_of_asBoolean {v : Json} {b : Bool} (h : asBoolean v = .valid b) :
    v.DenotesTruth b := by
  unfold asBoolean at h
  split at h
  · obtain rfl := Checked.valid.inj h
    exact .bool _
  · split at h
    · rw [eq_toInt_of_asBooleanInt h]
      exact .int b
    · exact absurd h (by simp [Checked.issue])
  · split at h
    · next n hn =>
      have hvalue := value?_of_asIntegerFloat hn
      rw [eq_toInt_of_asBooleanInt h] at hvalue
      exact .float hvalue
    · exact absurd h (by simp [Checked.issue])
  · exact .word (mem_truthWords_of_asBooleanText h)
  · exact absurd h (by simp [Checked.issue])

end Json
end SchemaLang
