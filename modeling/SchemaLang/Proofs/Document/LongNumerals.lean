/-
# Texts that are answered without a place

Every failure points at a place of the text, except for one: a numeral that is too long is reported
by its length alone.  Such a report is neither a lexical nor a syntax error, so a reader who expects
a document or one of those gets nothing of the kind.

A numeral is read where the grammar can use one (`NumeralDue`).  The first long numeral of a text is
the only one that can be due, as nothing behind it is viable.  If it is due the text is answered by
it, whatever else is wrong further on; if it is not, a syntax error is reported, at the numeral at
the latest (`ofTokens_of_longNumeral`).
-/
import SchemaLang.Proofs.Document.FirstError
import SchemaLang.Proofs.Document.Text
import SchemaLang.Proofs.Grammar.LongNumerals

namespace SchemaLang

open Text Grammar

variable {d : Dialect} {s : TokenStream}

/-! ## 1. The first long numeral -/

/-- A numeral stands in the text where the grammar can use one.  Its own digits play no part in
this: it is `0` that keeps the text viable in its place. -/
structure NumeralDue (d : Dialect) (s : TokenStream) (k : Nat) (ds : String) : Prop where
  stands : s.lexemes[k]? = some (.integer ds)
  due : Viable d ((s.lexemes.take k).map some ++ [some (.integer "0")])

/-- What is in front of a viable token can be read. -/
theorem readable_of_viable {u : List Lexeme} {t : Option Lexeme}
    (h : Viable d (u.map some ++ [t])) : Readable u := by
  obtain ⟨w, -, tree, -, hleaves⟩ := mayFollow_iff.mp (viable_append_iff.mp h)
  intro l hl
  exact tree.readable l (hleaves ▸ List.mem_append_left _ hl)

/-- Behind a long numeral nothing is due. -/
theorem NumeralDue.le_of_long {j k : Nat} {ds es : String} (h : NumeralDue d s k ds)
    (hj : s.lexemes[j]? = some (.integer es)) (hlong : maxDigits < es.toList.length) : k ≤ j := by
  by_contra hlt
  have hmem : Lexeme.integer es ∈ s.lexemes.take k :=
    List.mem_of_getElem? ((List.getElem?_take_of_lt (Nat.lt_of_not_le hlt)).trans hj)
  have hshort := (readable_of_viable h.due _ hmem).short es rfl
  omega

/-- Some numeral is too long, so one of them is the first. -/
theorem TokenStream.exists_first_longNumeral : ∀ {s : TokenStream} {ds : String},
    .integer ds ∈ s.lexemes → maxDigits < ds.toList.length →
    ∃ ts t rest es, s = prepend ts (token t rest) ∧ (∀ u ∈ ts, ShortToken u) ∧
      t.lexeme = .integer es ∧ maxDigits < es.toList.length
  | done p, ds, hds, _ => by simp [lexemes, toList] at hds
  | fault e, ds, hds, _ => by simp [lexemes, toList] at hds
  | token t rest, ds, hds, hlong => by
    by_cases ht : ShortToken t
    · have hrest : .integer ds ∈ rest.lexemes := by
        rcases List.mem_cons.mp hds with heq | hmem
        · exact absurd (ht ds heq.symm) (Nat.not_le.mpr hlong)
        · exact hmem
      obtain ⟨ts, u, rest', es, rfl, hts, hu, hes⟩ := exists_first_longNumeral hrest hlong
      refine ⟨t :: ts, u, rest', es, rfl, fun v hv => ?_, hu, hes⟩
      rcases List.mem_cons.mp hv with rfl | hv
      · exact ht
      · exact hts v hv
    · simp only [ShortToken, not_forall, Nat.not_le] at ht
      obtain ⟨es, hes, hlong'⟩ := ht
      exact ⟨[], t, rest, es, rfl, by simp, hes, hlong'⟩

/-! ## 2. What the first long numeral comes to -/

/-- **A long numeral is reported exactly where it is due.**  Elsewhere it is a syntax error like any
other token. -/
theorem ofTokens_of_longNumeral {ts : List Token} {t : Token} {rest : TokenStream} {ds : String}
    (hs : (TokenStream.prepend ts (.token t rest)).WellFormed) (hts : ∀ u ∈ ts, ShortToken u)
    (ht : t.lexeme = .integer ds) (hlong : maxDigits < ds.toList.length) :
    (Viable d ((lexemesOf ts).map some ++ [some (.integer "0")]) ∧
        Document.ofTokens d.rules (.prepend ts (.token t rest)) =
          .error (.longNumeral ⟨ds.toList.length⟩)) ∨
      ¬ Viable d ((lexemesOf ts).map some ++ [some (.integer "0")]) ∧
        ∃ e, Document.ofTokens d.rules (.prepend ts (.token t rest)) = .error (.noMatch e) := by
  -- the same text with `0` for the numeral, and some fault right behind it
  let stop : LexicalError := ⟨.unterminatedString, t.pos⟩
  let zero : Token := ⟨.integer "0", t.pos⟩
  let s : TokenStream := .prepend ts (.token t rest)
  let s₀ : TokenStream := .prepend ts (.token zero (.fault stop))
  have hlexemes : s₀.lexemes = lexemesOf ts ++ [Lexeme.integer "0"] := by
    simp [s₀, TokenStream.lexemes, lexemesOf, TokenStream.toList, zero]
  have hs₀ : s₀.WellFormed := by
    intro u hu
    simp only [s₀, TokenStream.toList_prepend, TokenStream.toList, List.mem_append,
      List.mem_singleton] at hu
    rcases hu with hu | rfl
    · exact hs u (by rw [TokenStream.toList_prepend]; exact List.mem_append_left _ hu)
    · exact (by decide : (Lexeme.integer "0").WellFormed)
  have hshort : ∀ es, .integer es ∈ s₀.lexemes → es.toList.length ≤ maxDigits := by
    intro es hes
    rw [hlexemes, List.mem_append, List.mem_singleton] at hes
    rcases hes with hes | hes
    · obtain ⟨u, hu, heq⟩ := List.mem_map.mp hes
      exact hts u hu es heq
    · obtain rfl := Lexeme.integer.inj hes
      decide
  let ns : Numerals := {
    place := ts.length, short := zero, long := t, shortDigits := "0", longDigits := ds
    short_eq := rfl, long_eq := ht, isShort := by decide, isLong := hlong }
  have hfork : Fork ns (.front s₀) (.front s) := fork_prepend _ _ hts (Nat.zero_add _)
  have hforked := (forks_document d.rules (s₀.size + 1) (s.size + 1)).fork hfork
  have hspent := document_ne_exhausted d.rules s
  have hviable : (lexemesOf ts).map some ++ [some (.integer "0")] = s₀.lexemes.map some := by
    rw [hlexemes, List.map_append]
    rfl
  rw [hviable]
  rcases @ofTokens_of_fault d s₀ stop hs₀ (by simp [s₀, TokenStream.error?]) hshort with
    ⟨hv, hreport⟩ | ⟨hv, m, hm, hfail⟩
  · refine .inl ⟨hv, Document.ofTokens_eq_longNumeral_iff.mpr ?_⟩
    rw [Document.ofTokens_eq_lexical_iff.mp hreport] at hforked
    generalize hreply : Grammar.document d.rules (s.size + 1) (.front s) = r at hforked hspent
    cases hforked with
    | beyond => rfl
    | to_exhausted => exact absurd rfl hspent
  · refine .inr ⟨hv, ?_⟩
    have hle : m.index ≤ ts.length := by
      simp only [s₀, TokenStream.toList_prepend, TokenStream.toList, List.length_append,
        List.length_singleton] at hm
      omega
    rw [hfail] at hforked
    generalize hreply : Grammar.document d.rules (s.size + 1) (.front s) = r at hforked hspent
    cases hforked with
    | fail m' _ => exact ⟨_, Document.ofTokens_eq_noMatch_iff.mpr ⟨m', hreply, rfl⟩⟩
    | beyond hnot => exact absurd hle hnot
    | to_exhausted => exact absurd rfl hspent

/-- **The texts that are answered by the length of a numeral** are those where a long numeral is
due, and its length is the one that is reported. -/
theorem ofTokens_eq_longNumeral_iff_due (hs : s.WellFormed) (n : Nat) :
    Document.ofTokens d.rules s = .error (.longNumeral ⟨n⟩) ↔
      ∃ k ds, NumeralDue d s k ds ∧ maxDigits < ds.toList.length ∧ ds.toList.length = n := by
  constructor
  · intro h
    have hexact := exact_document d (s.size + 1) (.front s) hs
    rw [Document.ofTokens_eq_longNumeral_iff.mp h] at hexact
    obtain ⟨ds, hds, hlong⟩ := hexact
    obtain ⟨ts, t, rest, es, rfl, hts, ht, hes⟩ := TokenStream.exists_first_longNumeral hds hlong
    rcases @ofTokens_of_longNumeral d ts t rest es hs hts ht hes with ⟨hv, hreport⟩ | ⟨-, e, hreport⟩
    · refine ⟨ts.length, es, ⟨?_, ?_⟩, hes, ?_⟩
      · simp [TokenStream.lexemes, TokenStream.toList, ht]
      · rwa [take_lexemes_prepend]
      · simpa using hreport.symm.trans h
    · exact absurd (hreport.symm.trans h) (by simp)
  · rintro ⟨k, ds, hdue, hlong, rfl⟩
    have hmem : Lexeme.integer ds ∈ s.lexemes := List.mem_of_getElem? hdue.stands
    obtain ⟨ts, t, rest, es, rfl, hts, ht, hes⟩ := TokenStream.exists_first_longNumeral hmem hlong
    have hfirst : (TokenStream.prepend ts (.token t rest)).lexemes[ts.length]? =
        some (.integer es) := by
      simp [TokenStream.lexemes, TokenStream.toList, ht]
    obtain rfl : k = ts.length := by
      refine Nat.le_antisymm (hdue.le_of_long hfirst hes) (Nat.le_of_not_lt fun hlt => ?_)
      have hstands := hdue.stands
      simp only [TokenStream.lexemes, TokenStream.toList_prepend, List.map_append] at hstands
      rw [List.getElem?_append_left (by simpa using hlt)] at hstands
      obtain ⟨u, hu, heq⟩ := List.mem_map.mp (List.mem_of_getElem? hstands)
      exact absurd (hts u hu ds heq) (Nat.not_le.mpr hlong)
    obtain rfl : es = ds := by simpa using hfirst.symm.trans hdue.stands
    have hdue := hdue.due
    rw [take_lexemes_prepend] at hdue
    rcases @ofTokens_of_longNumeral d ts t rest es hs hts ht hes with ⟨-, hreport⟩ | ⟨hv, -⟩
    · exact hreport
    · exact absurd hdue hv

/-- **Which texts are answered by a document or an error of their own.** -/
theorem parse_answered_iff (d : Dialect) (source : String) :
    ((∃ doc, Document.parse d source = .ok doc) ∨
        (∃ e, Document.parse d source = .error (.lexical e)) ∨
        ∃ e, Document.parse d source = .error (.noMatch e)) ↔
      ∀ k ds, NumeralDue d (scan d.rules source) k ds → ds.toList.length ≤ maxDigits := by
  have hiff := @ofTokens_eq_longNumeral_iff_due d _ (wellFormed_scan d.rules source)
  constructor
  · intro h k ds hdue
    by_contra hlong
    have hreport : Document.parse d source = _ :=
      (hiff _).mpr ⟨k, ds, hdue, Nat.lt_of_not_le hlong, rfl⟩
    rw [hreport] at h
    simp at h
  · intro h
    cases hparse : Document.parse d source with
    | ok doc => exact .inl ⟨doc, rfl⟩
    | error e =>
      cases e with
      | lexical e => exact .inr (.inl ⟨e, rfl⟩)
      | noMatch e => exact .inr (.inr ⟨e, rfl⟩)
      | longNumeral e =>
        obtain ⟨k, ds, hdue, hlong, -⟩ := (hiff e.digits).mp hparse
        exact absurd (h k ds hdue) (Nat.not_le.mpr hlong)

/-- An option whose value is a numeral of one digit too many. -/
def longOption : String :=
  "option a = " ++ String.ofList (List.replicate (maxDigits + 1) '1') ++ " ;"

/-- The lexemes of `option a = ds ;`. -/
def optionLexemes (ds : String) : List Lexeme :=
  [.keyword .kwOption, .identifier "a", .punct .equals, .integer ds, .punct .semicolon]

theorem longOption_eq :
    longOption = spaced (optionLexemes (String.ofList (List.replicate (maxDigits + 1) '1'))) := by
  have h : ∀ ds : List Char, ("option a = " ++ String.ofList ds ++ " ;").toList =
      (spaced (optionLexemes (String.ofList ds))).toList := by
    intro ds
    simp [spaced, optionLexemes, Lexeme.source, Lexeme.text, Keyword.text, Punct.char]
  exact String.toList_injective (h _)

/-- The long option is neither read nor refused with a lexical or a syntax error. -/
theorem parse_longOption :
    Document.parse .strict longOption = .error (.longNumeral ⟨maxDigits + 1⟩) ∧
      ¬ ((∃ doc, Document.parse .strict longOption = .ok doc) ∨
        (∃ e, Document.parse .strict longOption = .error (.lexical e)) ∨
        ∃ e, Document.parse .strict longOption = .error (.noMatch e)) := by
  let ds := String.ofList (List.replicate (maxDigits + 1) '1')
  have hlength : ds.toList.length = maxDigits + 1 := by
    rw [String.toList_ofList, List.length_replicate]
  have hdigits : (Lexeme.integer ds).WellFormed := by
    have hone : ∀ c ∈ ds.toList, c = '1' := fun c hc => by
      rw [String.toList_ofList] at hc
      exact List.eq_of_mem_replicate hc
    refine ⟨fun hnil => ?_, fun c hc => by rw [hone c hc]; decide⟩
    rw [hnil] at hlength
    exact absurd hlength (by simp)
  have hwf : ∀ l ∈ optionLexemes ds, l.WellFormed := by
    intro l hl
    simp only [optionLexemes, List.mem_cons, List.not_mem_nil, or_false] at hl
    rcases hl with rfl | rfl | rfl | rfl | rfl
    · trivial
    · decide
    · trivial
    · exact hdigits
    · trivial
  obtain ⟨hlexemes, -⟩ := scan_spaced Dialect.strict.rules hwf
  rw [← longOption_eq] at hlexemes
  have hviable : Viable .strict ([.keyword .kwOption, .identifier "a", .punct .equals].map some ++
      [some (.integer "0")]) := by
    refine ⟨(optionLexemes "0").map (⟨·, .start⟩), .start,
      ⟨[.setting ⟨"a", false, none, .numeric 0⟩]⟩, by decide, ⟨_, rfl⟩, by decide⟩
  have hdue : NumeralDue .strict (scan Dialect.strict.rules longOption) 3 ds :=
    ⟨by rw [hlexemes]; rfl, by rw [hlexemes]; exact hviable⟩
  have hparse : Document.parse .strict longOption = .error (.longNumeral ⟨maxDigits + 1⟩) :=
    (ofTokens_eq_longNumeral_iff_due (wellFormed_scan _ _) _).mpr
      ⟨3, ds, hdue, by rw [hlength]; exact Nat.lt_succ_self _, hlength⟩
  exact ⟨hparse, by simp [hparse]⟩

end SchemaLang
