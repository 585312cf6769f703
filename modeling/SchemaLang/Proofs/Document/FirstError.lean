/-
# Which error is reported

A text can fail in two ways at once: no alternative matches at some token, and the scanner finds
fault further on.  The tokens are a stream, so the first of the two is the one that is reported.

* A report of a token depends on nothing behind that token (`ofTokens_noMatch_of_agree`).  This is
  the half that needs the inside of every rule, and it is `local_document`.
* A fault is reported exactly where everything in front of it is viable (`ofTokens_of_fault`).
  This half is `exact_document`.

`parse_first_error` puts them together for texts.
-/
import SchemaLang.Proofs.Grammar.Locality
import SchemaLang.Proofs.Scanner.Places

namespace SchemaLang

open Text Grammar

variable {d : Dialect} {s s' : TokenStream}

/-! ## 1. Reports of a token -/

/-- What a miss of a whole text says of the token it is about. -/
theorem stuck_of_document {m : Miss} {budget : Nat} (hs : s.WellFormed)
    (h : Grammar.document d.rules budget (.front s) = .fail m) :
    s.at? m.index = some m.found ∧
      ¬ Viable d ((s.lexemes.take m.index).map some ++ [m.found.lexeme]) := by
  have hexact := exact_document d budget (.front s) hs
  rw [h] at hexact
  obtain ⟨ts, mid, hstuck⟩ := hexact
  have hread : s = mid.ahead.prepend ts := hstuck.reads.ahead
  have hindex : m.index = ts.length := by
    rw [hstuck.index, hstuck.reads.index]
    exact Nat.zero_add _
  rw [hindex, hread, TokenStream.at?_prepend, take_lexemes_prepend]
  refine ⟨hstuck.found, fun hv => hstuck.rejected ?_⟩
  rw [mul_one]
  exact viable_append_iff.mp hv

/-- **A report of a token depends on nothing behind that token.** -/
theorem ofTokens_noMatch_of_agree {m : Miss} {budget : Nat}
    (h : Grammar.document d.rules budget (.front s) = .fail m)
    (hagree : ∀ i ≤ m.index, s'.at? i = s.at? i) :
    Document.ofTokens d.rules s' = .error (.noMatch (.ofMiss m)) := by
  have halike : Alike m.index (.front s) (.front s') := {
    index := rfl
    ahead := fun i hi => hagree i (by simpa [Cursor.front] using hi) }
  have hecho := (local_document d.rules budget (s'.size + 1)).echo halike
  rw [h] at hecho
  rcases hecho (Nat.le_refl _) with hexhausted | hfail
  · exact absurd hexhausted (document_ne_exhausted d.rules s')
  · exact Document.ofTokens_eq_noMatch_iff.mpr ⟨m, hfail, rfl⟩

/-! ## 2. Reports of a fault -/

/-- **A fault is reported exactly where everything in front of it is viable.**  Elsewhere a token in
front of it is reported. -/
theorem ofTokens_of_fault {e : LexicalError} (hs : s.WellFormed) (hfault : s.error? = some e)
    (hshort : ∀ ds, .integer ds ∈ s.lexemes → ds.toList.length ≤ maxDigits) :
    (Viable d (s.lexemes.map some) ∧ Document.ofTokens d.rules s = .error (.lexical e)) ∨
      ¬ Viable d (s.lexemes.map some) ∧ ∃ m, m.index < s.toList.length ∧
        Grammar.document d.rules (s.size + 1) (.front s) = .fail m := by
  have hexact := exact_document d (s.size + 1) (.front s) hs
  cases hreply : Grammar.document d.rules (s.size + 1) (.front s) with
  | ok doc next miss =>
    have hend := (ofTokens_sound hs (Document.ofTokens_eq_ok_iff.mpr ⟨next, miss, hreply⟩)).1
    exact absurd (hfault.symm.trans hend) (by simp)
  | fail m =>
    obtain ⟨hat, hrejected⟩ := stuck_of_document hs hreply
    have hlt := TokenStream.lt_length_of_at? hfault hat
    refine .inr ⟨fun hv => hrejected (hv.of_longer ?_), m, hlt, rfl⟩
    -- the token that is reported is the next one of the text
    have hlexeme : m.found.lexeme = some s.toList[m.index].lexeme := by
      rw [TokenStream.at?_of_lt hlt] at hat
      rw [← Option.some.inj hat]
    have htake : (s.lexemes.take m.index).map some ++ [m.found.lexeme] =
        (s.lexemes.take (m.index + 1)).map some := by
      have hlen : m.index < s.lexemes.length := by simpa [TokenStream.lexemes] using hlt
      rw [List.take_succ_eq_append_getElem hlen, List.map_append, hlexeme]
      simp [TokenStream.lexemes]
    rw [htake]
    exact (List.take_prefix _ _).map some
  | interrupted cause =>
    rw [hreply] at hexact
    cases cause with
    | lexical e' =>
      obtain ⟨herror, w, hw⟩ := hexact
      have herror : s.error? = some e' := herror
      obtain rfl : e = e' := Option.some.inj (hfault.symm.trans herror)
      rw [mul_one] at hw
      have hviable : Viable d (s.lexemes.map some ++ [w.head?]) :=
        viable_append_iff.mpr (mayFollow_of_append hw)
      exact .inl ⟨hviable.of_longer (List.prefix_append _ _),
        Document.ofTokens_eq_lexical_iff.mpr hreply⟩
    | longNumeral e' =>
      obtain ⟨ds, hds, hlong⟩ := hexact
      exact absurd (hshort ds hds) (Nat.not_le.mpr hlong)
  | exhausted => exact absurd hreply (document_ne_exhausted d.rules s)

/-! ## 3. All at once -/

/-- A stream that shows all of itself hands out the tokens it shows. -/
theorem TokenStream.eq_ofTokens_of_sightings {l : List Sighting} (h : s.sightings = .ok l) :
    ∃ ts stop, l = ts.map (fun t => ⟨some t.lexeme, t.pos⟩) ++ [⟨none, stop⟩] ∧
      s = .ofTokens ts stop := by
  induction s generalizing l with
  | done p =>
    obtain rfl := Except.ok.inj h
    exact ⟨[], p, rfl, rfl⟩
  | fault e => exact absurd h (by simp [sightings])
  | token t rest ih =>
    cases hrest : rest.sightings with
    | error e => exact absurd h (by simp [sightings, hrest, Except.map])
    | ok l' =>
      obtain ⟨ts, stop, rfl, hstream⟩ := ih hrest
      rw [sightings, hrest] at h
      obtain rfl := Except.ok.inj h
      exact ⟨t :: ts, stop, rfl, congrArg (TokenStream.token t) hstream⟩

/-- **The first error is reported, and nothing behind it matters.**

Where the scanner finds fault with a text, that fault is reported if the tokens in front of it are
viable, and if they are not, all texts that start with them get one and the same report.  A report
of a token is the report of all texts that agree up to that token.  Where the scanner finds no
fault, what is read from the stream is what is read from the list of all tokens. -/
theorem parse_first_error (d : Dialect) (source : String) :
    ((∀ ds, .integer ds ∈ (scan d.rules source).lexemes → ds.toList.length ≤ maxDigits) →
      ∀ e, (scan d.rules source).error? = some e →
        (Viable d ((scan d.rules source).lexemes.map some) →
          Document.parse d source = .error (.lexical e)) ∧
        (¬ Viable d ((scan d.rules source).lexemes.map some) →
          ∃ r, ∀ source', (scan d.rules source).toList <+: (scan d.rules source').toList →
            Document.parse d source' = .error (.noMatch r))) ∧
      (∀ r, Document.parse d source = .error (.noMatch r) →
        ∃ k, (scan d.rules source).at? k = some ⟨r.found, r.pos⟩ ∧
          (∀ j, (scan d.rules source).at? j = some ⟨r.found, r.pos⟩ → j = k) ∧
          ∀ source', (∀ i ≤ k, (scan d.rules source').at? i = (scan d.rules source).at? i) →
            Document.parse d source' = .error (.noMatch r)) ∧
      ∀ l, (scan d.rules source).sightings = .ok l →
        ∃ ts stop, l = ts.map (fun t => ⟨some t.lexeme, t.pos⟩) ++ [⟨none, stop⟩] ∧
          Document.ofTokens d.rules (.ofTokens ts stop) = Document.parse d source := by
  have hs := wellFormed_scan d.rules source
  refine ⟨fun hshort e hfault => ?_, fun r h => ?_, fun l h => ?_⟩
  · rcases ofTokens_of_fault hs hfault hshort with ⟨hv, hparse⟩ | ⟨hv, m, hlt, hfail⟩
    · exact ⟨fun _ => hparse, fun hnot => absurd hv hnot⟩
    · refine ⟨fun hviable => absurd hviable hv, fun _ => ⟨.ofMiss m, fun source' hprefix => ?_⟩⟩
      exact ofTokens_noMatch_of_agree hfail fun i hi =>
        TokenStream.at?_eq_of_prefix hprefix (Nat.lt_of_le_of_lt hi hlt)
  · obtain ⟨m, hfail, rfl⟩ := Document.ofTokens_eq_noMatch_iff.mp h
    obtain ⟨hat, -⟩ := stuck_of_document hs hfail
    exact ⟨m.index, hat, fun j hj => at?_injective hj hat rfl,
      fun source' hagree => ofTokens_noMatch_of_agree hfail hagree⟩
  · obtain ⟨ts, stop, hl, hstream⟩ := TokenStream.eq_ofTokens_of_sightings h
    exact ⟨ts, stop, hl, by rw [← hstream]; rfl⟩

/-- Behind `package` a string without its closing quote is a fault that is reported, and behind
`package ;` nothing is. -/
theorem parse_package_fault :
    Document.parse .strict "package \"" = .error (.lexical ⟨.unterminatedString, ⟨1, 9⟩⟩) ∧
      Document.parse .strict "package ; \"" =
        .error (.noMatch ⟨⟨1, 9⟩, some (.punct .semicolon), [.identifier]⟩) := by
  have hfault : scan Dialect.strict.rules "package \"" =
      .token ⟨.keyword .kwPackage, ⟨1, 1⟩⟩ (.fault ⟨.unterminatedString, ⟨1, 9⟩⟩) := by
    rw [scan_eq_scanWithin]
    decide
  have hshort : scan Dialect.strict.rules "package ;" =
      .token ⟨.keyword .kwPackage, ⟨1, 1⟩⟩
        (.token ⟨.punct .semicolon, ⟨1, 9⟩⟩ (.done ⟨1, 10⟩)) := by
    rw [scan_eq_scanWithin]
    decide
  have hlong : scan Dialect.strict.rules "package ; \"" =
      .token ⟨.keyword .kwPackage, ⟨1, 1⟩⟩
        (.token ⟨.punct .semicolon, ⟨1, 9⟩⟩ (.fault ⟨.unterminatedString, ⟨1, 11⟩⟩)) := by
    rw [scan_eq_scanWithin]
    decide
  constructor
  · have hviable : Viable .strict [some (.keyword .kwPackage)] := by
      refine ⟨[.keyword .kwPackage, .identifier "a", .punct .semicolon].map (⟨·, .start⟩), .start,
        ⟨[.packageDecl "a"]⟩, by decide, ⟨_, rfl⟩, by decide⟩
    refine ((parse_first_error .strict "package \"").1 ?_ _ (by rw [hfault]; rfl)).1 ?_
    · rw [hfault]
      simp [TokenStream.lexemes, TokenStream.toList]
    · rw [hfault]
      exact hviable
  · have hparse : Document.parse .strict "package ;" =
        .error (.noMatch ⟨⟨1, 9⟩, some (.punct .semicolon), [.identifier]⟩) := by
      rw [Document.parse, hshort]
      decide
    obtain ⟨k, -, hk, hsame⟩ := (parse_first_error .strict "package ;").2.1 _ hparse
    obtain rfl : 1 = k := hk 1 (by rw [hshort]; rfl)
    refine hsame _ fun i hi => ?_
    rw [hshort, hlong]
    rcases Nat.le_one_iff_eq_zero_or_eq_one.mp hi with rfl | rfl <;> rfl

end SchemaLang
