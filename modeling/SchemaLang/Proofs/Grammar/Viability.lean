/-
# Reports are exact

A list of tokens, the end of the text counted as one, is viable where some text that starts with
it is read.  A report of a place where no alternative matches is exact in terms of viability: the
tokens in front of the place are viable, together with the one that stands there they are not, and
the expectations of the report are met by exactly the tokens that could stand there instead.

Viability speaks of the reader alone.  That it is the same as being the beginning of a text that
some tree derives is `viable_append_iff`, and the rest is `exact_document`.
-/
import SchemaLang.Proofs.Grammar.Derivation
import SchemaLang.Proofs.Scanner.Steps

namespace SchemaLang

open Text Grammar

/-! ## 1. Viable beginnings -/

/-- Some well-formed text that starts with these tokens is read; `none` is the end of the text. -/
def Viable (d : Dialect) (xs : List (Option Lexeme)) : Prop :=
  ∃ (ts : List Token) (stop : Position) (doc : Document), (∀ t ∈ ts, t.lexeme.WellFormed) ∧
    xs <+: (lexemesOf ts).map some ++ [none] ∧
    Document.ofTokens d.rules (.ofTokens ts stop) = .ok doc

/-- The lexemes of a text that is read are a word of the dialect. -/
theorem mem_documents_of_ok {d : Dialect} {s : TokenStream} {doc : Document} (hs : s.WellFormed)
    (h : Document.ofTokens d.rules s = .ok doc) : s.lexemes ∈ documents d.rules := by
  obtain ⟨next, miss, h⟩ := Document.ofTokens_eq_ok_iff.mp h
  obtain ⟨-, t, hallowed, -, hleaves, -⟩ := document_sound hs h
  exact ⟨t, hallowed, hleaves⟩

/-- Every word of the dialect is read. -/
theorem exists_ok_of_mem_documents {d : Dialect} {w : List Lexeme} (h : w ∈ documents d.rules) :
    ∃ ts doc, (∀ t ∈ ts, t.lexeme.WellFormed) ∧ lexemesOf ts = w ∧
      Document.ofTokens d.rules (.ofTokens ts .start) = .ok doc := by
  obtain ⟨t, hallowed, rfl⟩ := h
  have hlexemes : lexemesOf (t.lexemes.map (⟨·, .start⟩)) = t.lexemes := by
    rw [lexemesOf, List.map_map]
    exact List.map_id _
  have hts : ∀ x ∈ t.lexemes.map fun l => (⟨l, .start⟩ : Token), x.lexeme.WellFormed := by
    intro x hx
    obtain ⟨l, hl, rfl⟩ := List.mem_map.mp hx
    exact (t.readable l hl).wellFormed
  have hstream : (TokenStream.ofTokens (t.lexemes.map (⟨·, .start⟩)) .start).lexemes =
      t.lexemes := by
    rw [TokenStream.lexemes, TokenStream.toList_ofTokens]
    exact hlexemes
  obtain ⟨doc, hdoc⟩ : ∃ doc, Document.ofTokens d.rules
      (.ofTokens (t.lexemes.map (⟨·, .start⟩)) .start) = .ok doc := by
    refine document_complete ?_ (TokenStream.error?_ofTokens _ _) ⟨hallowed, hstream.symm⟩
    rwa [TokenStream.WellFormed, TokenStream.toList_ofTokens]
  exact ⟨_, doc, hts, hlexemes, hdoc⟩

/-- A beginning of a closed list of tokens, split at its last token. -/
theorem map_some_append_prefix_iff {u w : List Lexeme} {t : Option Lexeme} :
    u.map some ++ [t] <+: w.map some ++ [none] ↔ ∃ z, z.head? = t ∧ u ++ z = w := by
  induction u generalizing w with
  | nil =>
    cases w with
    | nil => simp [List.cons_prefix_cons, eq_comm]
    | cons b w =>
      simp only [List.map_nil, List.nil_append, List.map_cons, List.cons_append,
        List.cons_prefix_cons, List.nil_prefix, and_true]
      constructor
      · rintro rfl
        exact ⟨b :: w, rfl, rfl⟩
      · rintro ⟨_, rfl, rfl⟩
        rfl
  | cons a u ih =>
    cases w with
    | nil => simp
    | cons b w =>
      simp only [List.map_cons, List.cons_append, List.cons_prefix_cons, Option.some.injEq, ih,
        List.cons.injEq]
      constructor
      · rintro ⟨rfl, z, ht, rfl⟩
        exact ⟨z, ht, rfl, rfl⟩
      · rintro ⟨z, ht, rfl, rfl⟩
        exact ⟨rfl, z, ht, rfl⟩

/-- **What may stand next is what the trees say.** -/
theorem viable_append_iff {d : Dialect} {u : List Lexeme} {t : Option Lexeme} :
    Viable d (u.map some ++ [t]) ↔ MayFollow (documents d.rules) u t := by
  rw [mayFollow_iff]
  constructor
  · rintro ⟨ts, stop, doc, hts, hprefix, hok⟩
    obtain ⟨z, ht, hz⟩ := map_some_append_prefix_iff.mp hprefix
    refine ⟨z, ht, ?_⟩
    have hmem := mem_documents_of_ok (by
      rwa [TokenStream.WellFormed, TokenStream.toList_ofTokens]) hok
    rw [TokenStream.lexemes, TokenStream.toList_ofTokens] at hmem
    rwa [hz]
  · rintro ⟨z, ht, hz⟩
    obtain ⟨ts, doc, hts, hw, hok⟩ := exists_ok_of_mem_documents hz
    refine ⟨ts, .start, doc, hts, ?_, hok⟩
    rw [map_some_append_prefix_iff, hw]
    exact ⟨z, ht, rfl⟩

/-- What is in front of a viable beginning is viable. -/
theorem Viable.of_longer {d : Dialect} {xs ys : List (Option Lexeme)} (h : Viable d ys)
    (hxs : xs <+: ys) : Viable d xs := by
  obtain ⟨ts, stop, doc, hts, hprefix, hok⟩ := h
  exact ⟨ts, stop, doc, hts, hxs.trans hprefix, hok⟩

/-! ## 2. Reports -/

namespace Grammar.Expectation

/-- The expectations that are described by a word of their own. -/
def fixed : List Expectation :=
  Keyword.all.map .keyword ++ Punct.all.map .punct ++
    [.stringLiteral, .integer, .identifier, .newline, .endOfText, .importPath]

theorem mem_fixed (x : Expectation) : x ∈ fixed ∨ ∃ s, x = .literal s := by
  cases x with
  | keyword k => exact .inl (by simp [fixed, k.mem_all])
  | punct p => exact .inl (by cases p <;> simp [fixed, Punct.all])
  | literal s => exact .inr ⟨s, rfl⟩
  | stringLiteral => exact .inl (by simp [fixed])
  | integer => exact .inl (by simp [fixed])
  | identifier => exact .inl (by simp [fixed])
  | newline => exact .inl (by simp [fixed])
  | endOfText => exact .inl (by simp [fixed])
  | importPath => exact .inl (by simp [fixed])

/-- **A description stands for one expectation.** -/
theorem describe_injective {x y : Expectation} (h : x.describe = y.describe) :
    x = y := by
  have hnodup : (fixed.map describe).Nodup := by decide +kernel
  have hquote : ∀ z ∈ fixed, ∀ s, z.describe ≠ (literal s).describe := by
    intro z hz s e
    have hhead : ∀ z ∈ fixed, z.describe.toList.head? ≠ some '"' := by decide +kernel
    refine hhead z hz ?_
    rw [e]
    simp [describe]
  rcases x.mem_fixed with hx | ⟨s, rfl⟩
  · rcases y.mem_fixed with hy | ⟨t, rfl⟩
    · exact List.inj_on_of_nodup_map hnodup hx hy h
    · exact absurd h (hquote x hx t)
  · rcases y.mem_fixed with hy | ⟨t, rfl⟩
    · exact absurd h.symm (hquote y hy s)
    · simpa [describe] using h

end Grammar.Expectation

theorem mem_insertText {s t : String} {l : List String} :
    s ∈ insertText t l ↔ s = t ∨ s ∈ l := by
  induction l with
  | nil => simp [insertText]
  | cons x l ih =>
    unfold insertText
    split
    · simp
    · split
      · next h =>
        subst h
        simp
      · rw [List.mem_cons, ih, List.mem_cons]
        tauto

/-- The choices of a report are the descriptions of what is expected. -/
theorem SyntaxError.mem_choices {e : SyntaxError} {s : String} :
    s ∈ e.choices ↔ ∃ x ∈ e.expected, x.describe = s := by
  have h : ∀ l : List String, s ∈ l.foldr insertText [] ↔ s ∈ l := by
    intro l
    induction l with
    | nil => simp
    | cons x l ih => rw [List.foldr_cons, mem_insertText, ih, List.mem_cons]
  rw [choices, h, List.mem_map]

/-- What stands at an index of a stream, unless the stream breaks off before. -/
def TokenStream.at? : TokenStream → Nat → Option Sighting
  | s, 0 => s.sight?
  | token _ rest, k + 1 => rest.at? k
  | done _, _ + 1 => none
  | fault _, _ + 1 => none

theorem TokenStream.at?_prepend (ts : List Token) (s : TokenStream) :
    (prepend ts s).at? ts.length = s.sight? := by
  induction ts with
  | nil => simp [prepend, at?]
  | cons t ts ih => exact ih

theorem take_lexemes_prepend (ts : List Token) (s : TokenStream) :
    (TokenStream.prepend ts s).lexemes.take ts.length = lexemesOf ts := by
  rw [TokenStream.lexemes, TokenStream.toList_prepend, List.map_append,
    List.take_left' (List.length_map _), lexemesOf]

/-- **A report is exact.**  It points at a token of the text, or at its end.  What is in front of
that token is viable and what includes it is not; every choice stands for an expectation that some
token meets which keeps the text viable; and every token that keeps the text viable meets an
expectation that is one of the choices. -/
theorem parse_noMatch_exact (d : Dialect) (source : String) (e : SyntaxError)
    (h : Document.parse d source = .error (.noMatch e)) :
    ∃ k u, (scan d.rules source).at? k = some ⟨e.found, e.pos⟩ ∧
      (scan d.rules source).lexemes.take k = u ∧
      Viable d (u.map some) ∧
      ¬ Viable d (u.map some ++ [e.found]) ∧
      (∀ s ∈ e.choices, ∃ x : Expectation, x.describe = s ∧
        ∃ t, x.MetBy d.rules u t ∧ Viable d (u.map some ++ [t])) ∧
      ∀ t, Viable d (u.map some ++ [t]) →
        ∃ x : Expectation, x.describe ∈ e.choices ∧ x.MetBy d.rules u t := by
  obtain ⟨m, hfail, rfl⟩ := Document.ofTokens_eq_noMatch_iff.mp h
  have hexact := exact_document d ((scan d.rules source).size + 1) (.front (scan d.rules source))
    (wellFormed_scan d.rules source)
  rw [hfail] at hexact
  obtain ⟨ts, mid, hstuck⟩ := hexact
  have hread : scan d.rules source = mid.ahead.prepend ts := hstuck.reads.ahead
  have hviable : ∀ t, Viable d ((lexemesOf ts).map some ++ [t]) ↔
      MayFollow (documents d.rules * 1) (lexemesOf ts) t := fun t => by
    rw [mul_one]
    exact viable_append_iff
  refine ⟨ts.length, lexemesOf ts, ?_, ?_, ?_, ?_, ?_, ?_⟩
  · rw [hread, TokenStream.at?_prepend, hstuck.found]
    rfl
  · rw [hread, take_lexemes_prepend]
  · obtain ⟨t, ht⟩ := hstuck.viable
    exact ((hviable t).mpr ht).of_longer (List.prefix_append _ _)
  · exact fun hv => hstuck.rejected ((hviable _).mp hv)
  · intro s hs
    obtain ⟨x, hx, rfl⟩ := SyntaxError.mem_choices.mp hs
    obtain ⟨t, hmet, ht⟩ := hstuck.used x hx
    exact ⟨x, rfl, t, hmet, (hviable t).mpr ht⟩
  · intro t ht
    obtain ⟨x, hx, hmet⟩ := hstuck.met t ((hviable t).mp ht)
    exact ⟨x, SyntaxError.mem_choices.mpr ⟨x, hx, rfl⟩, hmet⟩

/-- Behind `package` only a name may stand. -/
theorem viable_package_iff_name :
    ¬ Viable .strict [some (.keyword .kwPackage), some (.punct .semicolon)] ∧
      ∀ t, Viable .strict [some (.keyword .kwPackage), t] →
        Expectation.identifier.MetBy Dialect.strict.rules [.keyword .kwPackage] t := by
  have hscan : scan Dialect.strict.rules "package ;" =
      .token ⟨.keyword .kwPackage, ⟨1, 1⟩⟩
        (.token ⟨.punct .semicolon, ⟨1, 9⟩⟩ (.done ⟨1, 10⟩)) := by
    rw [scan_eq_scanWithin]
    decide
  have hparse : Document.parse .strict "package ;" =
      .error (.noMatch ⟨⟨1, 9⟩, some (.punct .semicolon), [.identifier]⟩) := by
    rw [Document.parse, hscan]
    decide
  obtain ⟨k, u, hat, hu, -, hrejected, -, hmet⟩ := parse_noMatch_exact _ _ _ hparse
  rw [hscan] at hat hu
  obtain rfl : k = 1 := by
    rcases k with - | - | - | k
    · simp [TokenStream.at?, TokenStream.sight?] at hat
    · rfl
    · simp [TokenStream.at?, TokenStream.sight?] at hat
    · simp [TokenStream.at?] at hat
  obtain rfl : [.keyword .kwPackage] = u := hu
  refine ⟨hrejected, fun t ht => ?_⟩
  obtain ⟨x, hx, hxt⟩ := hmet t ht
  obtain ⟨y, hy, hyx⟩ := SyntaxError.mem_choices.mp hx
  obtain rfl : y = .identifier := List.mem_singleton.mp hy
  rwa [← Expectation.describe_injective hyx] at hxt

end SchemaLang
