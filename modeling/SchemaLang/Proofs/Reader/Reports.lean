/-
# A reader can always make its report

A reader that gives up looks the token at its record up and says what was asked for there.  It was
followed through the whole grammar, so all that is left is to start it: its run is safe, it comes to
what the grammar says, and where no alternative matches the token is in the buffer.  The report asks
for something, in ascending order, and for nothing that the token found there would meet.
-/
import SchemaLang.Proofs.Grammar.Viability
import SchemaLang.Proofs.Reader.Productions

namespace SchemaLang

open Text Grammar

/-! ## 1. Choices in order -/

theorem pairwise_insertText {t : String} {l : List String} (h : l.Pairwise (· < ·)) :
    (insertText t l).Pairwise (· < ·) := by
  induction l with
  | nil => exact List.pairwise_singleton _ _
  | cons x l ih =>
    obtain ⟨hx, hl⟩ := List.pairwise_cons.mp h
    unfold insertText
    split
    · next hlt =>
      refine List.pairwise_cons.mpr ⟨fun y hy => ?_, h⟩
      rcases List.mem_cons.mp hy with rfl | hy
      · exact hlt
      · exact String.lt_trans hlt (hx y hy)
    · next hnlt =>
      split
      · exact h
      · next hne =>
        refine List.pairwise_cons.mpr ⟨fun y hy => ?_, ih hl⟩
        rcases mem_insertText.mp hy with rfl | hy
        · exact Std.lt_of_le_of_ne (String.not_lt.mp hnlt) (Ne.symm hne)
        · exact hx y hy

theorem SyntaxError.pairwise_choices (e : SyntaxError) : e.choices.Pairwise (· < ·) := by
  rw [choices]
  induction e.expected.map Expectation.describe with
  | nil => exact .nil
  | cons x l ih => exact pairwise_insertText ih

namespace Buffered

variable {rules : Rules} {s : TokenStream} {r : Reader}

/-! ## 2. Reports from the record -/

/-- A report that is made of the record of a reader. -/
structure Reported (rules : Rules) (s : TokenStream) (r : Reader) (e : SyntaxError) : Prop where
  /-- The token at the record is in the buffer, and it is what the report points at. -/
  found : r.buffer[r.furthest]? = some ⟨e.found, e.pos⟩
  /-- Something is asked for, ... -/
  asks : e.choices ≠ []
  /-- ... in ascending order, ... -/
  ordered : e.choices.Pairwise (· < ·)
  /-- ... and nothing that is met by what was found. -/
  unmet : ∀ y : Expectation, y.describe ∈ e.choices →
    ¬ y.MetBy rules (s.lexemes.take r.furthest) e.found

/-- What the reader has passed are lexemes of the stream. -/
theorem Reader.Sound.lexemesTo_eq (hr : r.Sound rules s) {i : Nat} (hi : i < r.buffer.length) :
    r.lexemesTo i = s.lexemes.take i := by
  have hlength := hr.buffered.length_le
  have hshown := TokenStream.shown_length_le s
  obtain ⟨rest, hrest⟩ := hr.buffered
  rw [Reader.lexemesTo, ← TokenStream.filterMap_take_shown (by omega), ← hrest,
    List.take_append_of_le_length (Nat.le_of_lt hi)]

theorem Reader.Remembers.reported {m : Miss} (hm : r.Remembers (some m)) (hr : r.Sound rules s) :
    Reported rules s r (.ofMiss m) := by
  obtain ⟨hindex, hexpected, hfound, hne⟩ := hm
  rw [← hindex] at hfound
  obtain ⟨hlt, -⟩ := List.getElem?_eq_some_iff.mp hfound
  refine ⟨hfound, ?_, SyntaxError.pairwise_choices _, fun y hy hmet => ?_⟩
  · obtain ⟨e, he⟩ := List.exists_mem_of_ne_nil _ hne
    exact List.ne_nil_of_mem (SyntaxError.mem_choices.mpr ⟨e, he, rfl⟩)
  · obtain ⟨e, he, heq⟩ := SyntaxError.mem_choices.mp hy
    obtain rfl := Expectation.describe_injective heq
    rw [← hr.lexemesTo_eq hlt] at hmet
    exact hr.unmet _ hfound e (hexpected ▸ he) hmet

/-! ## 3. Whole runs -/

/-- The run of a whole text follows the grammar from its start. -/
theorem answers_read (d : Dialect) (s : TokenStream) :
    Answers d.rules s NoEquals (.start s) none (read d.rules s)
      (Grammar.document d.rules (s.size + 1) (.front s)) := by
  have hfront : (Run.start s).now.cursor s = .front s :=
    congrArg (Cursor.mk 0) (TokenStream.behind_zero s)
  have hstart : NoEquals (Run.start s).now.passed := nofun
  have hfollows := whole_document (d := d) (s := s) (s.size + 1) (.start s) none
    (Run.safe_start _ _) hstart ⟨rfl, rfl⟩
  rwa [hfront] at hfollows

/-- **A reader stays safe, and its report can be made.**  Throughout the reading of a stream of
tokens all states are sound: the buffer is the front of the stream, and the reader is not behind its
end.  The buffer and the record only grow, and an alternative that is given up leaves the reader
where it was.  The stream is not asked for a token behind its end, no token is looked for outside of
the buffer, and what the reader says is what the grammar says. -/
theorem reading_stays_safe (d : Dialect) (s : TokenStream) :
    (read d.rules s).2.Safe d.rules s ∧
      (∀ e, (read d.rules s).1 = .error e → e ≠ .pastEnd ∧ e ≠ .unbuffered) ∧
      answer? (read d.rules s) = some (Document.ofTokens d.rules s) ∧
      ∀ e, Document.ofTokens d.rules s = .error (.noMatch e) →
        Reported d.rules s (read d.rules s).2.now e := by
  have ha := answers_read d s
  have hsafe : ∀ {h'}, Leads d.rules (.start s) h' → h'.Safe d.rules s :=
    fun k => k.safe (Run.safe_start _ _)
  generalize read d.rules s = out at ha ⊢
  generalize hreply : Grammar.document d.rules (s.size + 1) (.front s) = reply at ha
  cases ha with
  | ok k hQ hm =>
    have hok := Document.ofTokens_eq_ok_iff.mpr ⟨_, _, hreply⟩
    rw [hok]
    exact ⟨hsafe k, nofun, rfl, nofun⟩
  | @fail h' m k hm =>
    have hfail := Document.ofTokens_eq_noMatch_iff.mpr ⟨_, hreply, rfl⟩
    have hreported : Reported d.rules s h'.now (.ofMiss m) := hm.reported (hsafe k).now
    rw [hfail]
    refine ⟨hsafe k, fun e he => ?_, ?_, fun e he => ?_⟩
    · obtain rfl := Except.error.inj he
      exact ⟨nofun, nofun⟩
    · rw [answer?, Run.report?, hreported.found, Option.map_some, Option.map_some, hm.2.1]
      rfl
    · obtain rfl := ParseError.noMatch.inj (Except.error.inj he)
      exact hreported
  | @interrupted h' cause k =>
    refine ⟨hsafe k, fun e he => ?_, ?_, fun e he => ?_⟩
    · obtain rfl := Except.error.inj he
      exact ⟨nofun, nofun⟩
    · cases cause with
      | lexical e => rw [Document.ofTokens_eq_lexical_iff.mpr hreply, answer?]
      | longNumeral e => rw [Document.ofTokens_eq_longNumeral_iff.mpr hreply, answer?]
    · obtain ⟨m, hm, -⟩ := Document.ofTokens_eq_noMatch_iff.mp he
      exact absurd (hreply.symm.trans hm) nofun
  | exhausted k => exact absurd hreply (document_ne_exhausted d.rules s)

/-- The value of a syntax statement is read before it turns out to be no such value; the report
points at it all the same, and names what may stand there. -/
theorem reading_stays_safe_syntaxValue :
    ∃ (s : TokenStream) (e : SyntaxError),
      s.lexemes = [.keyword .kwSyntax, .punct .equals, .string "proto4", .punct .semicolon] ∧
      e.found = some (.string "proto4") ∧ e.choices = ["\"proto2\"", "\"proto3\""] ∧
      Document.ofTokens Dialect.strict.rules s = .error (.noMatch e) ∧
      Reported Dialect.strict.rules s (read Dialect.strict.rules s).2.now e := by
  have hfails : Document.ofTokens Dialect.strict.rules
      (.ofTokens [⟨.keyword .kwSyntax, ⟨1, 1⟩⟩, ⟨.punct .equals, ⟨1, 8⟩⟩,
        ⟨.string "proto4", ⟨1, 10⟩⟩, ⟨.punct .semicolon, ⟨1, 18⟩⟩] ⟨1, 19⟩) =
      .error (.noMatch
        ⟨⟨1, 10⟩, some (.string "proto4"), [.literal "proto2", .literal "proto3"]⟩) := by
    decide
  exact ⟨_, _, rfl, rfl, by decide, hfails, (reading_stays_safe .strict _).2.2.2 _ hfails⟩

end Buffered
end SchemaLang
