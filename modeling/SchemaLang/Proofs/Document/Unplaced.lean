/-
# Places decide nothing

The grammar passes on the places of tokens but never asks for them: a text whose places are
forgotten is answered as before, but for the places in the answer (`Blind`).  The combinators keep
this, so the grammar does, and what a stream of tokens comes to depends on its lexemes and on the
cause of its fault alone (`ofTokens_unplaced`).

So what may be put at a seam of a text, where it changes nothing but places, changes nothing in what
the text comes to, be it a document or a failure (`parse_insert`).
-/
import SchemaLang.Proofs.Grammar.Congruence
import SchemaLang.Proofs.Grammar.Derivation
import SchemaLang.Proofs.Scanner.Seams

namespace SchemaLang

open Text Grammar

/-! ## 1. Forgetting places -/

theorem TokenStream.size_unplaced (s : TokenStream) : s.unplaced.size = s.size := by
  induction s with
  | done p => rfl
  | fault e => rfl
  | token t rest ih => exact congrArg (· + 1) ih

/-- The same failure at the start of the text. -/
def ParseError.unplaced : ParseError → ParseError
  | lexical e => lexical e.unplaced
  | longNumeral e => longNumeral e
  | noMatch e => noMatch { e with pos := .start }

namespace Grammar

open SchemaLang.Grammar.Parser

variable {α β : Type}

def Miss.unplaced (m : Miss) : Miss := { m with found := { m.found with pos := .start } }

def Cursor.unplaced (c : Cursor) : Cursor := { c with ahead := c.ahead.unplaced }

def Interruption.unplaced : Interruption → Interruption
  | lexical e => lexical e.unplaced
  | longNumeral e => longNumeral e

/-- The same reply with every place forgotten. -/
def Reply.unplaced : Reply α → Reply α
  | ok a next miss => ok a next.unplaced (miss.map Miss.unplaced)
  | fail miss => fail miss.unplaced
  | interrupted cause => interrupted cause.unplaced
  | exhausted => exhausted

theorem Miss.unplaced_merge (a b : Miss) :
    (a.merge b).unplaced = a.unplaced.merge b.unplaced := by
  have ha : a.unplaced.index = a.index := rfl
  have hb : b.unplaced.index = b.index := rfl
  unfold merge
  rw [ha, hb]
  split
  · rfl
  · split <;> rfl

theorem Miss.unplaced_after (m : Miss) (earlier : Option Miss) :
    (m.after earlier).unplaced = m.unplaced.after (earlier.map unplaced) := by
  cases earlier with
  | none => rfl
  | some e => exact e.unplaced_merge m

theorem Reply.unplaced_behind (r : Reply α) (earlier : Option Miss) :
    (r.behind earlier).unplaced = r.unplaced.behind (earlier.map Miss.unplaced) := by
  cases r with
  | ok a next miss =>
    cases miss with
    | none => rfl
    | some m => exact congrArg (fun m => ok a next.unplaced (some m)) (m.unplaced_after earlier)
  | fail m => exact congrArg fail (m.unplaced_after earlier)
  | interrupted cause => rfl
  | exhausted => rfl

/-! ## 2. Rules that ask for no place -/

/-- The second reply is the first one without its places, unless an allowance was used up. -/
def Reply.SameUnplaced (r r' : Reply α) : Prop :=
  r = exhausted ∨ r' = exhausted ∨ r' = r.unplaced

/-- What was missed before is added to both. -/
theorem Reply.SameUnplaced.behind {r r' : Reply α} (h : r.SameUnplaced r') (miss : Option Miss) :
    (r.behind miss).SameUnplaced (r'.behind (miss.map Miss.unplaced)) := by
  rcases h with rfl | rfl | rfl
  · exact .inl rfl
  · exact .inr (.inl rfl)
  · exact .inr (.inr (r.unplaced_behind miss).symm)

/-- Where the places are forgotten the second rule replies what the first one replies, but for the
places, unless the allowance of one of them is used up. -/
def Blind (p p' : Parser α) : Prop := ∀ c, (p c).SameUnplaced (p' c.unplaced)

theorem blind_of_eq {p p' : Parser α} (h : ∀ c, p' c.unplaced = (p c).unplaced) : Blind p p' :=
  fun c => .inr (.inr (h c))

theorem blind_succeed (a : α) : Blind (succeed a) (succeed a) := blind_of_eq fun _ => rfl

theorem blind_settle (e : Except LongNumeral α) : Blind (settle e) (settle e) := by
  cases e with
  | ok a => exact blind_succeed a
  | error e => exact blind_of_eq fun _ => rfl

/-- What stands at the cursor is judged by its lexeme. -/
theorem blind_look (judge : Option Lexeme → Except (List Expectation) α) :
    Blind (look judge) (look judge) := by
  refine blind_of_eq ?_
  rintro ⟨i, s⟩
  cases s with
  | fault e => rfl
  | done p =>
    simp only [look, Cursor.unplaced, TokenStream.unplaced]
    cases judge none <;> rfl
  | token t rest =>
    simp only [look, Cursor.unplaced, TokenStream.unplaced]
    cases judge (some t.lexeme) <;> rfl

theorem Blind.andThen {p p' : Parser α} {f f' : α → Parser β} (hp : Blind p p')
    (hf : ∀ a, Blind (f a) (f' a)) : Blind (andThen p f) (andThen p' f') := by
  intro c
  unfold Parser.andThen
  rcases hp c with h | h | h
  · exact .inl (by rw [h])
  · exact .inr (.inl (by rw [h]))
  rw [h]
  cases p c with
  | ok a next miss => exact (hf a next).behind miss
  | fail m => exact .inr (.inr rfl)
  | interrupted cause => exact .inr (.inr rfl)
  | exhausted => exact .inl rfl

theorem Blind.orElse {p p' q q' : Parser α} (hp : Blind p p') (hq : Blind q q') :
    Blind (orElse p q) (orElse p' q') := by
  intro c
  unfold Parser.orElse
  rcases hp c with h | h | h
  · exact .inl (by rw [h])
  · exact .inr (.inl (by rw [h]))
  rw [h]
  cases p c with
  | fail m => exact (hq c).behind (some m)
  | ok a next miss => exact .inr (.inr rfl)
  | interrupted cause => exact .inr (.inr rfl)
  | exhausted => exact .inl rfl

theorem congruence_blind : Congruence @Blind where
  exhausted := fun _ _ => .inl rfl
  to_exhausted := fun _ _ => .inr (.inl rfl)
  succeed := blind_succeed
  look := fun judge _ _ => blind_look judge
  tag := (blind_look _).andThen fun _ => blind_settle _
  constant := (blind_look _).andThen fun _ => blind_settle _
  andThen := Blind.andThen
  orElse := Blind.orElse

/-! ## 3. What a stream comes to -/

theorem Reply.outcome?_unplaced (r : Reply Document) :
    r.unplaced.outcome? = r.outcome?.map (Except.mapError ParseError.unplaced) := by
  cases r with
  | interrupted cause => cases cause <;> rfl
  | ok doc next miss => rfl
  | fail miss => rfl
  | exhausted => rfl

end Grammar

/-- **A stream comes to the same without its places**, but for the place of a failure. -/
theorem ofTokens_unplaced (rules : Rules) (s : TokenStream) :
    Document.ofTokens rules s.unplaced =
      (Document.ofTokens rules s).mapError ParseError.unplaced := by
  have hreply : document rules (s.size + 1) (.front s.unplaced) =
      (document rules (s.size + 1) (.front s)).unplaced := by
    have hlast := document_ne_exhausted rules s.unplaced
    rw [s.size_unplaced] at hlast
    rcases congruence_blind.document rules (s.size + 1) (s.size + 1) (.front s) with h | h | h
    · exact absurd h (document_ne_exhausted rules s)
    · exact absurd h hlast
    · exact h
  have hunplaced := outcome?_document rules s.unplaced
  rw [s.size_unplaced, hreply, Reply.outcome?_unplaced, outcome?_document] at hunplaced
  exact (Option.some.inj hunplaced).symm

/-! ## 4. What is put at a seam -/

/-- **What is put at a seam of a text changes nothing in what the text comes to.**  Every token
starts at a seam and ends at one, and so does the end of a text without faults.  Blanks may be put
there; in the legacy dialect also a comment with a line feed behind it, and in the strict dialect,
in front of a line break, a comment.  The same document is read, or the text fails for the same
reason, with the same lexeme found and the same choices expected, at another place. -/
theorem parse_insert (d : Dialect) (source : String) :
    (∀ t ∈ (scan d.rules source).toList, ∃ before text behind : String,
      source = before ++ text ++ behind ∧ t.pos = Position.start.past before.toList ∧
        t.lexeme.StandsAs text.toList behind.toList ∧
        Seam d.rules before.toList (text ++ behind).toList ∧
        Seam d.rules (before ++ text).toList behind.toList) ∧
      ((scan d.rules source).error? = none → Seam d.rules source.toList []) ∧
      ∀ before ins behind : String, source = before ++ behind →
        Seam d.rules before.toList behind.toList → Inserted d.rules ins.toList behind.toList →
        (Document.parse d (before ++ ins ++ behind)).mapError ParseError.unplaced =
          (Document.parse d source).mapError ParseError.unplaced := by
  refine ⟨fun t ht => ?_, seam_end, ?_⟩
  · obtain ⟨before, text, behind, hsource, hpos, hlexeme, hstart, hend⟩ := exists_seams ht
    refine ⟨.ofList before, .ofList text, .ofList behind, ?_, ?_⟩
    · rw [← String.toList_inj, hsource]
      simp
    · simpa using ⟨hpos, hlexeme, hstart, hend⟩
  · rintro before ins behind rfl hseam hins
    have hscan := scanFrom_insert hseam hins .start
    rw [← String.toList_append, ← String.toList_append, ← String.toList_append] at hscan
    unfold Document.parse
    rw [← ofTokens_unplaced, ← ofTokens_unplaced]
    exact congrArg (Document.ofTokens d.rules) hscan

/-- A text that ends too early fails in the same way with a comment behind it. -/
theorem parse_package_comment :
    (Document.parse .legacy ("package a" ++ "// b\n" ++ "")).mapError ParseError.unplaced =
      .error (.noMatch ⟨.start, none, [.punct .dot, .punct .semicolon]⟩) := by
  obtain ⟨-, hend, hinsert⟩ := parse_insert .legacy "package a"
  have hscan : scan Dialect.legacy.rules "package a" =
      .token ⟨.keyword .kwPackage, ⟨1, 1⟩⟩
        (.token ⟨.identifier "a", ⟨1, 9⟩⟩ (.done ⟨1, 10⟩)) := by
    rw [scan_eq_scanWithin]
    decide
  have hseam : Seam Dialect.legacy.rules "package a".toList [] := hend (by rw [hscan]; rfl)
  have hins : Inserted Dialect.legacy.rules "// b\n".toList [] := by
    refine @Inserted.line _ [' ', 'b'] _ rfl fun c hc => ?_
    rcases List.mem_pair.mp hc with rfl | rfl <;> decide
  rw [hinsert "package a" "// b\n" "" String.append_empty.symm hseam hins, Document.parse, hscan]
  decide

end SchemaLang
