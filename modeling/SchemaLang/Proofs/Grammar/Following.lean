/-
# What may stand next

A text is read from the front, token by token.  `Spans` relates the two cursors of such a reading
to the tokens between them.  The texts of a language that start with what was read decide what may
stand next (`MayFollow`), and `Expectation.MetBy` says which lexemes a reported expectation
stands for.
-/
import Mathlib.Computability.Language
import SchemaLang.Grammar.Reply
import SchemaLang.Proofs.Grammar.Tree

namespace SchemaLang

open Text

/-! ## 1. Reading from the front of a stream -/

namespace TokenStream

/-- The stream that hands out these tokens first. -/
def prepend (ts : List Token) (s : TokenStream) : TokenStream := ts.foldr token s

/-- What a reader meets at the head, unless it is a fault. -/
def sight? : TokenStream → Option Sighting
  | done p => some ⟨none, p⟩
  | fault _ => none
  | token t _ => some ⟨some t.lexeme, t.pos⟩

/-- The lexemes before the end. -/
def lexemes (s : TokenStream) : List Lexeme := s.toList.map Token.lexeme

@[simp] theorem toList_prepend (ts : List Token) (s : TokenStream) :
    (prepend ts s).toList = ts ++ s.toList := by
  induction ts with
  | nil => rfl
  | cons t ts ih => exact congrArg (t :: ·) ih

@[simp] theorem error?_prepend (ts : List Token) (s : TokenStream) :
    (prepend ts s).error? = s.error? := by
  induction ts with
  | nil => rfl
  | cons t ts ih => exact ih

theorem prepend_append (ts us : List Token) (s : TokenStream) :
    prepend (ts ++ us) s = prepend ts (prepend us s) := by
  simp [prepend, List.foldr_append]

theorem WellFormed.of_prepend {ts : List Token} {s : TokenStream}
    (h : (prepend ts s).WellFormed) : s.WellFormed :=
  fun t ht => h t (by rw [toList_prepend]; exact List.mem_append_right _ ht)

/-- Two ways to read from the front of one stream: the longer one goes on where the shorter one
stopped. -/
theorem prepend_split {ts us : List Token} {s t : TokenStream}
    (h : prepend ts s = prepend us t) (hlen : ts.length ≤ us.length) :
    ∃ vs, us = ts ++ vs ∧ s = prepend vs t := by
  induction ts generalizing us with
  | nil => exact ⟨us, rfl, h⟩
  | cons x ts ih =>
    cases us with
    | nil => exact absurd hlen (by simp)
    | cons y us =>
      have hcons : token x (prepend ts s) = token y (prepend us t) := h
      obtain ⟨rfl, hrest⟩ := TokenStream.token.inj hcons
      obtain ⟨vs, rfl, hs⟩ := ih hrest (by simpa using hlen)
      exact ⟨vs, rfl, hs⟩

end TokenStream

namespace Grammar

open SchemaLang.Grammar.Parser Computability

variable {α β : Type}

/-- The lexemes of some tokens. -/
def lexemesOf (ts : List Token) : List Lexeme := ts.map Token.lexeme

@[simp] theorem lexemesOf_nil : lexemesOf [] = [] := rfl

@[simp] theorem lexemesOf_cons (t : Token) (ts : List Token) :
    lexemesOf (t :: ts) = t.lexeme :: lexemesOf ts := rfl

@[simp] theorem lexemesOf_append (ts us : List Token) :
    lexemesOf (ts ++ us) = lexemesOf ts ++ lexemesOf us := List.map_append

/-- Reading these tokens leads from one cursor to another. -/
structure Spans (c : Cursor) (ts : List Token) (next : Cursor) : Prop where
  ahead : c.ahead = next.ahead.prepend ts
  index : next.index = c.index + ts.length

namespace Spans

theorem refl (c : Cursor) : Spans c [] c := ⟨rfl, rfl⟩

theorem trans {a b c : Cursor} {ts us : List Token} (h : Spans a ts b) (k : Spans b us c) :
    Spans a (ts ++ us) c :=
  ⟨by rw [h.ahead, k.ahead, TokenStream.prepend_append],
    by rw [k.index, h.index, List.length_append, Nat.add_assoc]⟩

theorem le {a b : Cursor} {ts : List Token} (h : Spans a ts b) : a.index ≤ b.index := by
  rw [h.index]
  exact Nat.le_add_right _ _

theorem wellFormed {a b : Cursor} {ts : List Token} (h : Spans a ts b)
    (ha : a.ahead.WellFormed) : b.ahead.WellFormed :=
  .of_prepend (by rwa [← h.ahead])

theorem lexemes {a b : Cursor} {ts : List Token} (h : Spans a ts b) :
    a.ahead.lexemes = lexemesOf ts ++ b.ahead.lexemes := by
  simp [TokenStream.lexemes, h.ahead, lexemesOf]

theorem error? {a b : Cursor} {ts : List Token} (h : Spans a ts b) :
    a.ahead.error? = b.ahead.error? := by
  rw [h.ahead, TokenStream.error?_prepend]

/-- Of two ways to read from one cursor the longer one goes on where the shorter one stopped. -/
theorem split {a b c : Cursor} {ts us : List Token} (h : Spans a ts b) (k : Spans a us c)
    (hle : b.index ≤ c.index) : ∃ vs, us = ts ++ vs ∧ Spans b vs c := by
  have hb := h.index
  have hc := k.index
  obtain ⟨vs, rfl, hs⟩ := TokenStream.prepend_split (h.ahead.symm.trans k.ahead) (by omega)
  refine ⟨vs, rfl, hs, ?_⟩
  rw [List.length_append] at hc
  omega

/-- What was read first is what was in sight. -/
theorem sight?_of_cons {a b : Cursor} {t : Token} {ts : List Token} (h : Spans a (t :: ts) b) :
    a.ahead.sight? = some ⟨some t.lexeme, t.pos⟩ := by
  rw [h.ahead]
  rfl

end Spans

/-! ## 2. Languages of lexemes -/

/-- A word of `S` starts with `u` and goes on with `t`, or is `u` where `t` is the end. -/
def MayFollow (S : Language Lexeme) (u : List Lexeme) : Option Lexeme → Prop
  | some l => ∃ w, u ++ l :: w ∈ S
  | none => u ∈ S

/-- The words of one lexeme from a class. -/
def one (P : Lexeme → Prop) : Language Lexeme := {w | ∃ l, P l ∧ w = [l]}

/-- The words of a language that do not begin with a lexeme of a class. -/
def without (L : Language Lexeme) (P : Lexeme → Prop) : Language Lexeme :=
  {w | w ∈ L ∧ ∀ l ∈ w.head?, ¬ P l}

/-- A language with a word in it. -/
class Productive (L : Language Lexeme) : Prop where
  nonempty : ∃ w, w ∈ L

instance : Productive 1 := ⟨[], rfl⟩

instance {L : Language Lexeme} : Productive L∗ := ⟨[], Language.nil_mem_kstar L⟩

instance {L M : Language Lexeme} [hL : Productive L] [hM : Productive M] : Productive (L * M) :=
  let ⟨u, hu⟩ := hL.nonempty
  let ⟨v, hv⟩ := hM.nonempty
  ⟨u ++ v, Language.append_mem_mul hu hv⟩

theorem mem_one_mul {P : Lexeme → Prop} {K : Language Lexeme} {w : List Lexeme} :
    w ∈ one P * K ↔ ∃ l, P l ∧ ∃ z ∈ K, w = l :: z := by
  constructor
  · rintro ⟨_, ⟨l, hl, rfl⟩, z, hz, rfl⟩
    exact ⟨l, hl, z, hz, rfl⟩
  · rintro ⟨l, hl, z, hz, rfl⟩
    exact ⟨[l], ⟨l, hl, rfl⟩, z, hz, rfl⟩

theorem MayFollow.exists_append {S : Language Lexeme} {u : List Lexeme} {t : Option Lexeme}
    (h : MayFollow S u t) : ∃ z, z.head? = t ∧ u ++ z ∈ S := by
  cases t with
  | none => exact ⟨[], rfl, by rwa [List.append_nil]⟩
  | some l =>
    obtain ⟨w, hw⟩ := h
    exact ⟨l :: w, rfl, hw⟩

theorem mayFollow_of_append {S : Language Lexeme} {u z : List Lexeme} (h : u ++ z ∈ S) :
    MayFollow S u z.head? := by
  cases z with
  | nil => simpa [MayFollow] using h
  | cons l w => exact ⟨w, h⟩

theorem mayFollow_iff {S : Language Lexeme} {u : List Lexeme} {t : Option Lexeme} :
    MayFollow S u t ↔ ∃ z, z.head? = t ∧ u ++ z ∈ S :=
  ⟨MayFollow.exists_append, fun ⟨_, ht, hz⟩ => ht ▸ mayFollow_of_append hz⟩

/-- Where the same continuations are possible, the same lexemes may follow. -/
theorem mayFollow_congr {S T : Language Lexeme} {u v : List Lexeme}
    (h : ∀ z, u ++ z ∈ S ↔ v ++ z ∈ T) (t : Option Lexeme) :
    MayFollow S u t ↔ MayFollow T v t := by
  simp only [mayFollow_iff, h]

theorem MayFollow.mono {S T : Language Lexeme} {u v : List Lexeme} {t : Option Lexeme}
    (h : ∀ z, u ++ z ∈ S → v ++ z ∈ T) (hs : MayFollow S u t) : MayFollow T v t := by
  obtain ⟨z, ht, hz⟩ := hs.exists_append
  exact mayFollow_iff.mpr ⟨z, ht, h z hz⟩

/-! ## 3. What meets an expectation -/

/-- The lexemes of some complete lines of a document. -/
def linesLanguage (rules : Rules) : Language Lexeme :=
  {w | ∃ ls : List DocumentLine, (∀ l ∈ ls, l.Allowed rules) ∧ ls.flatMap DocumentLine.lexemes = w}

/-- What was read ends with the front of a syntax statement, where its value is due. -/
def AwaitsSyntaxValue (rules : Rules) (past : List Lexeme) : Prop :=
  ∃ w ∈ linesLanguage rules, past = w ++ [.keyword .kwSyntax, .punct .equals]

/-- A lexeme, or the end of the text, meets an expectation behind what was read.  An identifier is
met by any word; where the value of a syntax statement is due, it is met by a string that holds a
name. -/
def Expectation.MetBy (rules : Rules) (past : List Lexeme) : Expectation → Option Lexeme → Prop
  | .keyword k, t => t = some (.keyword k)
  | .punct p, t => t = some (.punct p)
  | .stringLiteral, t => ∃ s, t = some (.string s)
  | .integer, t => ∃ ds, t = some (.integer ds)
  | .identifier, t =>
    (∃ l s, t = some l ∧ l.name? = some s) ∨
      (AwaitsSyntaxValue rules past ∧ ∃ s, t = some (.string s) ∧ isName s.toList)
  | .newline, t => t = some .newline
  | .endOfText, t => t = none
  | .literal text, t => t = some (.string text)
  | .importPath, t => ∃ s, t = some (.string s) ∧ isImportPath s.toList

end Grammar
end SchemaLang
