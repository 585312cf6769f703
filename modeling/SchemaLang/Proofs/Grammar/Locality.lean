/-
# Rules look no further than they report

A rule may try many alternatives and give most of them up, and what it reports is the furthest
place that any of them got to.  So whatever stands behind that place was never looked at.  `Local`
says this of two copies of a rule, which may have different allowances: where the first copy gets
no further than a place, and the texts agree up to there, the second one replies the same, unless
its allowance is used up.

The invariant is carried by the misses.  A match remembers what was missed on the way, also where
that was further on than the match itself (`Reply.Within`), so a reply that lies within a place is
made of replies that do.  For this a rule must not report a place in front of its start, which is
the other half of `Local`.

The combinators keep `Local`, so the grammar does (`Congruence`).
-/
import SchemaLang.Proofs.Grammar.Congruence
import SchemaLang.Proofs.Grammar.Viability

namespace SchemaLang

open Text Grammar

/-! ## 1. Streams that agree -/

namespace TokenStream

/-- Streams that show the same at the front start with the same token, or both end there. -/
theorem at?_token {t : Token} {rest s : TokenStream}
    (h : (token t rest).at? 0 = s.at? 0) : ∃ rest', s = token t rest' := by
  cases s with
  | done p => exact absurd (Option.some.inj h) (by simp)
  | fault e => exact absurd h (by simp [at?, sight?])
  | token u rest' =>
    have hsight := Option.some.inj h
    obtain ⟨hlexeme, hpos⟩ := Sighting.mk.inj hsight
    exact ⟨rest', by rw [show t = u from by cases t; cases u; simp_all]⟩

theorem at?_done {p : Position} {s : TokenStream} (h : (done p).at? 0 = s.at? 0) :
    s = done p := by
  cases s with
  | done q => simpa [at?, sight?, eq_comm] using h
  | fault e => exact absurd h (by simp [at?, sight?])
  | token u rest => exact absurd h (by simp [at?, sight?])

/-- In front of the end stand the tokens. -/
theorem at?_of_lt {s : TokenStream} {i : Nat} (h : i < s.toList.length) :
    s.at? i = some ⟨some s.toList[i].lexeme, s.toList[i].pos⟩ := by
  induction s generalizing i with
  | done p => exact absurd h (by simp [toList])
  | fault e => exact absurd h (by simp [toList])
  | token t rest ih =>
    cases i with
    | zero => rfl
    | succ i => exact ih (by simpa [toList] using h)

/-- A stream that ends in a fault shows nothing but its tokens. -/
theorem lt_length_of_at? {s : TokenStream} {e : LexicalError} {i : Nat} {x : Sighting}
    (herror : s.error? = some e) (h : s.at? i = some x) : i < s.toList.length := by
  induction s generalizing i with
  | done p => exact absurd herror (by simp [error?])
  | fault e =>
    cases i with
    | zero => exact absurd h (by simp [at?, sight?])
    | succ i => exact absurd h (by simp [at?])
  | token t rest ih =>
    cases i with
    | zero => simp [toList]
    | succ i =>
      have hlt := ih herror h
      simpa [toList] using hlt

/-- Streams that start with the same tokens show the same there. -/
theorem at?_eq_of_prefix {s s' : TokenStream} (h : s.toList <+: s'.toList) {i : Nat}
    (hi : i < s.toList.length) : s'.at? i = s.at? i := by
  have hi' : i < s'.toList.length := Nat.lt_of_lt_of_le hi h.length_le
  rw [at?_of_lt hi, at?_of_lt hi', h.getElem hi]

end TokenStream

namespace Grammar

open SchemaLang.Grammar.Parser

variable {α β : Type}

/-- The cursors are at the same place, and the streams agree from there on up to another one. -/
structure Alike (n : Nat) (c c' : Cursor) : Prop where
  index : c'.index = c.index
  ahead : ∀ i, c.index + i ≤ n → c'.ahead.at? i = c.ahead.at? i

/-! ## 2. Replies that lie within a place -/

/-- A match is behind a place, and so is what a miss got to. -/
def Reply.From (i : Nat) : Reply α → Prop
  | .ok _ next _ => i ≤ next.index
  | .fail m => i ≤ m.index
  | .interrupted _ => True
  | .exhausted => True

/-- The rule got no further than a place. -/
def Reply.Within (n : Nat) : Reply α → Prop
  | .ok _ next miss => next.index ≤ n ∧ ∀ m ∈ miss, m.index ≤ n
  | .fail m => m.index ≤ n
  | .interrupted _ => False
  | .exhausted => False

/-- The second reply is the first one again, at an alike cursor, or its allowance was used up. -/
def Reply.Echo (n : Nat) : Reply α → Reply α → Prop
  | .ok a next miss, r => r = .exhausted ∨ ∃ next', r = .ok a next' miss ∧ Alike n next next'
  | .fail m, r => r = .exhausted ∨ r = .fail m
  | .interrupted _, _ => True
  | .exhausted, _ => True

namespace Reply

variable {n i j : Nat} {r r' : Reply α} {miss : Option Miss}

theorem From.mono (h : r.From j) (hij : i ≤ j) : r.From i := by
  cases r with
  | ok a next m => exact Nat.le_trans hij h
  | fail m => exact Nat.le_trans hij h
  | interrupted cause => trivial
  | exhausted => trivial

theorem From.le (h : r.From i) (hw : r.Within n) : i ≤ n := by
  cases r with
  | ok a next m => exact Nat.le_trans h hw.1
  | fail m => exact Nat.le_trans h hw
  | interrupted cause => exact hw.elim
  | exhausted => exact hw.elim

theorem From.behind (h : r.From i) (miss : Option Miss) : (r.behind miss).From i := by
  cases r with
  | ok a next m => exact h
  | fail m =>
    cases miss with
    | none => exact h
    | some e => exact Nat.le_trans h (Miss.le_index_merge_right e m)
  | interrupted cause => trivial
  | exhausted => trivial

theorem index_le_of_after {m : Miss} (h : (m.after miss).index ≤ n) :
    m.index ≤ n ∧ ∀ e ∈ miss, e.index ≤ n := by
  cases miss with
  | none => exact ⟨h, by simp⟩
  | some e =>
    refine ⟨Nat.le_trans (Miss.le_index_merge_right e m) h, fun x hx => ?_⟩
    obtain rfl := Option.some.inj hx
    exact Nat.le_trans (Miss.le_index_merge_left e m) h

/-- What lies within a place is made of what does. -/
theorem Within.of_behind (h : (r.behind miss).Within n) :
    r.Within n ∧ ∀ e ∈ miss, e.index ≤ n := by
  cases r with
  | ok a next m =>
    obtain ⟨hnext, hmiss⟩ := h
    cases m with
    | none => exact ⟨⟨hnext, by simp⟩, hmiss⟩
    | some m =>
      obtain ⟨hm, he⟩ := index_le_of_after (hmiss _ rfl)
      refine ⟨⟨hnext, fun x hx => ?_⟩, he⟩
      obtain rfl := Option.some.inj hx
      exact hm
  | fail m => exact index_le_of_after h
  | interrupted cause => exact h.elim
  | exhausted => exact h.elim

theorem Echo.behind (h : r.Echo n r') (miss : Option Miss) :
    (r.behind miss).Echo n (r'.behind miss) := by
  cases r with
  | ok a next m =>
    rcases h with rfl | ⟨next', rfl, halike⟩
    · exact .inl rfl
    · exact .inr ⟨next', rfl, halike⟩
  | fail m =>
    rcases h with rfl | rfl
    · exact .inl rfl
    · exact .inr rfl
  | interrupted cause => trivial
  | exhausted => trivial

/-- An allowance that is used up excuses everything. -/
theorem echo_exhausted : r.Echo n (.exhausted : Reply α) := by
  cases r with
  | ok a next m => exact .inl rfl
  | fail m => exact .inl rfl
  | interrupted cause => trivial
  | exhausted => trivial

end Reply

/-! ## 3. Combinators -/

/-- A rule never reports a place in front of its start, and where it gets no further than a place,
its copy replies the same wherever the texts agree up to that place. -/
structure Local (p p' : Parser α) : Prop where
  forward : ∀ c, (p c).From c.index
  echo : ∀ {n c c'}, Alike n c c' → (p c).Within n → (p c).Echo n (p' c')

theorem local_exhausted (p' : Parser α) : Local (fun _ => .exhausted) p' where
  forward := fun _ => trivial
  echo := fun _ hw => hw.elim

theorem Local.to_exhausted {p p' : Parser α} (h : Local p p') : Local p (fun _ => .exhausted) where
  forward := h.forward
  echo := fun _ _ => Reply.echo_exhausted

theorem local_succeed (a : α) : Local (succeed a) (succeed a) where
  forward := fun _ => Nat.le_refl _
  echo := fun h _ => .inr ⟨_, rfl, h⟩

theorem local_settle (e : Except LongNumeral α) : Local (settle e) (settle e) := by
  cases e with
  | ok a => exact local_succeed a
  | error e => exact ⟨fun _ => trivial, fun _ hw => hw.elim⟩

theorem Local.andThen {p p' : Parser α} {f f' : α → Parser β} (hp : Local p p')
    (hf : ∀ a, Local (f a) (f' a)) : Local (andThen p f) (andThen p' f') where
  forward := by
    intro c
    have hfrom := hp.forward c
    unfold Parser.andThen
    cases h : p c with
    | ok a next miss =>
      rw [h] at hfrom
      exact (((hf a).forward next).mono hfrom).behind miss
    | fail m =>
      rw [h] at hfrom
      exact hfrom
    | interrupted cause => trivial
    | exhausted => trivial
  echo := by
    intro n c c' halike hw
    have hecho := @Local.echo _ _ _ hp n c c' halike
    unfold Parser.andThen at hw ⊢
    cases h : p c with
    | ok a next miss =>
      rw [h] at hw hecho
      obtain ⟨hwithin, hmiss⟩ := Reply.Within.of_behind hw
      have hnext : next.index ≤ n := ((hf a).forward next).le hwithin
      rcases hecho ⟨hnext, hmiss⟩ with hexhausted | ⟨next', hok, halike'⟩
      · simp only [hexhausted]
        exact Reply.echo_exhausted
      · simp only [hok]
        exact ((hf a).echo halike' hwithin).behind miss
    | fail m =>
      rw [h] at hw hecho
      rcases hecho hw with hexhausted | hfail
      · simp only [hexhausted]
        exact .inl rfl
      · simp only [hfail]
        exact .inr rfl
    | interrupted cause => trivial
    | exhausted => trivial

theorem Local.orElse {p p' q q' : Parser α} (hp : Local p p') (hq : Local q q') :
    Local (orElse p q) (orElse p' q') where
  forward := by
    intro c
    have hfrom := hp.forward c
    unfold Parser.orElse
    cases h : p c with
    | fail m => exact (hq.forward c).behind _
    | ok a next miss =>
      rw [h] at hfrom
      exact hfrom
    | interrupted cause => trivial
    | exhausted => trivial
  echo := by
    intro n c c' halike hw
    have hecho := @Local.echo _ _ _ hp n c c' halike
    unfold Parser.orElse at hw ⊢
    cases h : p c with
    | fail m =>
      rw [h] at hw hecho
      obtain ⟨hwithin, hmiss⟩ := Reply.Within.of_behind hw
      rcases hecho (hmiss m rfl) with hexhausted | hfail
      · simp only [hexhausted]
        exact Reply.echo_exhausted
      · simp only [hfail]
        exact (hq.echo halike hwithin).behind _
    | ok a next miss =>
      rw [h] at hw hecho
      rcases hecho hw with hexhausted | ⟨next', hok, halike'⟩
      · simp only [hexhausted]
        exact .inl rfl
      · simp only [hok]
        exact .inr ⟨next', rfl, halike'⟩
    | interrupted cause => trivial
    | exhausted => trivial

/-- Judging what stands at the cursor looks at that alone. -/
theorem local_look (judge : Option Lexeme → Except (List Expectation) α) :
    Local (look judge) (look judge) where
  forward := by
    rintro ⟨i, s⟩
    cases s with
    | fault e => trivial
    | done p =>
      simp only [look]
      cases judge none with
      | ok a => exact Nat.le_refl i
      | error expected => exact Nat.le_refl i
    | token t rest =>
      simp only [look]
      cases judge (some t.lexeme) with
      | ok a => exact Nat.le_succ i
      | error expected => exact Nat.le_refl i
  echo := by
    rintro n ⟨i, s⟩ ⟨i', s'⟩ ⟨rfl, hahead⟩ hw
    cases s with
    | fault e => exact hw.elim
    | done p =>
      cases hj : judge none with
      | ok a =>
        simp only [look, hj] at hw ⊢
        obtain rfl := TokenStream.at?_done (hahead 0 hw.1).symm
        exact .inr ⟨_, rfl, rfl, hahead⟩
      | error expected =>
        simp only [look, hj] at hw ⊢
        obtain rfl := TokenStream.at?_done (hahead 0 hw).symm
        exact .inr rfl
    | token t rest =>
      cases hj : judge (some t.lexeme) with
      | ok a =>
        simp only [look, hj] at hw ⊢
        have hle : i' + 1 ≤ n := hw.1
        obtain ⟨rest', rfl⟩ := TokenStream.at?_token (hahead 0 (Nat.le_of_succ_le hle)).symm
        refine .inr ⟨⟨i' + 1, rest'⟩, by simp only [hj], rfl, fun k hk => ?_⟩
        exact hahead (k + 1) (by rw [Nat.add_comm k 1, ← Nat.add_assoc]; exact hk)
      | error expected =>
        simp only [look, hj] at hw ⊢
        obtain ⟨rest', rfl⟩ := TokenStream.at?_token (hahead 0 hw).symm
        exact .inr (by simp only [hj])

theorem congruence_local : Congruence @Local where
  exhausted := local_exhausted
  to_exhausted := Local.to_exhausted
  succeed := local_succeed
  look := fun judge _ _ => local_look judge
  tag := (local_look _).andThen fun _ => local_settle _
  constant := (local_look _).andThen fun _ => local_settle _
  andThen := Local.andThen
  orElse := Local.orElse

/-- **A whole text is read no further than it is reported on.** -/
theorem local_document (rules : Rules) (b b' : Nat) :
    Local (document rules b) (document rules b') := congruence_local.document rules b b'

end Grammar
end SchemaLang
