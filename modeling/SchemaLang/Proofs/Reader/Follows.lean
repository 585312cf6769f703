/-
# The buffer does what the grammar says

A rule of the grammar replies with the misses of its own; a reader has one record of the whole run.
An action follows a rule where, from any sound state, it comes to the cursor that the rule replies
with, or stops as the rule does, and its record is the one it had, with the misses of the rule
merged in (`Follows`).  On the way it makes sound moves only.

What goes on record must not be met by what stands there, and for one expectation this depends on
what is in front: where the value of a syntax statement is due, a string may meet `identifier`.
Names are never asked for there, since no name stands behind an equals sign, so `Follows` keeps
track of whether one was just read (`NoEquals`).
-/
import SchemaLang.Proofs.Grammar.Exact.Documents
import SchemaLang.Proofs.Reader.Invariant

namespace SchemaLang.Buffered

open Text Grammar

variable {α β γ : Type}

/-! ## 1. Where a reader stands -/

/-- The lexemes that the reader has passed. -/
def Reader.passed (r : Reader) : List Lexeme := r.lexemesTo r.pos

/-- The place of a reader as a cursor of the grammar. -/
def Reader.cursor (s : TokenStream) (r : Reader) : Cursor := ⟨r.pos, s.behind r.pos⟩

/-- The record of a reader, as the miss that it stands for.  A miss asks for something. -/
def Reader.Remembers (r : Reader) : Option Miss → Prop
  | none => r.furthest = 0 ∧ r.expected = []
  | some m => r.furthest = m.index ∧ r.expected = m.expected ∧ r.buffer[m.index]? = some m.found ∧
    m.expected ≠ []

/-- The cursor behind what is in sight; there is nothing behind the end. -/
def skip (c : Cursor) : Cursor :=
  match c.ahead with
  | .token _ rest => ⟨c.index + 1, rest⟩
  | _ => c

/-- No equals sign was just passed. -/
def NoEquals (u : List Lexeme) : Prop := u.getLast? ≠ some (.punct .equals)

/-- Anything was passed. -/
def Anything (_ : List Lexeme) : Prop := True

variable {rules : Rules} {s : TokenStream} {h h' h'' : Run} {o : Option Miss} {r r' : Reader}

/-- More tokens in the buffer change nothing about what was passed. -/
theorem lexemesTo_of_prefix {i : Nat} (hi : i ≤ r.buffer.length) (hb : r.buffer <+: r'.buffer) :
    r'.lexemesTo i = r.lexemesTo i := by
  obtain ⟨rest, hrest⟩ := hb
  rw [Reader.lexemesTo, Reader.lexemesTo, ← hrest, List.take_append_of_le_length hi]

/-- The reader stands where it stood, and the buffer still holds what it held. -/
structure Reader.KeepsPlace (r r' : Reader) : Prop where
  pos : r'.pos = r.pos
  buffer : r.buffer <+: r'.buffer

/-- The record is the same, and the buffer still holds what it held. -/
structure Reader.KeepsRecord (r r' : Reader) : Prop where
  furthest : r'.furthest = r.furthest
  expected : r'.expected = r.expected
  buffer : r.buffer <+: r'.buffer

theorem Reader.KeepsPlace.passed (k : r.KeepsPlace r') (hr : r.Sound rules s) :
    r'.passed = r.passed := by
  rw [Reader.passed, Reader.passed, k.pos, lexemesTo_of_prefix hr.reached k.buffer]

theorem Reader.KeepsPlace.cursor (k : r.KeepsPlace r') : r'.cursor s = r.cursor s := by
  rw [Reader.cursor, Reader.cursor, k.pos]

theorem Reader.KeepsRecord.remembers (k : r.KeepsRecord r') (ho : r.Remembers o) :
    r'.Remembers o := by
  cases o with
  | none => exact ⟨k.furthest.trans ho.1, k.expected.trans ho.2⟩
  | some m =>
    obtain ⟨hindex, hexpected, hfound, hne⟩ := ho
    obtain ⟨rest, hrest⟩ := k.buffer
    refine ⟨k.furthest.trans hindex, k.expected.trans hexpected, ?_, hne⟩
    rw [← hrest, List.getElem?_append_left (List.getElem?_eq_some_iff.mp hfound).1, hfound]

/-- What the reader has in the buffer at its place is what the cursor has in sight. -/
theorem sight?_cursor (hr : r.Sound rules s) {x : Sighting} (hx : r.buffer[r.pos]? = some x) :
    (r.cursor s).ahead.sight? = some x := by
  rw [Reader.cursor, ← TokenStream.shown_getElem? hr.inside]
  exact hr.shown_of_buffer hx

theorem skip_of_token {c : Cursor} {t : Token} {rest : TokenStream}
    (h : c.ahead = .token t rest) : skip c = ⟨c.index + 1, rest⟩ := by
  unfold skip
  rw [h]

/-- At the end of the text nothing is skipped. -/
theorem skip_of_done {c : Cursor} {p : Position} (h : c.ahead = .done p) : skip c = c := by
  unfold skip
  rw [h]

/-- To read a lexeme is to skip it. -/
theorem cursor_advance (hr : r.Sound rules s) {x : Sighting} (hx : r.buffer[r.pos]? = some x)
    (hl : x.lexeme.isSome) : Reader.cursor s { r with pos := r.pos + 1 } = skip (r.cursor s) := by
  obtain ⟨t, rest, hs⟩ := TokenStream.exists_token_of_sight? (sight?_cursor hr hx) hl
  rw [skip_of_token hs]
  exact congrArg (Cursor.mk _) (TokenStream.behind_succ hr.inside hs)

theorem passed_advance {x : Sighting} (hx : r.buffer[r.pos]? = some x) :
    Reader.passed { r with pos := r.pos + 1 } = r.passed ++ x.lexeme.toList := by
  have htake := List.take_add_one (l := r.buffer) (i := r.pos)
  rw [hx] at htake
  show (r.buffer.take (r.pos + 1)).filterMap Sighting.lexeme = _
  rw [htake, List.filterMap_append]
  exact congrArg (r.passed ++ ·) (by cases hl : x.lexeme <;> simp [hl])

/-! ## 2. Steps in a row -/

section Steps

variable {m : Action α} {f : α → Action β}

theorem bind_of_ok {a : α} (hm : m h = (.ok a, h')) : (m >>= f) h = f a h' := by
  simp only [bind, hm]

theorem bind_of_error {e : Stop} (hm : m h = (.error e, h')) : (m >>= f) h = (.error e, h') := by
  simp only [bind, hm]

theorem action_bind_assoc (m : Action α) (f : α → Action β) (g : β → Action γ) :
    m >>= f >>= g = m >>= fun a => f a >>= g := by
  funext h
  rcases hm : m h with ⟨e | a, h'⟩
  · rw [bind_of_error hm, bind_of_error (bind_of_error hm)]
  · rw [bind_of_ok hm]
    rcases hf : f a h' with ⟨e | b, h''⟩
    · rw [bind_of_error hf, bind_of_error ((bind_of_ok hm).trans hf)]
    · rw [bind_of_ok hf, bind_of_ok ((bind_of_ok hm).trans hf)]

end Steps

/-! ## 3. Following -/

section Following

variable (rules s)

/-- What an action comes to is what the rule replies, with the record in front of it.  `Q` is what
was passed in the end. -/
inductive Answers (Q : List Lexeme → Prop) (h : Run) (o : Option Miss) :
    Except Stop α × Run → Reply α → Prop
  | ok {a : α} {h' : Run} {miss : Option Miss} (k : Leads rules h h') (hQ : Q h'.now.passed)
    (hm : h'.now.Remembers (Miss.both o miss)) :
    Answers Q h o (.ok a, h') (.ok a (h'.now.cursor s) miss)
  | fail {h' : Run} {m : Miss} (k : Leads rules h h')
    (hm : h'.now.Remembers (some (m.after o))) : Answers Q h o (.error .noMatch, h') (.fail m)
  | interrupted {h' : Run} {cause : Interruption} (k : Leads rules h h') :
    Answers Q h o (.error (.interrupted cause), h') (.interrupted cause)
  | exhausted {h' : Run} (k : Leads rules h h') :
    Answers Q h o (.error .exhausted, h') .exhausted

/-- From wherever `P` was passed the action follows the rule, and to where `Q` was passed. -/
def Follows (P Q : List Lexeme → Prop) (m : Action α) (p : Parser α) : Prop :=
  ∀ h o, h.Safe rules s → P h.now.passed → h.now.Remembers o →
    Answers rules s Q h o (m h) (p (h.now.cursor s))

end Following

variable {P Q R : List Lexeme → Prop}

/-- What is answered from a later point of the run is answered from an earlier one. -/
theorem Answers.behind {out : Except Stop α × Run} {reply : Reply α} {miss : Option Miss}
    (k : Leads rules h h') (ha : Answers rules s Q h' (Miss.both o miss) out reply) :
    Answers rules s Q h o out (reply.behind miss) := by
  cases ha with
  | ok k' hQ hm =>
    rw [Miss.both_assoc] at hm
    exact .ok (k.trans k') hQ hm
  | @fail _ m k' hm =>
    have hassoc := Option.some.inj (Miss.both_assoc o miss (some m))
    exact .fail (k.trans k') (hassoc ▸ hm)
  | interrupted k' => exact .interrupted (k.trans k')
  | exhausted k' => exact .exhausted (k.trans k')

theorem Follows.bind {m : Action α} {p : Parser α} {f : α → Action β} {g : α → Parser β}
    (hm : Follows rules s P Q m p) (hf : ∀ a, Follows rules s Q R (f a) (g a)) :
    Follows rules s P R (m >>= f) (Parser.andThen p g) := by
  intro h o hs hP ho
  have ha := hm h o hs hP ho
  unfold Parser.andThen
  generalize hout : m h = out at ha
  generalize p (h.now.cursor s) = reply at ha
  cases ha with
  | ok k hQ ho' =>
    rw [bind_of_ok hout]
    exact .behind k (hf _ _ _ (k.safe hs) hQ ho')
  | fail k ho' =>
    rw [bind_of_error hout]
    exact .fail k ho'
  | interrupted k =>
    rw [bind_of_error hout]
    exact .interrupted k
  | exhausted k =>
    rw [bind_of_error hout]
    exact .exhausted k

theorem follows_pure (a : α) : Follows rules s P P (pure a) (Parser.succeed a) :=
  fun h _ _ hP ho => .ok (.refl h) hP ho

/-- What was found is only wrapped up. -/
theorem Follows.wrap {m : Action α} {p : Parser α} (hm : Follows rules s P Q m p) (f : α → β) :
    Follows rules s P Q (m >>= fun a => pure (f a))
      (Parser.andThen p fun a => Parser.succeed (f a)) := hm.bind fun _ => follows_pure _

theorem follows_exhausted : Follows rules s P Q (stop .exhausted : Action α) fun _ => .exhausted :=
  fun h _ _ _ _ => .exhausted (.refl h)

theorem follows_settle (e : Except LongNumeral α) :
    Follows rules s P P (settle e) (Parser.settle e) := by
  cases e with
  | ok a => exact follows_pure a
  | error e => exact fun h _ _ _ _ => .interrupted (.refl h)

/-! ## 4. Looking, noting and reading -/

theorem lookUp_of_some {i : Nat} {x : Sighting} (hx : h.now.buffer[i]? = some x) :
    lookUp i h = (.ok x, h) := by
  rw [lookUp, bind_of_ok (rfl : state h = (.ok h.now, h))]
  simp only [hx]
  rfl

/-- One token, or the end, is handed out and put into the buffer. -/
theorem pull_of_sight (rules : Rules) {t : TokenStream} {x : Sighting}
    (hsource : h.now.source = some t) (hx : t.sight? = some x) :
    ∃ h', pull h = (.ok (), h') ∧ Leads rules h h' ∧ h'.now.buffer = h.now.buffer ++ [x] ∧
      h.now.KeepsPlace h'.now ∧ h.now.KeepsRecord h'.now := by
  have hgrow := List.prefix_append h.now.buffer [x]
  rw [pull, bind_of_ok (rfl : state h = (.ok h.now, h)), hsource]
  rcases TokenStream.sight?_cases hx with ⟨p, rfl, rfl⟩ | ⟨t, rest, rfl, rfl⟩
  · exact ⟨_, rfl, (Leads.refl h).move (.last hsource), rfl, ⟨rfl, hgrow⟩, ⟨rfl, rfl, hgrow⟩⟩
  · exact ⟨_, rfl, (Leads.refl h).move (.token hsource), rfl, ⟨rfl, hgrow⟩, ⟨rfl, rfl, hgrow⟩⟩

theorem pull_of_fault {e : LexicalError} (hsource : h.now.source = some (.fault e)) :
    pull h = (.error (.interrupted (.lexical e)), h) := by
  rw [pull, bind_of_ok (rfl : state h = (.ok h.now, h))]
  simp only [hsource]
  rfl

/-- To look at what stands at the place of the reader fills the buffer up to there and changes
nothing else, unless the stream breaks off there. -/
theorem current_cases (hs : h.Safe rules s) :
    (∃ e, (h.now.cursor s).ahead = .fault e ∧
        current h = (.error (.interrupted (.lexical e)), h)) ∨
      ∃ x h', (h.now.cursor s).ahead.sight? = some x ∧ current h = (.ok x, h') ∧
        Leads rules h h' ∧ h'.now.buffer[h'.now.pos]? = some x ∧ h.now.KeepsPlace h'.now ∧
        h.now.KeepsRecord h'.now := by
  have hcurrent : current h = (pullMany (h.now.pos + 1 - h.now.buffer.length) >>= fun _ =>
    lookUp h.now.pos) h := rfl
  rcases Nat.lt_or_eq_of_le hs.now.reached with hlt | heq
  · obtain ⟨x, hx⟩ : ∃ x, h.now.buffer[h.now.pos]? = some x := ⟨_, List.getElem?_eq_getElem hlt⟩
    refine .inr ⟨x, h, sight?_cursor hs.now hx, ?_, .refl h, hx, ⟨rfl, List.prefix_rfl⟩,
      ⟨rfl, rfl, List.prefix_rfl⟩⟩
    rw [hcurrent, Nat.sub_eq_zero_of_le hlt]
    exact lookUp_of_some hx
  · -- the token at the place of the reader is the next one that the stream hands out
    have hsource : h.now.source = some (s.behind h.now.pos) := by
      rw [hs.now.source, ← heq, if_pos hs.now.inside]
    have hone : h.now.pos + 1 - h.now.buffer.length = 1 := by omega
    rw [hcurrent, hone]
    cases hahead : (s.behind h.now.pos).sight? with
    | none =>
      obtain ⟨e, he⟩ := TokenStream.exists_fault_of_sight? hahead
      rw [he] at hsource
      exact .inl ⟨e, he, bind_of_error (bind_of_error (pull_of_fault hsource))⟩
    | some x =>
      obtain ⟨h', hpull, k, hbuffer, hplace, hrecord⟩ := pull_of_sight rules hsource hahead
      have hx : h'.now.buffer[h.now.pos]? = some x := by
        rw [hbuffer, heq]
        exact List.getElem?_concat_length
      have hone : pullMany 1 h = (.ok (), h') := bind_of_ok hpull
      refine .inr ⟨x, h', hahead, ?_, k, by rwa [hplace.pos], hplace, hrecord⟩
      exact (bind_of_ok hone).trans (lookUp_of_some hx)

/-- What is asked for in vain is merged into the record. -/
theorem note_remembers (rules : Rules) {x : Sighting} {expected : List Expectation}
    (hx : h.now.buffer[h.now.pos]? = some x) (hne : expected ≠ [])
    (hunmet : ∀ e ∈ expected, ¬ e.MetBy rules h.now.passed x.lexeme) (ho : h.now.Remembers o) :
    ∃ h', note expected h = (.ok (), h') ∧ Leads rules h h' ∧ h.now.KeepsPlace h'.now ∧
      h'.now.Remembers (some ((⟨h.now.pos, x, expected⟩ : Miss).after o)) := by
  have hnote : note expected h = (if h.now.furthest < h.now.pos then
      become { h.now with furthest := h.now.pos, expected := expected }
    else if h.now.pos = h.now.furthest then
      become { h.now with expected := h.now.expected ++ expected }
    else pure () : Action Unit) h := rfl
  rw [hnote]
  rcases Nat.lt_trichotomy h.now.furthest h.now.pos with hlt | heq | hgt
  · rw [if_pos hlt]
    refine ⟨_, rfl, (Leads.refl h).move (.outdo hlt hx hunmet), ⟨rfl, List.prefix_rfl⟩, ?_⟩
    cases o with
    | none => exact ⟨rfl, rfl, hx, hne⟩
    | some m =>
      have hmerge : m.merge ⟨h.now.pos, x, expected⟩ = ⟨h.now.pos, x, expected⟩ := by
        rw [Miss.merge, if_pos (ho.1 ▸ hlt)]
      rw [Miss.after, hmerge]
      exact ⟨rfl, rfl, hx, hne⟩
  · rw [if_neg (Nat.not_lt.mpr (Nat.le_of_eq heq.symm)), if_pos heq.symm]
    refine ⟨_, rfl, (Leads.refl h).move (.join heq.symm hx hunmet), ⟨rfl, List.prefix_rfl⟩, ?_⟩
    cases o with
    | none =>
      obtain ⟨hzero, hnil⟩ := ho
      have hexpected : h.now.expected ++ expected = expected := by rw [hnil, List.nil_append]
      exact ⟨heq, hexpected, hx, hne⟩
    | some m =>
      obtain ⟨hindex, hexpected, hfound, hm⟩ := ho
      have hmerge : m.merge ⟨h.now.pos, x, expected⟩ =
          { m with expected := m.expected ++ expected } := by
        simp only [Miss.merge]
        rw [if_neg (by omega), if_neg (by omega)]
      rw [Miss.after, hmerge]
      refine ⟨hindex, ?_, hfound, List.append_ne_nil_of_left_ne_nil hm _⟩
      rw [← hexpected]
      rfl
  · rw [if_neg (Nat.not_lt.mpr (Nat.le_of_lt hgt)), if_neg (Nat.ne_of_lt hgt)]
    refine ⟨h, rfl, .refl h, ⟨rfl, List.prefix_rfl⟩, ?_⟩
    cases o with
    | none => exact absurd ho.1 (by omega)
    | some m =>
      have hindex := ho.1
      have hmerge : m.merge ⟨h.now.pos, x, expected⟩ = m := by
        simp only [Miss.merge]
        rw [if_neg (by omega), if_pos (by omega)]
      rw [Miss.after, hmerge]
      exact ho

/-- What stands at the place of the reader is read, the end is left where it is. -/
theorem advance_eq (hs : h.Safe rules s) {x : Sighting} (hx : h.now.buffer[h.now.pos]? = some x) :
    ∃ h', advance h = (.ok x, h') ∧ Leads rules h h' ∧ h.now.KeepsRecord h'.now ∧
      h'.now.cursor s = skip (h.now.cursor s) ∧
      h'.now.passed = h.now.passed ++ x.lexeme.toList := by
  have hcurrent : current h = (.ok x, h) := by
    have hlt := (List.getElem?_eq_some_iff.mp hx).1
    show (pullMany (h.now.pos + 1 - h.now.buffer.length) >>= fun _ => lookUp h.now.pos) h = _
    rw [Nat.sub_eq_zero_of_le hlt]
    exact lookUp_of_some hx
  rw [advance, bind_of_ok hcurrent]
  cases hl : x.lexeme with
  | none =>
    refine ⟨h, rfl, .refl h, ⟨rfl, rfl, List.prefix_rfl⟩, ?_, by simp⟩
    rcases TokenStream.sight?_cases (sight?_cursor hs.now hx) with ⟨p, hdone, -⟩ | ⟨t, rest, -, rfl⟩
    · exact (skip_of_done hdone).symm
    · exact absurd hl (by simp)
  | some l =>
    have hsome : x.lexeme.isSome := by simp [hl]
    refine ⟨h.push { h.now with pos := h.now.pos + 1 }, rfl,
      (Leads.refl h).move (.advance hx hsome), ⟨rfl, rfl, List.prefix_rfl⟩, ?_, ?_⟩
    · exact cursor_advance hs.now hx hsome
    · rw [← hl]
      exact passed_advance hx

end SchemaLang.Buffered
