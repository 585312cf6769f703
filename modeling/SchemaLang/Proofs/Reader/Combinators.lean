/-
# The combinators follow those of the grammar

What a reader does with one token is said once (`Accepted`): the token is read, or what was asked
for goes on record, or the stream breaks off.  To insist on a token, to try an alternative, to
choose and to repeat then follow the combinators of the grammar.  Where the two are built up
differently an equation between rules of the grammar comes first: a reader that chooses, for one,
goes on where an attempt found nothing (`optional_orElse`).
-/
import SchemaLang.Proofs.Reader.Follows

namespace SchemaLang

open Text Grammar SchemaLang.Grammar.Parser

variable {α β γ : Type}

/-! ## 1. Rules that are built up otherwise -/

namespace Grammar

theorem andThen_succeed (p : Parser α) : andThen p succeed = p := by
  funext c
  unfold Parser.andThen
  cases p c with
  | ok a next miss => rfl
  | fail m => rfl
  | interrupted cause => rfl
  | exhausted => rfl

/-- An attempt at a rule always matches, unless the run breaks off. -/
theorem optional_eq (p : Parser α) (c : Cursor) : optional p c =
    match p c with
    | .ok a next miss => .ok (some a) next miss
    | .fail m => .ok none c (some m)
    | .interrupted cause => .interrupted cause
    | .exhausted => .exhausted := by
  simp only [Parser.optional, Parser.orElse, Parser.andThen]
  cases p c with
  | ok a next miss => rfl
  | fail m => rfl
  | interrupted cause => rfl
  | exhausted => rfl

/-- The second rule is tried where an attempt at the first one finds nothing. -/
theorem orElse_eq_andThen (p q : Parser α) : orElse p q = andThen (optional p) fun
    | some a => succeed a
    | none => q := by
  funext c
  simp only [Parser.orElse, Parser.andThen, optional_eq]
  cases p c with
  | ok a next miss => rfl
  | fail m => rfl
  | interrupted cause => rfl
  | exhausted => rfl

/-- What an attempt finds may be wrapped up in front of it or behind it. -/
theorem optional_wrap (p : Parser α) (f : α → β) :
    optional (andThen p fun a => succeed (f a)) =
      andThen (optional p) fun a => succeed (a.map f) := by
  funext c
  simp only [Parser.andThen, optional_eq]
  cases p c with
  | ok a next miss => rfl
  | fail m => rfl
  | interrupted cause => rfl
  | exhausted => rfl

theorem orElse_wrap (p : Parser α) (f : α → β) (q : Parser β) :
    orElse (andThen p fun a => succeed (f a)) q = andThen (optional p) fun
      | some a => succeed (f a)
      | none => q := by
  rw [orElse_eq_andThen, optional_wrap, andThen_assoc]
  refine congrArg (andThen _) (funext fun a => ?_)
  cases a <;> exact succeed_andThen _ _

/-- An attempt at a choice is one at the first rule, and one at the second where that finds
nothing. -/
theorem optional_orElse (p q : Parser α) :
    optional (orElse p q) = andThen (optional p) fun
      | some a => succeed (some a)
      | none => optional q := by
  funext c
  simp only [Parser.orElse, Parser.andThen, optional_eq]
  cases p c with
  | ok a next miss => rfl
  | fail m =>
    dsimp only
    rw [optional_eq]
    cases q c <;> rfl
  | interrupted cause => rfl
  | exhausted => rfl

/-- An attempt at a line looks for a line break first. -/
theorem optional_lineOr (p : Parser α) :
    optional (lineOr p) = andThen (optional newline) fun
      | some () => succeed (some none)
      | none => andThen (optional p) fun a => succeed (a.map some) := by
  rw [lineOr, optional_orElse, optional_wrap, optional_wrap, andThen_assoc]
  refine congrArg (andThen _) (funext fun a => ?_)
  cases a <;> exact succeed_andThen _ _

/-- What a look at what is in sight comes to. -/
theorem look_of_sight {judge : Option Lexeme → Except (List Expectation) α} {c : Cursor}
    {x : Sighting} (hx : c.ahead.sight? = some x) : look judge c =
      match judge x.lexeme with
      | .ok a => .ok a (Buffered.skip c) none
      | .error expected => .fail ⟨c.index, x, expected⟩ := by
  rcases TokenStream.sight?_cases hx with ⟨p, hs, rfl⟩ | ⟨t, rest, hs, rfl⟩
  · cases hjudge : judge none <;> simp only [look, hs, hjudge, Buffered.skip_of_done hs]
  · cases hjudge : judge (some t.lexeme) <;>
      simp only [look, hs, hjudge, Buffered.skip_of_token hs]

theorem look_of_fault {judge : Option Lexeme → Except (List Expectation) α} {c : Cursor}
    {e : LexicalError} (he : c.ahead = .fault e) : look judge c = .interrupted (.lexical e) := by
  unfold look
  rw [he]

/-- A look that misses is about what is in sight. -/
theorem sight_of_look_fail {judge : Option Lexeme → Except (List Expectation) α} {c : Cursor}
    {m : Miss} (h : look judge c = .fail m) :
    c.ahead.sight? = some m.found ∧ m.index = c.index := by
  cases hx : c.ahead.sight? with
  | none =>
    obtain ⟨e, he⟩ := TokenStream.exists_fault_of_sight? hx
    rw [look_of_fault he] at h
    exact absurd h (by simp)
  | some x =>
    rw [look_of_sight hx] at h
    split at h
    · exact absurd h (by simp)
    · obtain rfl := Reply.fail.inj h
      exact ⟨rfl, rfl⟩

/-- A line that is missed was looked for where the reader stands. -/
theorem lineOr_of_fail {p : Parser α} {c : Cursor} {m : Miss} (h : Grammar.lineOr p c = .fail m) :
    (∃ x, c.ahead.sight? = some x) ∧ c.index ≤ m.index := by
  rw [Grammar.lineOr, orElse_wrap, Parser.andThen, optional_eq] at h
  cases hnewline : newline c with
  | fail miss =>
    rw [hnewline] at h
    rw [newline, lexeme] at hnewline
    obtain ⟨hx, hindex⟩ := sight_of_look_fail hnewline
    refine ⟨⟨_, hx⟩, ?_⟩
    rw [← hindex]
    dsimp only at h
    generalize andThen p (fun a => succeed (some a)) c = reply at h
    cases reply with
    | fail m' =>
      obtain rfl := Reply.fail.inj h
      exact Miss.le_index_merge_left miss m'
    | ok => exact absurd h (by simp [Reply.behind])
    | interrupted => exact absurd h (by simp [Reply.behind])
    | exhausted => exact absurd h (by simp [Reply.behind])
  | ok a next miss =>
    rw [hnewline] at h
    exact absurd h (by simp [Parser.succeed, Reply.behind])
  | interrupted cause =>
    rw [hnewline] at h
    exact absurd h (by simp)
  | exhausted =>
    rw [hnewline] at h
    exact absurd h (by simp)

/-- To refuse where an attempt finds nothing is to insist on the rule, if the rule looks at what is
in sight. -/
theorem andThen_optional_refuse {p : Parser α} (g : α → Parser β)
    (hp : ∀ c m, p c = .fail m → (∃ x, c.ahead.sight? = some x) ∧ c.index ≤ m.index) :
    (andThen (optional p) fun
      | some a => g a
      | none => refuse) = andThen p g := by
  funext c
  simp only [Parser.andThen, optional_eq]
  cases h : p c with
  | ok a next miss => rfl
  | fail m =>
    obtain ⟨⟨x, hx⟩, hle⟩ := hp c m h
    exact refuse_behind hx hle
  | interrupted cause => rfl
  | exhausted => rfl

end Grammar

namespace Buffered

variable {rules : Rules} {s : TokenStream} {h h' : Run} {o : Option Miss}
  {P Q : List Lexeme → Prop} {expected : List Expectation} {f : Option Lexeme → Option α}

/-! ## 2. One token -/

/-- The judgement of what `f` makes something of. -/
def judgeOf (expected : List Expectation) (f : Option Lexeme → Option α) :
    Option Lexeme → Except (List Expectation) α :=
  fun x => (f x).elim (.error expected) .ok

/-- Where `P` was passed, what `f` makes nothing of meets nothing of what is asked for.  Something
is asked for. -/
structure Asks (rules : Rules) (P : List Lexeme → Prop) (expected : List Expectation)
    (f : Option Lexeme → Option α) : Prop where
  asks : expected ≠ []
  unmet : ∀ u x, P u → f x = none → ∀ e ∈ expected, ¬ e.MetBy rules u x

/-- What a reader does with one token that it may read. -/
inductive Accepted (rules : Rules) (s : TokenStream) (expected : List Expectation)
    (f : Option Lexeme → Option α) (h : Run) (o : Option Miss) :
    Except Stop (Option α) × Run → Prop
  /-- The stream breaks off. -/
  | broken {e : LexicalError} (he : (h.now.cursor s).ahead = .fault e) :
    Accepted rules s expected f h o (.error (.interrupted (.lexical e)), h)
  /-- The token is read. -/
  | taken {x : Sighting} {a : α} {h' : Run} (hx : (h.now.cursor s).ahead.sight? = some x)
    (hf : f x.lexeme = some a) (k : Leads rules h h')
    (hcursor : h'.now.cursor s = skip (h.now.cursor s))
    (hpassed : h'.now.passed = h.now.passed ++ x.lexeme.toList)
    (hm : h'.now.Remembers o) : Accepted rules s expected f h o (.ok (some a), h')
  /-- What was asked for goes on record. -/
  | missed {x : Sighting} {h' : Run} (hx : (h.now.cursor s).ahead.sight? = some x)
    (hf : f x.lexeme = none) (k : Leads rules h h')
    (hcursor : h'.now.cursor s = h.now.cursor s) (hpassed : h'.now.passed = h.now.passed)
    (hm : h'.now.Remembers (some ((⟨h.now.pos, x, expected⟩ : Miss).after o))) :
    Accepted rules s expected f h o (.ok none, h')

theorem accepted_accept (hask : Asks rules P expected f) (hs : h.Safe rules s)
    (hP : P h.now.passed) (ho : h.now.Remembers o) :
    Accepted rules s expected f h o (accept expected f h) := by
  rcases current_cases hs with ⟨e, he, hcurrent⟩ |
    ⟨x, h', hsight, hcurrent, k, hx, hplace, hrecord⟩
  · rw [accept, bind_of_error hcurrent]
    exact .broken he
  · have hs' := k.safe hs
    have hpassed : h'.now.passed = h.now.passed := hplace.passed hs.now
    have hcursor : h'.now.cursor s = h.now.cursor s := hplace.cursor
    have ho' : h'.now.Remembers o := hrecord.remembers ho
    rw [accept, bind_of_ok hcurrent]
    cases hf : f x.lexeme with
    | some a =>
      obtain ⟨h'', hadvance, k', hrecord', hcursor', hpassed'⟩ := advance_eq hs' hx
      show Accepted rules s expected f h o ((advance >>= fun _ => pure (some a)) h')
      rw [bind_of_ok hadvance]
      refine .taken hsight hf (k.trans k') ?_ ?_ (hrecord'.remembers ho')
      · rw [hcursor', hcursor]
      · rw [hpassed', hpassed]
    | none =>
      obtain ⟨h'', hnote, k', hplace', hm⟩ := note_remembers rules hx hask.asks
        (hpassed ▸ hask.unmet _ _ hP hf) ho'
      show Accepted rules s expected f h o ((note expected >>= fun _ => pure none) h')
      rw [bind_of_ok hnote]
      refine .missed hsight hf (k.trans k') ?_ ?_ ?_
      · rw [hplace'.cursor, hcursor]
      · rw [hplace'.passed hs'.now, hpassed]
      · rwa [hplace.pos] at hm

/-- A token that may stand there. -/
theorem follows_accept (hask : Asks rules P expected f)
    (hkeep : ∀ u x a, P u → f x = some a → P (u ++ x.toList)) :
    Follows rules s P P (accept expected f) (optional (look (judgeOf expected f))) := by
  intro h o hs hP ho
  have ha := accepted_accept hask hs hP ho
  generalize accept expected f h = out at ha
  rw [optional_eq]
  cases ha with
  | broken he =>
    rw [look_of_fault he]
    exact .interrupted (.refl h)
  | taken hx hf k hcursor hpassed hm =>
    rw [look_of_sight hx, judgeOf, hf, ← hcursor]
    exact .ok k (hpassed ▸ hkeep _ _ _ hP hf) hm
  | missed hx hf k hcursor hpassed hm =>
    rw [look_of_sight hx, judgeOf, hf]
    show Answers rules s P h o _ (.ok none (h.now.cursor s) (some ⟨h.now.pos, _, expected⟩))
    rw [← hcursor]
    exact .ok k (hpassed ▸ hP) hm

theorem expect_of_some {a : α} (ha : accept expected f h = (.ok (some a), h')) :
    expect expected f h = (.ok a, h') := bind_of_ok ha

theorem expect_of_none (ha : accept expected f h = (.ok none, h')) :
    expect expected f h = (.error .noMatch, h') := bind_of_ok ha

theorem expect_of_error {e : Stop} (ha : accept expected f h = (.error e, h')) :
    expect expected f h = (.error e, h') := bind_of_error ha

/-- A token that must stand there. -/
theorem follows_expect (hask : Asks rules P expected f)
    (hkeep : ∀ u x a, P u → f x = some a → Q (u ++ x.toList)) :
    Follows rules s P Q (expect expected f) (look (judgeOf expected f)) := by
  intro h o hs hP ho
  have ha := accepted_accept hask hs hP ho
  generalize haccept : accept expected f h = out at ha
  cases ha with
  | broken he =>
    rw [look_of_fault he, expect_of_error haccept]
    exact .interrupted (.refl h)
  | taken hx hf k hcursor hpassed hm =>
    rw [look_of_sight hx, judgeOf, hf, ← hcursor, expect_of_some haccept]
    exact .ok k (hpassed ▸ hkeep _ _ _ hP hf) hm
  | missed hx hf k hcursor hpassed hm =>
    rw [look_of_sight hx, judgeOf, hf, expect_of_none haccept]
    exact .fail k hm

/-- What was in sight is in the buffer once the reader is past it. -/
theorem buffer_of_sight {r : Reader} {i : Nat} {x : Sighting} (hr : r.Sound rules s)
    (hi : i < r.pos) (hx : (s.behind i).sight? = some x) : r.buffer[i]? = some x := by
  have hlt : i < r.buffer.length := Nat.lt_of_lt_of_le hi hr.reached
  have hshown := hr.shown_of_buffer (List.getElem?_eq_getElem hlt)
  rw [TokenStream.shown_getElem? (Nat.le_of_lt (Nat.lt_of_lt_of_le hi hr.inside)), hx] at hshown
  rw [List.getElem?_eq_getElem hlt, hshown]

/-- A token that was just read is put back, and something else is asked for in vain in front of
it. -/
theorem answers_back {h h' : Run} {o : Option Miss} {x : Sighting} (hs : h.Safe rules s)
    (hx : (h.now.cursor s).ahead.sight? = some x) (hl : x.lexeme.isSome) (k : Leads rules h h')
    (hcursor : h'.now.cursor s = skip (h.now.cursor s)) (hm : h'.now.Remembers o)
    (hne : expected ≠ []) (hunmet : ∀ u, ∀ e ∈ expected, ¬ e.MetBy rules u x.lexeme) :
    Answers rules s Q h o
      ((become { h'.now with pos := h.now.pos } >>= fun _ => fail expected : Action α) h')
      (.fail ⟨h.now.pos, x, expected⟩) := by
  obtain ⟨t, rest, ht⟩ := TokenStream.exists_token_of_sight? hx hl
  rw [skip_of_token ht] at hcursor
  have hpos : h'.now.pos = h.now.pos + 1 := congrArg Cursor.index hcursor
  have hbuffer : h'.now.buffer[h.now.pos]? = some x :=
    buffer_of_sight (k.safe hs).now (by omega) hx
  have hback : Move rules h'.now { h'.now with pos := h.now.pos } := .back (by omega)
  have hm : (h'.push { h'.now with pos := h.now.pos }).now.Remembers o :=
    Reader.KeepsRecord.remembers ⟨rfl, rfl, List.prefix_rfl⟩ hm
  obtain ⟨h'', hnote, k', -, hm'⟩ := note_remembers rules hbuffer hne (hunmet _) hm
  have hfail : (become { h'.now with pos := h.now.pos } >>= fun _ => fail expected : Action α) h' =
      (.error .noMatch, h'') := bind_of_ok hnote
  rw [hfail]
  exact .fail ((k.move hback).trans k') hm'

/-! ## 3. Attempts, choices and repetitions -/

/-- An alternative that is given up leaves the reader where it was. -/
theorem Follows.attempt {m : Action α} {p : Parser α} (hm : Follows rules s P P m p) :
    Follows rules s P P (attempt m) (optional p) := by
  intro h o hs hP ho
  have ha := hm h o hs hP ho
  rw [optional_eq]
  unfold Buffered.attempt
  generalize m h = out at ha
  generalize p (h.now.cursor s) = reply at ha
  cases ha with
  | ok k hQ ho' => exact .ok k hQ ho'
  | @fail h' miss k ho' =>
    have hplace : h.now.KeepsPlace (h'.giveUp h.now).now := ⟨rfl, k.evolves.buffer⟩
    have hrecord : h'.now.KeepsRecord (h'.giveUp h.now).now := ⟨rfl, rfl, List.prefix_rfl⟩
    dsimp only
    rw [← hplace.cursor]
    exact .ok ((Leads.refl h).giveUp k) (hplace.passed hs.now ▸ hP) (hrecord.remembers ho')
  | interrupted k => exact .interrupted k
  | exhausted k => exact .exhausted k

/-- To stop where an attempt finds nothing is to insist on the rule. -/
theorem Follows.insist {m : Action (Option α)} {p : Parser α} {k : α → Action β}
    {g : α → Parser β} (hm : Follows rules s P P m (optional p))
    (hk : ∀ a, Follows rules s P Q (k a) (g a)) :
    Follows rules s P Q (m >>= fun a => a.elim (stop .noMatch) k) (andThen p g) := by
  intro h o hs hP ho
  have ha := hm h o hs hP ho
  rw [optional_eq] at ha
  unfold Parser.andThen
  generalize hout : m h = out at ha
  generalize h.now.cursor s = c at ha
  cases hp : p c with
  | ok a next miss =>
    rw [hp] at ha
    cases ha with
    | ok on hQ ho' =>
      rw [bind_of_ok hout]
      exact .behind on (hk a _ _ (on.safe hs) hQ ho')
  | fail miss =>
    rw [hp] at ha
    cases ha with
    | ok on hQ ho' =>
      rw [bind_of_ok hout]
      exact .fail on ho'
  | interrupted cause =>
    rw [hp] at ha
    cases ha with
    | interrupted on =>
      rw [bind_of_error hout]
      exact .interrupted on
  | exhausted =>
    rw [hp] at ha
    cases ha with
    | exhausted on =>
      rw [bind_of_error hout]
      exact .exhausted on

theorem follows_choice {ms : List (Action α)} {ps : List (Parser α)}
    (hps : List.Forall₂ (Follows rules s P P) ms ps) (hne : ps ≠ []) :
    Follows rules s P P (choice ms) (optional (firstOf ps)) := by
  induction hps with
  | nil => exact absurd rfl hne
  | @cons m p ms ps hm hms ih =>
    cases hms with
    | nil =>
      rw [show optional (firstOf [p]) = andThen (optional p) succeed from (andThen_succeed _).symm]
      refine hm.attempt.bind fun a => ?_
      cases a with
      | none => exact follows_pure _
      | some a => exact follows_pure _
    | cons hm' hms =>
      rw [firstOf, optional_orElse]
      · refine hm.attempt.bind fun a => ?_
        cases a with
        | none => exact ih (by simp)
        | some a => exact follows_pure _
      · simp

theorem follows_whileSome {m : Action (Option α)} {p : Parser α}
    (hm : Follows rules s P P m (optional p)) (budget : Nat) :
    Follows rules s P P (whileSome m budget) (many budget p) := by
  induction budget with
  | zero => exact follows_exhausted
  | succ budget ih =>
    refine hm.bind fun a => ?_
    cases a with
    | none => exact follows_pure _
    | some a => exact ih.wrap _

theorem follows_whileLed {lead : Action (Option β)} {l : Parser β} {m : Action α} {p : Parser α}
    (hlead : Follows rules s P P lead (optional l)) (hm : Follows rules s P P m p)
    (budget : Nat) : Follows rules s P P (whileLed lead m budget) (eachAfter l p budget) := by
  induction budget with
  | zero => exact follows_exhausted
  | succ budget ih =>
    refine hlead.bind fun b => ?_
    cases b with
    | none => exact follows_pure _
    | some b => exact hm.bind fun a => ih.wrap _

end Buffered
end SchemaLang
