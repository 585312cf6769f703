/-
# What holds throughout a run

A reader changes its state in six ways (`Move`), and gives alternatives up.  Whatever it does it has
the front of the stream in its buffer, it is at a token of the stream or at the end and not behind
it, and its record is about a token of the buffer that meets nothing of what was asked for there
(`Reader.Sound`).  The buffer and the record only ever grow (`Reader.Evolves`).

One lemma a move says that it keeps this (`Move.sound`, `Move.evolves`), and the induction along a
run is made once (`Leads.safe`).
-/
import SchemaLang.Proofs.Grammar.Following
import SchemaLang.Proofs.Reader.Buffered

namespace SchemaLang

open Text Grammar

/-! ## 1. What a stream hands out -/

namespace TokenStream

variable {s : TokenStream} {n : Nat}

/-- All that a stream hands out: its tokens, and its end unless that is a fault. -/
def shown (s : TokenStream) : List Sighting := (s.read none).1

/-- The stream behind some of its tokens. -/
def behind : TokenStream → Nat → TokenStream
  | s, 0 => s
  | token _ rest, n + 1 => rest.behind n
  | s, _ + 1 => s

@[simp] theorem behind_zero (s : TokenStream) : s.behind 0 = s := by
  cases s <;> rfl

/-- What is in sight is the end, or the next token. -/
theorem sight?_cases {x : Sighting} (h : s.sight? = some x) :
    (∃ p, s = done p ∧ x = ⟨none, p⟩) ∨
      ∃ t rest, s = token t rest ∧ x = ⟨some t.lexeme, t.pos⟩ := by
  cases s with
  | done p => exact .inl ⟨p, rfl, (Option.some.inj h).symm⟩
  | fault e => exact absurd h (by simp [sight?])
  | token t rest => exact .inr ⟨t, rest, rfl, (Option.some.inj h).symm⟩

theorem exists_token_of_sight? {x : Sighting} (h : s.sight? = some x) (hl : x.lexeme.isSome) :
    ∃ t rest, s = token t rest := by
  rcases sight?_cases h with ⟨p, -, rfl⟩ | ⟨t, rest, hs, -⟩
  · exact absurd hl (by simp)
  · exact ⟨t, rest, hs⟩

/-- Only a stream that breaks off has nothing in sight. -/
theorem exists_fault_of_sight? (h : s.sight? = none) : ∃ e, s = fault e := by
  cases s with
  | done p => exact absurd h (by simp [sight?])
  | fault e => exact ⟨e, rfl⟩
  | token t rest => exact absurd h (by simp [sight?])

theorem size_behind (h : n ≤ s.size) : (s.behind n).size + n = s.size := by
  induction n generalizing s with
  | zero => simp
  | succ n ih =>
    cases s with
    | done p => exact absurd h (by simp [size])
    | fault e => exact absurd h (by simp [size])
    | token t rest =>
      have hrest := ih (s := rest) (Nat.le_of_succ_le_succ h)
      simp only [behind, size]
      omega

theorem shown_getElem? (h : n ≤ s.size) : s.shown[n]? = (s.behind n).sight? := by
  induction n generalizing s with
  | zero => cases s <;> rfl
  | succ n ih =>
    cases s with
    | done p => exact absurd h (by simp [size])
    | fault e => exact absurd h (by simp [size])
    | token t rest => exact ih (s := rest) (Nat.le_of_succ_le_succ h)

theorem behind_succ {t : Token} {rest : TokenStream} (hn : n ≤ s.size)
    (h : s.behind n = token t rest) : s.behind (n + 1) = rest := by
  induction n generalizing s with
  | zero =>
    rw [behind_zero] at h
    rw [h]
    exact behind_zero rest
  | succ n ih =>
    cases s with
    | done p => exact absurd hn (by simp [size])
    | fault e => exact absurd hn (by simp [size])
    | token u rest' => exact ih (s := rest') (Nat.le_of_succ_le_succ hn) h

theorem shown_length_le (s : TokenStream) : s.shown.length ≤ s.size + 1 := by
  induction s with
  | done p => exact Nat.le_refl _
  | fault e => exact Nat.zero_le _
  | token t rest ih => exact Nat.succ_le_succ ih

/-- What is shown in front of the end are the tokens. -/
theorem filterMap_take_shown (h : n ≤ s.size) :
    (s.shown.take n).filterMap Sighting.lexeme = s.lexemes.take n := by
  induction n generalizing s with
  | zero => rfl
  | succ n ih =>
    cases s with
    | done p => exact absurd h (by simp [size])
    | fault e => exact absurd h (by simp [size])
    | token t rest => exact congrArg (t.lexeme :: ·) (ih (Nat.le_of_succ_le_succ h))

end TokenStream

namespace Buffered

/-! ## 2. Sound states -/

/-- The lexemes in the buffer in front of a place. -/
def Reader.lexemesTo (r : Reader) (i : Nat) : List Lexeme :=
  (r.buffer.take i).filterMap Sighting.lexeme

/-- A state in which a reader of the stream may be. -/
structure Reader.Sound (rules : Rules) (s : TokenStream) (r : Reader) : Prop where
  /-- The buffer is the front of the stream. -/
  buffered : r.buffer <+: s.shown
  /-- The source is the rest of it, and nothing once the end was handed out. -/
  source : r.source = if r.buffer.length ≤ s.size then some (s.behind r.buffer.length) else none
  /-- The place is not behind the end, ... -/
  inside : r.pos ≤ s.size
  /-- ... and no token in front of it is missing. -/
  reached : r.pos ≤ r.buffer.length
  /-- The record is about a token of the buffer, unless none was asked for yet. -/
  recorded : r.furthest < r.buffer.length ∨ r.buffer = [] ∧ r.furthest = 0 ∧ r.expected = []
  /-- That token meets nothing of what was asked for there. -/
  unmet : ∀ x, r.buffer[r.furthest]? = some x → ∀ e ∈ r.expected,
    ¬ e.MetBy rules (r.lexemesTo r.furthest) x.lexeme

/-- What later states of a reader keep of earlier ones. -/
structure Reader.Evolves (r r' : Reader) : Prop where
  buffer : r.buffer <+: r'.buffer
  furthest : r.furthest ≤ r'.furthest
  expected : r.furthest = r'.furthest → r.expected <+: r'.expected

variable {rules : Rules} {s : TokenStream} {r r' r'' : Reader}

theorem Reader.Evolves.refl (r : Reader) : r.Evolves r :=
  ⟨List.prefix_rfl, Nat.le_refl _, fun _ => List.prefix_rfl⟩

theorem Reader.Evolves.trans (h : r.Evolves r') (h' : r'.Evolves r'') : r.Evolves r'' where
  buffer := h.buffer.trans h'.buffer
  furthest := Nat.le_trans h.furthest h'.furthest
  expected := fun heq => by
    have hle := h.furthest
    have hle' := h'.furthest
    exact (h.expected (by omega)).trans (h'.expected (by omega))

theorem Reader.sound_start (rules : Rules) (s : TokenStream) : (Reader.start s).Sound rules s where
  buffered := List.nil_prefix
  source := by simp [start]
  inside := Nat.zero_le _
  reached := Nat.zero_le _
  recorded := .inr ⟨rfl, rfl, rfl⟩
  unmet := fun x hx => absurd hx (by simp [start])

namespace Reader.Sound

/-- A token of the buffer is a token of the stream. -/
theorem shown_of_buffer (h : r.Sound rules s) {i : Nat} {x : Sighting}
    (hx : r.buffer[i]? = some x) : s.shown[i]? = some x := by
  obtain ⟨rest, hrest⟩ := h.buffered
  rw [← hrest]
  exact List.getElem?_append_left (List.getElem?_eq_some_iff.mp hx).1 ▸ hx

/-- The token that stands at a place of the stream may be put into the buffer there. -/
theorem buffered_append (h : r.Sound rules s) {x : Sighting}
    (hx : s.shown[r.buffer.length]? = some x) : r.buffer ++ [x] <+: s.shown := by
  have htake := List.prefix_iff_eq_take.mp h.buffered
  have hsucc := List.take_add_one (l := s.shown) (i := r.buffer.length)
  rw [hx, ← htake] at hsucc
  rw [show r.buffer ++ [x] = _ from hsucc.symm]
  exact List.take_prefix _ _

theorem source_eq_some (h : r.Sound rules s) {t : TokenStream} (ht : r.source = some t) :
    r.buffer.length ≤ s.size ∧ s.behind r.buffer.length = t := by
  have hsource := h.source
  split at hsource
  · next hle => exact ⟨hle, Option.some.inj (hsource.symm.trans ht)⟩
  · exact absurd (hsource.symm.trans ht) (by simp)

/-- In front of the end a lexeme stands at every place, so only the end itself is without one. -/
theorem lt_of_lexeme (h : r.Sound rules s) {x : Sighting} (hx : r.buffer[r.pos]? = some x)
    (hl : x.lexeme.isSome) : r.pos < s.size := by
  have hsight := TokenStream.shown_getElem? h.inside
  rw [h.shown_of_buffer hx] at hsight
  obtain ⟨t, rest, hs⟩ := TokenStream.exists_token_of_sight? hsight.symm hl
  have hsize := TokenStream.size_behind h.inside
  rw [hs, TokenStream.size] at hsize
  omega

/-- One more token in the buffer leaves the record as it is. -/
theorem unmet_append (h : r.Sound rules s) (y x : Sighting)
    (hx : (r.buffer ++ [y])[r.furthest]? = some x) : ∀ e ∈ r.expected,
      ¬ e.MetBy rules (((r.buffer ++ [y]).take r.furthest).filterMap Sighting.lexeme) x.lexeme := by
  rcases h.recorded with hlt | ⟨-, -, hnil⟩
  · rw [List.getElem?_append_left hlt] at hx
    rw [List.take_append_of_le_length (Nat.le_of_lt hlt)]
    exact h.unmet x hx
  · rw [hnil]
    exact fun e he => absurd he (by simp)

theorem recorded_append (h : r.Sound rules s) (y : Sighting) :
    r.furthest < (r.buffer ++ [y]).length := by
  rw [List.length_append, List.length_singleton]
  rcases h.recorded with hlt | ⟨hbuffer, hzero, -⟩
  · omega
  · rw [hzero]
    omega

/-- One more token that the stream hands out. -/
theorem grow (h : r.Sound rules s) {x : Sighting} {source : Option TokenStream}
    (hx : s.shown[r.buffer.length]? = some x)
    (hsource : source =
      if r.buffer.length + 1 ≤ s.size then some (s.behind (r.buffer.length + 1)) else none) :
    { r with source := source, buffer := r.buffer ++ [x] }.Sound rules s where
  buffered := h.buffered_append hx
  source := by rw [hsource, List.length_append, List.length_singleton]
  inside := h.inside
  reached := Nat.le_trans h.reached (by simp)
  recorded := .inl (h.recorded_append x)
  unmet := h.unmet_append x

/-- Another place. -/
theorem goTo (h : r.Sound rules s) {i : Nat} (hi : i ≤ s.size) (hbuffer : i ≤ r.buffer.length) :
    { r with pos := i }.Sound rules s where
  buffered := h.buffered
  source := h.source
  inside := hi
  reached := hbuffer
  recorded := h.recorded
  unmet := h.unmet

/-- Another record, of a place that is in the buffer. -/
theorem record (h : r.Sound rules s) {i : Nat} {x : Sighting} {expected : List Expectation}
    (hx : r.buffer[i]? = some x)
    (hunmet : ∀ e ∈ expected, ¬ e.MetBy rules (r.lexemesTo i) x.lexeme) :
    { r with furthest := i, expected := expected }.Sound rules s where
  buffered := h.buffered
  source := h.source
  inside := h.inside
  reached := h.reached
  recorded := .inl (List.getElem?_eq_some_iff.mp hx).1
  unmet := fun y hy => by
    obtain rfl := Option.some.inj (hx.symm.trans hy)
    exact hunmet

end Reader.Sound

/-! ## 3. Moves -/

/-- One change of the state. -/
inductive Move (rules : Rules) : Reader → Reader → Prop
  /-- The stream hands out a token. -/
  | token {r : Reader} {t : Token} {rest : TokenStream} (h : r.source = some (.token t rest)) :
    Move rules r { r with source := some rest, buffer := r.buffer ++ [⟨some t.lexeme, t.pos⟩] }
  /-- The stream hands out its end, and is spent. -/
  | last {r : Reader} {p : Position} (h : r.source = some (.done p)) :
    Move rules r { r with source := none, buffer := r.buffer ++ [⟨none, p⟩] }
  /-- A token of the buffer is read. -/
  | advance {r : Reader} {x : Sighting} (h : r.buffer[r.pos]? = some x) (hl : x.lexeme.isSome) :
    Move rules r { r with pos := r.pos + 1 }
  /-- The reader goes back. -/
  | back {r : Reader} {i : Nat} (h : i ≤ r.pos) : Move rules r { r with pos := i }
  /-- Something is asked for in vain, further on than ever. -/
  | outdo {r : Reader} {x : Sighting} {expected : List Expectation} (h : r.furthest < r.pos)
    (hx : r.buffer[r.pos]? = some x)
    (hunmet : ∀ e ∈ expected, ¬ e.MetBy rules (r.lexemesTo r.pos) x.lexeme) :
    Move rules r { r with furthest := r.pos, expected := expected }
  /-- Something else is asked for in vain at the place of the record. -/
  | join {r : Reader} {x : Sighting} {expected : List Expectation} (h : r.pos = r.furthest)
    (hx : r.buffer[r.pos]? = some x)
    (hunmet : ∀ e ∈ expected, ¬ e.MetBy rules (r.lexemesTo r.pos) x.lexeme) :
    Move rules r { r with expected := r.expected ++ expected }

/-- **A move keeps the state sound.** -/
theorem Move.sound (h : Move rules r r') (hr : r.Sound rules s) : r'.Sound rules s := by
  cases h with
  | @token t rest hsource =>
    obtain ⟨hle, hbehind⟩ := hr.source_eq_some hsource
    have hsize := TokenStream.size_behind hle
    rw [hbehind, TokenStream.size] at hsize
    refine hr.grow ((TokenStream.shown_getElem? hle).trans (by rw [hbehind]; rfl)) ?_
    rw [if_pos (by omega), TokenStream.behind_succ hle hbehind]
  | @last p hsource =>
    obtain ⟨hle, hbehind⟩ := hr.source_eq_some hsource
    have hsize := TokenStream.size_behind hle
    rw [hbehind, TokenStream.size] at hsize
    refine hr.grow ((TokenStream.shown_getElem? hle).trans (by rw [hbehind]; rfl)) ?_
    rw [if_neg (by omega)]
  | advance hx hl => exact hr.goTo (hr.lt_of_lexeme hx hl) (List.getElem?_eq_some_iff.mp hx).1
  | back hle => exact hr.goTo (Nat.le_trans hle hr.inside) (Nat.le_trans hle hr.reached)
  | outdo hlt hx hunmet => exact hr.record hx hunmet
  | @join x expected heq hx hunmet =>
    rw [heq] at hx hunmet
    refine hr.record hx fun e he => ?_
    rcases List.mem_append.mp he with he | he
    · exact hr.unmet x hx e he
    · exact hunmet e he

theorem Reader.evolves_goTo (r : Reader) (i : Nat) : r.Evolves { r with pos := i } :=
  ⟨List.prefix_rfl, Nat.le_refl _, fun _ => List.prefix_rfl⟩

/-- **A move forgets nothing.** -/
theorem Move.evolves (h : Move rules r r') : r.Evolves r' := by
  cases h with
  | token hsource => exact ⟨List.prefix_append _ _, Nat.le_refl _, fun _ => List.prefix_rfl⟩
  | last hsource => exact ⟨List.prefix_append _ _, Nat.le_refl _, fun _ => List.prefix_rfl⟩
  | advance hx hl => exact r.evolves_goTo _
  | back hle => exact r.evolves_goTo _
  | outdo hlt hx hunmet =>
    exact ⟨List.prefix_rfl, Nat.le_of_lt hlt, fun heq => absurd heq (Nat.ne_of_lt hlt)⟩
  | join heq hx hunmet => exact ⟨List.prefix_rfl, Nat.le_refl _, fun _ => List.prefix_append _ _⟩

/-! ## 4. Runs -/

/-- A run goes on, by moves and by alternatives that are given up. -/
inductive Leads (rules : Rules) : Run → Run → Prop
  | refl (h : Run) : Leads rules h h
  | move {h h' : Run} {r : Reader} (k : Leads rules h h') (m : Move rules h'.now r) :
    Leads rules h (h'.push r)
  | giveUp {h h' h'' : Run} (k : Leads rules h h') (k' : Leads rules h' h'') :
    Leads rules h (h''.giveUp h'.now)

theorem Leads.trans {h h' h'' : Run} (k : Leads rules h h') (k' : Leads rules h' h'') :
    Leads rules h h'' := by
  induction k' with
  | refl => exact k
  | move _ m ih => exact (ih k).move m
  | giveUp _ on ih _ => exact (ih k).giveUp on

theorem Leads.evolves {h h' : Run} (k : Leads rules h h') : h.now.Evolves h'.now := by
  induction k with
  | refl => exact .refl _
  | move _ m ih => exact ih.trans m.evolves
  | giveUp _ _ ih ih' =>
    obtain ⟨hbuffer, hfurthest, hexpected⟩ := ih.trans ih'
    exact ⟨hbuffer, hfurthest, hexpected⟩

/-- What an alternative that is given up changes: the reader is where it was before, and the buffer
and the record have grown. -/
structure Restored (before behind : Reader) : Prop where
  pos : behind.pos = before.pos
  evolves : before.Evolves behind

/-- A run all of whose states are sound, in which the buffer and the record only grow, and in which
alternatives that are given up leave the reader where it was. -/
structure Run.Safe (rules : Rules) (s : TokenStream) (h : Run) : Prop where
  sound : ∀ r ∈ h.states, r.Sound rules s
  evolves : h.states.IsChain fun later earlier => earlier.Evolves later
  restored : ∀ a ∈ h.givenUp, Restored a.1 a.2 ∧ a.1 ∈ h.states ∧ a.2 ∈ h.states

theorem Run.safe_start (rules : Rules) (s : TokenStream) : (Run.start s).Safe rules s where
  sound := fun r hr => by
    obtain rfl := List.mem_singleton.mp hr
    exact Reader.sound_start rules s
  evolves := .singleton _
  restored := fun a ha => absurd ha (by simp [start])

theorem Run.Safe.now {h : Run} (k : h.Safe rules s) : h.now.Sound rules s :=
  k.sound _ List.mem_cons_self

/-- One more state. -/
theorem Run.Safe.push {h : Run} {r : Reader} (k : h.Safe rules s) (hr : r.Sound rules s)
    (he : h.now.Evolves r) : (h.push r).Safe rules s where
  sound := List.forall_mem_cons.mpr ⟨hr, k.sound⟩
  evolves := List.isChain_cons_cons.mpr ⟨he, k.evolves⟩
  restored := fun a ha => by
    obtain ⟨hrestored, hbefore, hbehind⟩ := k.restored a ha
    exact ⟨hrestored, List.mem_cons_of_mem _ hbefore, List.mem_cons_of_mem _ hbehind⟩

/-- All states that a run goes on from stay in it. -/
theorem Leads.states_suffix {h h' : Run} (k : Leads rules h h') : h.states <:+ h'.states := by
  induction k with
  | refl => exact List.suffix_rfl
  | move _ _ ih => exact ih.trans (List.suffix_cons _ _)
  | giveUp _ _ ih ih' => exact (ih.trans ih').trans (List.suffix_cons _ _)

/-- **A safe run stays safe.** -/
theorem Leads.safe {h h' : Run} (k : Leads rules h h') (hs : h.Safe rules s) :
    h'.Safe rules s := by
  induction k with
  | refl => exact hs
  | move _ m ih =>
    have hsafe := ih hs
    exact hsafe.push (m.sound hsafe.now) m.evolves
  | @giveUp h h' h'' _ on ih ih' =>
    have hbefore := ih hs
    have hafter := ih' hbefore
    have he := on.evolves
    have hback : { h''.now with pos := h'.now.pos }.Sound rules s :=
      hafter.now.goTo hbefore.now.inside (Nat.le_trans hbefore.now.reached he.buffer.length_le)
    have hpush := hafter.push hback (h''.now.evolves_goTo _)
    refine ⟨hpush.sound, hpush.evolves, List.forall_mem_cons.mpr ⟨⟨⟨rfl, ?_⟩, ?_, ?_⟩, ?_⟩⟩
    · exact ⟨he.buffer, he.furthest, he.expected⟩
    · exact List.mem_cons_of_mem _ (on.states_suffix.subset List.mem_cons_self)
    · exact List.mem_cons_self
    · exact hpush.restored

end Buffered
end SchemaLang
