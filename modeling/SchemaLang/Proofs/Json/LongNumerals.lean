/-
# Where a long numeral stops the reader

The reader refuses a whole number of too many digits where it waits for a value, and nowhere else:
in a string, in a key, behind a point or in an exponent any number of digits may stand.  A value is
due behind a text (`ValueDue`) where the reader waits for one when it has taken that text, whatever
comes then, so this is a property of the text in front of the numeral alone.

Two facts on steps are used.  A step takes a piece, and what is behind the piece may be exchanged
(`exists_of_step`); and what is behind a value must be a blank, a comma or a closing bracket, or the
text is refused there (`ends_of_step`), so a numeral never runs into the next piece.
-/
import SchemaLang.Proofs.Json.RoundTrip

namespace SchemaLang.Json

open Text

/-! ## 1. Where values are due -/

/-- The reader waits for a value. -/
def State.WantsValue : State → Prop
  | value _ => True
  | items _ => True
  | _ => False

/-- When the reader has taken this text, it waits for a value. -/
def ValueDue (before : List Char) : Prop :=
  ∃ state : State, state.WantsValue ∧
    ∀ behind, run (.value []) (before ++ behind) = run state behind

/-- A whole number of these digits stands in a text where a value is due. -/
def IntegerDue (text : String) (ds : List Char) : Prop :=
  ∃ before ahead t rest, text.toList = before ++ ahead ∧ ValueDue before ∧
    takeNumber ahead = some (t, rest) ∧ t.fraction = [] ∧ t.exponent = [] ∧ t.whole = ds

/-- The brackets that close these containers. -/
def closing : List Frame → List Char
  | [] => []
  | .array _ :: frames => ']' :: closing frames
  | .object _ _ :: frames => '\x7d' :: closing frames

theorem endsValue_closing (frames : List Frame) : EndsValue (closing frames) := by
  cases frames with
  | nil => exact endsValue_nil
  | cons frame frames => cases frame <;> exact endsValue_cons (by decide)

theorem exists_run_closing (frames : List Frame) (v : Json) :
    ∃ w, run (.behind frames v) (closing frames) = .ok w := by
  induction frames generalizing v with
  | nil => exact ⟨v, by rw [closing, run, finish]⟩
  | cons frame frames ih =>
    cases frame with
    | array items =>
      obtain ⟨w, hw⟩ := ih (.array (v :: items).reverse)
      exact ⟨w, by rw [closing, run_step (by decide) rfl, hw]⟩
    | object ms key =>
      obtain ⟨w, hw⟩ := ih (.object (insert key v ms))
      exact ⟨w, by rw [closing, run_step (by decide) rfl, hw]⟩

/-- **Where a value is due any value may stand**: closing the open containers makes it a text that
is read. -/
theorem ValueDue.exists_run {before : List Char} {v : Json} (h : ValueDue before)
    (hv : v.Regular) (hshort : v.isShort) :
    ∃ behind w, run (.value []) (before ++ (v.writtenChars ++ behind)) = .ok w := by
  obtain ⟨state, hwants, hrun⟩ := h
  cases state with
  | value frames =>
    obtain ⟨w, hw⟩ := exists_run_closing frames v
    refine ⟨closing frames, w, ?_⟩
    rw [hrun, run_written v hv hshort frames (endsValue_closing frames), hw]
  | items frames =>
    obtain ⟨w, hw⟩ := exists_run_closing (.array [] :: frames) v
    refine ⟨closing (.array [] :: frames), w, ?_⟩
    rw [hrun, run_items_first hv, run_written v hv hshort _ (endsValue_closing _), hw]
  | _ => exact hwants.elim

/-! ## 2. Steps that meet a long numeral -/

/-- Only the whole part of a number can be too long. -/
theorem value_eq_error_iff {t : NumberText} {e : LongNumeral} : t.value = .error e ↔
    t.fraction = [] ∧ t.exponent = [] ∧ maxDigits < t.whole.length ∧ e = ⟨t.whole.length⟩ := by
  unfold NumberText.value readNumeral
  split
  · next hinteger =>
    obtain ⟨hfraction, hexponent⟩ : t.fraction = [] ∧ t.exponent = [] := by simpa using hinteger
    by_cases hlong : maxDigits < t.whole.length
    · cases t.negative <;> simp [Except.map, hfraction, hexponent, hlong, eq_comm]
    · cases t.negative <;> simp [Except.map, hlong]
  · next hinteger =>
    have hfloat : ¬ (t.fraction = [] ∧ t.exponent = []) := by simpa using hinteger
    refine ⟨fun h => absurd h (by simp), fun h => absurd ⟨h.1, h.2.1⟩ hfloat⟩

/-- A number starts with a sign or a digit. -/
theorem ne_of_takeNumber {c d : Char} {cs rest : List Char} {t : NumberText}
    (h : takeNumber (c :: cs) = some (t, rest)) (hminus : d ≠ '-') (hdigit : d.isDigit = false) :
    c ≠ d := by
  rintro rfl
  have hzero : c ≠ '0' := by
    rintro rfl
    exact absurd hdigit (by decide)
  simp [takeNumber, takeMinus, takeWhole, hminus, hdigit, hzero] at h

/-- Where a value is due, a number is taken. -/
theorem startValue_of_takeNumber {frames : List Frame} {c : Char} {cs rest : List Char}
    {t : NumberText} {e : LongNumeral} (h : takeNumber (c :: cs) = some (t, rest))
    (hvalue : t.value = .error e) : startValue frames c cs = .error (.longNumeral e) := by
  have hquote := ne_of_takeNumber h (d := '"') (by decide) (by decide)
  have hbrace := ne_of_takeNumber h (d := '\x7b') (by decide) (by decide)
  have hbracket := ne_of_takeNumber h (d := '[') (by decide) (by decide)
  rw [startValue, if_neg (by simpa using hquote), if_neg (by simpa using hbrace),
    if_neg (by simpa using hbracket), takeWord_of_takeNumber h]
  simp only [h, hvalue]

theorem malformed_of_takeUnit {cs : List Char} {e : ReadError} (h : takeUnit cs = .error e) :
    ∃ f, e = .malformed f := by
  have hfail : ∀ {fault : Fault} {rest : List Char},
      (fail fault rest : Except ReadError (Char × List Char)) = .error e → ∃ f, e = .malformed f :=
    fun h => ⟨_, (Except.error.inj h).symm⟩
  unfold takeUnit at h
  split at h
  · split at h
    · exact hfail h
    · split at h
      · split at h
        · exact hfail h
        · split at h <;> exact absurd h (by simp)
      · exact absurd h (by simp)
  · exact hfail h

/-- What is wrong with a string is never a numeral. -/
theorem malformed_of_takeString {opening cs : List Char} {e : ReadError}
    (h : takeString opening cs = .error e) : ∃ f, e = .malformed f := by
  fun_induction takeString opening cs with
  | case1 => exact ⟨_, (Except.error.inj h).symm⟩
  | case2 c cs hc => exact absurd h (by simp)
  | case3 c cs hc e' hchar =>
    obtain rfl := Except.error.inj h
    unfold takeChar at hchar
    split at hchar
    · split at hchar
      · exact ⟨_, (Except.error.inj hchar).symm⟩
      · exact malformed_of_takeUnit hchar
      · split at hchar
        · exact absurd hchar (by simp)
        · exact ⟨_, (Except.error.inj hchar).symm⟩
    · split at hchar
      · exact ⟨_, (Except.error.inj hchar).symm⟩
      · exact absurd hchar (by simp)
  | case4 c cs hc d mid hchar ih =>
    cases hs : takeString opening mid with
    | ok r => exact absurd h (by simp [hs, Except.map])
    | error e' =>
      rw [hs] at h
      obtain rfl := Except.error.inj h
      exact ih hs

/-- No string meets a long numeral, whatever is made of it. -/
theorem takeString_bind_ne_longNumeral {opening cs : List Char} {f : List Char → State}
    {e : LongNumeral} :
    (do let (s, behind) ← takeString opening cs; return (f s, behind)) ≠
      .error (.longNumeral e) := by
  intro h
  cases hs : takeString opening cs with
  | ok r => exact absurd h (by simp [hs, bind, Except.bind, pure, Except.pure])
  | error e' =>
    obtain ⟨cause, rfl⟩ := malformed_of_takeString hs
    exact absurd h (by simp [hs, bind, Except.bind])

theorem exists_of_startValue_longNumeral {frames : List Frame} {c : Char} {cs : List Char}
    {e : LongNumeral} (h : startValue frames c cs = .error (.longNumeral e)) :
    ∃ t rest, takeNumber (c :: cs) = some (t, rest) ∧ t.value = .error e := by
  unfold startValue at h
  split at h
  · exact absurd h
      (takeString_bind_ne_longNumeral (f := fun s => .behind frames (.string (String.ofList s))))
  split at h
  · exact absurd h (by simp)
  split at h
  · exact absurd h (by simp)
  split at h
  · exact absurd h (by simp)
  split at h
  · exact absurd h (by simp [fail])
  · next t rest hnumber =>
    split at h
    · exact absurd h (by simp)
    · next e' hvalue =>
      obtain rfl : e' = e := by simpa using h
      exact ⟨t, rest, hnumber, hvalue⟩

theorem startKey_ne_longNumeral {frames : List Frame} {members : List (String × Json)} {c : Char}
    {cs : List Char} {e : LongNumeral} :
    startKey frames members c cs ≠ .error (.longNumeral e) := by
  intro h
  unfold startKey at h
  split at h
  · exact absurd h
      (takeString_bind_ne_longNumeral (f := fun s => .colon frames members (String.ofList s)))
  · exact absurd h (by simp [fail])

/-- **A step meets a long numeral exactly where a value is due** and the numeral comes next. -/
theorem step_eq_longNumeral_iff {state : State} {c : Char} {cs : List Char} {e : LongNumeral} :
    step state c cs = .error (.longNumeral e) ↔ state.WantsValue ∧
      ∃ t rest, takeNumber (c :: cs) = some (t, rest) ∧ t.value = .error e := by
  have hvalue : ∀ {frames : List Frame}, startValue frames c cs = .error (.longNumeral e) ↔
      ∃ t rest, takeNumber (c :: cs) = some (t, rest) ∧ t.value = .error e := by
    intro frames
    constructor
    · exact exists_of_startValue_longNumeral
    · rintro ⟨t, rest, hnumber, hlong⟩
      exact startValue_of_takeNumber hnumber hlong
  have hturn := turn_step state c
  generalize step state c = turn at hturn
  cases hturn with
  | value frames => simp only [hvalue, State.WantsValue, true_and]
  | item frames => simp only [hvalue, State.WantsValue, true_and]
  | firstKey frames => exact ⟨fun h => absurd h startKey_ne_longNumeral, fun h => h.1.elim⟩
  | key frames members => exact ⟨fun h => absurd h startKey_ne_longNumeral, fun h => h.1.elim⟩
  | taken htakes =>
    refine ⟨fun h => absurd h (by simp), fun ⟨hwants, t, rest, hnumber, _⟩ => ?_⟩
    cases htakes with
    | emptyArray frames => exact absurd hnumber (by simp [takeNumber, takeMinus, takeWhole])
    | _ => exact hwants.elim
  | noColon frames members key => exact ⟨fun h => absurd h (by simp [fail]), fun h => h.1.elim⟩
  | noMark frames v c fault => exact ⟨fun h => absurd h (by simp [fail]), fun h => h.1.elim⟩

/-! ## 3. The whole text -/

theorem ends_of_blank {c : Char} (hc : isJsonBlank c) (state : State) (cs : List Char) :
    state.Ends (c :: cs) := by
  cases state with
  | behind frames v =>
    intro d hd
    obtain rfl := Option.some.inj hd
    simp only [isJsonBlank, Bool.or_eq_true, beq_iff_eq] at hc
    rcases hc with ((rfl | rfl) | rfl) | rfl <;> decide
  | _ => trivial

/-- What is taken behind a value does not go on with a number. -/
theorem ends_of_step {state state' : State} {c : Char} {cs rest : List Char}
    (h : step state c cs = .ok (state', rest)) (cs' : List Char) : state.Ends (c :: cs') := by
  cases state with
  | behind frames v =>
    have hturn := turn_step (.behind frames v) c
    generalize step (.behind frames v) c = turn at hturn h
    cases hturn with
    | taken htakes =>
      have hends : EndsValue (c :: cs') := by
        cases htakes <;> exact endsValue_cons (by decide)
      exact hends.endsNumber
    | noMark frames v c fault => exact absurd h (by simp [fail])
  | _ => trivial

theorem run_blank {c : Char} (hc : isJsonBlank c) (state : State) (cs : List Char) :
    run state (c :: cs) = run state cs := by
  rw [run, if_pos hc]

theorem run_error {state : State} {c : Char} {cs : List Char} {e : ReadError}
    (hc : isJsonBlank c = false) (h : step state c cs = .error e) :
    run state (c :: cs) = .error e := by
  rw [run, if_neg (by simp [hc])]
  split
  · next e' he =>
    obtain rfl := Except.error.inj (he.symm.trans h)
    rfl
  · next s r hok => exact absurd (hok.symm.trans h) (by simp)

/-- **A long numeral that stops the reader stands where a value is due.**  What is in front of it
is taken whatever is behind, and it may stand behind a value. -/
theorem exists_due_of_run {state : State} {cs : List Char} {e : LongNumeral}
    (h : run state cs = .error (.longNumeral e)) :
    ∃ before ahead, cs = before ++ ahead ∧
      (∃ due : State, due.WantsValue ∧ ∀ behind, run state (before ++ behind) = run due behind) ∧
      (∀ behind, state.Ends (before ++ behind)) ∧
      ∃ t rest, takeNumber ahead = some (t, rest) ∧ t.value = .error e := by
  fun_induction run state cs with
  | case1 state =>
    unfold finish at h
    split at h <;> exact absurd h (by simp [fail])
  | case2 state c cs hblank ih =>
    obtain ⟨before, ahead, rfl, ⟨due, hwants, hdue⟩, -, hnumber⟩ := ih h
    refine ⟨c :: before, ahead, rfl, ⟨due, hwants, fun behind => ?_⟩,
      fun behind => ends_of_blank hblank state _, hnumber⟩
    rw [List.cons_append, run_blank hblank, hdue]
  | case3 state c cs hblank e' hstep =>
    obtain rfl := Except.error.inj h
    obtain ⟨hwants, hnumber⟩ := step_eq_longNumeral_iff.mp hstep
    refine ⟨[], c :: cs, rfl, ⟨state, hwants, fun _ => rfl⟩, fun behind => ?_, hnumber⟩
    cases state with
    | behind frames v => exact hwants.elim
    | _ => trivial
  | case4 state c cs hblank state' rest hstep ih =>
    obtain ⟨before, ahead, rfl, ⟨due, hwants, hdue⟩, hends, hnumber⟩ := ih h
    obtain ⟨piece, rfl, hpiece⟩ := exists_of_step hstep
    refine ⟨c :: (piece ++ before), ahead, by simp, ⟨due, hwants, fun behind => ?_⟩,
      fun behind => ends_of_step hstep _, hnumber⟩
    rw [List.cons_append, List.append_assoc,
      run_step (by simpa using hblank) (hpiece _ (hends behind)), hdue]

/-- **A text is refused for a long numeral exactly where one is due.** -/
theorem read_eq_longNumeral_iff {text : String} {n : Nat} :
    read text = .error (.longNumeral ⟨n⟩) ↔
      ∃ ds, IntegerDue text ds ∧ maxDigits < ds.length ∧ ds.length = n := by
  constructor
  · intro h
    unfold read at h
    split at h
    · exact absurd h (by simp [fail])
    · obtain ⟨before, ahead, htext, hdue, -, t, rest, hnumber, hvalue⟩ := exists_due_of_run h
      obtain ⟨hfraction, hexponent, hlong, he⟩ := value_eq_error_iff.mp hvalue
      exact ⟨t.whole, ⟨before, ahead, t, rest, htext, hdue, hnumber, hfraction, hexponent, rfl⟩,
        hlong, (LongNumeral.mk.inj he).symm⟩
  · rintro ⟨ds, ⟨before, ahead, t, rest, htext, ⟨due, hwants, hdue⟩, hnumber, hfraction, hexponent,
      rfl⟩, hlong, rfl⟩
    have hvalue : t.value = .error ⟨t.whole.length⟩ :=
      value_eq_error_iff.mpr ⟨hfraction, hexponent, hlong, rfl⟩
    have hrun : run (.value []) text.toList = .error (.longNumeral ⟨t.whole.length⟩) := by
      rw [htext, hdue]
      cases ahead with
      | nil => exact absurd hnumber (by simp [takeNumber, takeMinus, takeWhole])
      | cons c cs =>
        have hblank : isJsonBlank c = false := by
          have hne := fun d => ne_of_takeNumber hnumber (d := d)
          simp [isJsonBlank, hne ' ' (by decide) (by decide), hne '\t' (by decide) (by decide),
            hne '\n' (by decide) (by decide), hne '\r' (by decide) (by decide)]
        exact run_error hblank (step_eq_longNumeral_iff.mpr ⟨hwants, t, rest, hnumber, hvalue⟩)
    unfold read
    split
    · next cs hmark =>
      have hstep : step (.value []) '\uFEFF' cs = fail .noValue ('\uFEFF' :: cs) := by
        simp [step, startValue, takeWord, words, dropWord, takeNumber, takeMinus, takeWhole]
      rw [hmark, run_error (by decide) hstep] at hrun
      exact absurd hrun (by simp)
    · exact hrun

end SchemaLang.Json
