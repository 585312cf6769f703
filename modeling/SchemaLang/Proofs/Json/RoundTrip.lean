/-
# Written values are read

The reader keeps the containers that are open and the writer calls itself for what is inside of
them, so the two meet at one place only: where a value is due and the text of a value is ahead, the
reader comes to stand behind that value, with the same containers open (`run_written`).  What is
behind the value must not go on with it, and as only a number can be gone on with, a comma, a
closing bracket or the end of the text will do (`EndsValue`).

Two things are not kept by the text of a value, and `Regular` excludes them.  A floating-point
number is read again from its shortest text, which is another matter; and of two members with one
key the reader keeps the last.  An integer must be short, or the reader refuses it.
-/
import SchemaLang.Proofs.Json.Pieces

namespace SchemaLang.Json

open Text

/-! ## 1. Values that have a faithful text -/

mutual

/-- No floating-point number is in a value, and no key comes up twice in one object. -/
def Regular : Json → Prop
  | null => True
  | bool _ => True
  | int _ => True
  | float _ => False
  | string _ => True
  | array items => AllRegular items
  | object members => (members.map Prod.fst).Nodup ∧ MembersRegular members
termination_by structural j => j

def AllRegular : List Json → Prop
  | [] => True
  | v :: vs => Regular v ∧ AllRegular vs
termination_by structural js => js

def MembersRegular : List (String × Json) → Prop
  | [] => True
  | (_, v) :: ms => Regular v ∧ MembersRegular ms
termination_by structural ms => ms

end

/-- What may stand behind a value. -/
def EndsValue (rest : List Char) : Prop := ∀ c ∈ rest.head?, c = ',' ∨ c = ']' ∨ c = '\x7d'

theorem endsValue_nil : EndsValue [] := by simp [EndsValue]

theorem endsValue_cons {c : Char} {rest : List Char} (h : c = ',' ∨ c = ']' ∨ c = '\x7d') :
    EndsValue (c :: rest) := by
  intro d hd
  rwa [← Option.some.inj hd]

/-- Nothing that may stand behind a value goes on with a number. -/
theorem EndsValue.endsNumber {rest : List Char} (h : EndsValue rest) : EndsNumber rest := by
  intro c hc
  rcases h c hc with rfl | rfl | rfl <;> decide

/-! ## 2. Single steps -/

theorem run_step {state state' : State} {c : Char} {cs rest : List Char}
    (hc : isJsonBlank c = false) (h : step state c cs = .ok (state', rest)) :
    run state (c :: cs) = run state' rest := by
  rw [run, if_neg (by simp [hc])]
  split
  · next e he => exact absurd (he.symm.trans h) (by simp)
  · next s r hok =>
    obtain ⟨rfl, rfl⟩ := Prod.mk.inj (Except.ok.inj (hok.symm.trans h))
    rfl

/-- States that step alike run alike. -/
theorem run_congr {state state' : State} {c : Char} {cs : List Char}
    (hc : isJsonBlank c = false) (h : step state c cs = step state' c cs) :
    run state (c :: cs) = run state' (c :: cs) := by
  rw [run, run, if_neg (by simp [hc]), if_neg (by simp [hc]), h]

theorem step_string (frames : List Frame) (s : String) (rest : List Char) :
    step (.value frames) '"' (s.toList.flatMap writtenChar ++ '"' :: rest) =
      .ok (.behind frames (.string s), rest) := by
  have h : StartsValue frames _ _ rest := .string (takeString_written _ s.toList rest)
  rw [String.ofList_toList] at h
  exact startValue_eq_ok_iff.mpr h

theorem step_key (frames : List Frame) (members : List (String × Json)) (key : String)
    (rest : List Char) :
    step (.key frames members) '"' (key.toList.flatMap writtenChar ++ '"' :: rest) =
      .ok (.colon frames members key, rest) := by
  exact startKey_eq_ok_iff.mpr
    ⟨rfl, key.toList, takeString_written _ _ rest, by rw [String.ofList_toList]⟩

/-- A value that has a name. -/
theorem step_word {frames : List Frame} {v : Json} {c : Char} {cs rest : List Char}
    (hc : c ≠ '"' ∧ c ≠ '\x7b' ∧ c ≠ '[') (h : takeWord (c :: cs) = some (v, rest)) :
    step (.value frames) c cs = .ok (.behind frames v, rest) :=
  startValue_eq_ok_iff.mpr (.word hc h)

/-! ## 3. Integers -/

/-- The digits of a number are taken whole. -/
theorem takeWhole_toDigits (n : Nat) {rest : List Char} (hrest : EndsValue rest) :
    takeWhole (Nat.toDigits 10 n ++ rest) = some (Nat.toDigits 10 n, rest) := by
  rcases Nat.eq_zero_or_pos n with rfl | hn
  · rfl
  · obtain ⟨c, cs, hcs⟩ := List.exists_cons_of_ne_nil (Nat.toDigits_ne_nil (n := n) (b := 10))
    have hzero := head?_toDigits_ne hn
    have hdigits : ∀ d ∈ Nat.toDigits 10 n, d.isDigit := fun d => isDigit_of_mem_toDigits
    rw [hcs] at hzero hdigits
    have hstop : ∀ d ∈ rest.head?, d.isDigit = false := by
      intro d hd
      rcases hrest d hd with rfl | rfl | rfl <;> decide
    obtain ⟨htake, hdrop⟩ :=
      takeWhile_run (fun d hd => hdigits d (List.mem_cons_of_mem _ hd)) hstop
    rw [hcs, List.cons_append, takeWhole, if_neg (by simpa using hzero),
      if_pos (hdigits c List.mem_cons_self), htake, hdrop]

/-- The number that a sign and digits are. -/
theorem takeNumber_of_takeMinus {cs rest : List Char} {negative : Bool} {n : Nat}
    (hsign : takeMinus cs = (negative, Nat.toDigits 10 n ++ rest)) (hrest : EndsValue rest) :
    takeNumber cs = some (⟨negative, Nat.toDigits 10 n, [], false, []⟩, rest) := by
  simp only [takeNumber, hsign, takeWhole_toDigits n hrest, takeFraction_none fun c hc => ⟨(hrest.endsNumber c hc).1, (hrest.endsNumber c hc).2.1⟩,
    takeExponent_none hrest.endsNumber]

/-- A short number is read. -/
theorem value_toDigits {negative : Bool} {n : Nat} (hn : n < tenTo maxDigits) :
    (NumberText.mk negative (Nat.toDigits 10 n) [] false []).value =
      .ok (.int (if negative then -(n : Int) else n)) := by
  have hlength := (length_toDigits_le_iff (by decide)).mpr hn
  simp only [NumberText.value, readNumeral_of_length_le hlength, digitsValue_toDigits]
  rfl

/-- **An integer is read as it was written**, if it is short. -/
theorem exists_step_int (frames : List Frame) {n : Int} (hn : isShortInt n)
    {rest : List Char} (hrest : EndsValue rest) :
    ∃ c cs, writtenInt n = c :: cs ∧
      step (.value frames) c (cs ++ rest) = .ok (.behind frames (.int n), rest) := by
  have hshort : n.natAbs < tenTo maxDigits := of_decide_eq_true hn
  have hstart : ∀ {c : Char} {cs : List Char} {t : NumberText} {v : Json},
      c.isDigit ∨ c = '-' → takeWord (c :: cs) = none →
      takeNumber (c :: cs) = some (t, rest) → t.value = .ok v →
      step (.value frames) c cs = .ok (.behind frames v, rest) := by
    intro c cs t v hc hword hnumber hvalue
    have hne : c ≠ '"' ∧ c ≠ '\x7b' ∧ c ≠ '[' := by
      rcases hc with hc | rfl
      · refine ⟨?_, ?_, ?_⟩ <;> rintro rfl <;> exact absurd hc (by decide)
      · decide
    exact startValue_eq_ok_iff.mpr (.number hne hword hnumber hvalue)
  cases n with
  | ofNat n =>
    obtain ⟨c, cs, hcs⟩ := List.exists_cons_of_ne_nil (Nat.toDigits_ne_nil (n := n) (b := 10))
    have hc : c.isDigit := isDigit_of_mem_toDigits (n := n) (by rw [hcs]; exact List.mem_cons_self)
    refine ⟨c, cs, hcs, ?_⟩
    have hsign : takeMinus (c :: (cs ++ rest)) = (false, Nat.toDigits 10 n ++ rest) := by
      rw [hcs]
      unfold takeMinus
      split
      · next hminus =>
        obtain ⟨rfl, -⟩ := List.cons.inj hminus
        exact absurd hc (by decide)
      · rfl
    exact hstart (.inl hc) (takeWord_digit hc _).1 (takeNumber_of_takeMinus hsign hrest)
      (value_toDigits hshort)
  | negSucc n =>
    obtain ⟨c, cs, hcs⟩ :=
      List.exists_cons_of_ne_nil (Nat.toDigits_ne_nil (n := n + 1) (b := 10))
    have hc : c.isDigit :=
      isDigit_of_mem_toDigits (n := n + 1) (by rw [hcs]; exact List.mem_cons_self)
    refine ⟨'-', Nat.toDigits 10 (n + 1), rfl, ?_⟩
    refine hstart (.inr rfl) ?_ (takeNumber_of_takeMinus rfl hrest) (value_toDigits hshort)
    rw [hcs]
    exact (takeWord_digit hc _).2

/-! ## 4. Members -/

/-- A new key goes behind the others. -/
theorem insert_of_notMem {key : String} {ms : List (String × Json)}
    (h : key ∉ ms.map Prod.fst) (v : Json) : insert key v ms = ms ++ [(key, v)] := by
  induction ms with
  | nil => rfl
  | cons m ms ih =>
    rw [List.map_cons, List.mem_cons, not_or] at h
    rw [insert_cons, if_neg (Ne.symm h.1), ih h.2]
    rfl

/-! ## 5. Values -/

/-- The text of a value starts with something else than a blank, a closing bracket or a byte order
mark. -/
theorem exists_head_written {v : Json} (hv : v.Regular) :
    ∃ c cs, v.writtenChars = c :: cs ∧ isJsonBlank c = false ∧ c ≠ ']' ∧ c ≠ '\uFEFF' := by
  cases v with
  | null => exact ⟨'n', _, rfl, by decide, by decide, by decide⟩
  | bool b =>
    cases b with
    | true => exact ⟨'t', _, rfl, by decide, by decide, by decide⟩
    | false => exact ⟨'f', _, rfl, by decide, by decide, by decide⟩
  | int n =>
    have hhead : ∀ c : Char, c.isDigit → isJsonBlank c = false ∧ c ≠ ']' ∧ c ≠ '\uFEFF' := by
      intro c hc
      simp only [isJsonBlank, Bool.or_eq_false_iff, beq_eq_false_iff_ne]
      refine ⟨⟨⟨⟨?_, ?_⟩, ?_⟩, ?_⟩, ?_, ?_⟩ <;> rintro rfl <;> exact absurd hc (by decide)
    cases n with
    | ofNat n =>
      obtain ⟨c, cs, hcs⟩ := List.exists_cons_of_ne_nil (Nat.toDigits_ne_nil (n := n) (b := 10))
      exact ⟨c, cs, hcs, hhead c (isDigit_of_mem_toDigits (n := n) (by simp [hcs]))⟩
    | negSucc n => exact ⟨'-', _, rfl, by decide, by decide, by decide⟩
  | float x => exact hv.elim
  | string s => exact ⟨'"', _, rfl, by decide, by decide, by decide⟩
  | array items => exact ⟨'[', _, rfl, by decide, by decide, by decide⟩
  | object members => exact ⟨'\x7b', _, rfl, by decide, by decide, by decide⟩

theorem writtenItems_cons_cons (v w : Json) (ws : List Json) :
    writtenItems (v :: w :: ws) = writtenChars v ++ ',' :: writtenItems (w :: ws) := rfl

theorem writtenMembers_cons_cons (key : String) (v : Json) (m : String × Json)
    (ms : List (String × Json)) : writtenMembers ((key, v) :: m :: ms) =
      writtenString key ++ ':' :: writtenChars v ++ ',' :: writtenMembers (m :: ms) := rfl

/-- The text of some items starts with that of the first. -/
theorem exists_writtenItems (v : Json) (vs : List Json) :
    ∃ cs, writtenItems (v :: vs) = v.writtenChars ++ cs := by
  cases vs with
  | nil => exact ⟨[], (List.append_nil _).symm⟩
  | cons w ws => exact ⟨_, writtenItems_cons_cons v w ws⟩

/-- The text of some members starts with the first key. -/
theorem exists_writtenMembers (m : String × Json) (ms : List (String × Json)) :
    ∃ cs, writtenMembers (m :: ms) = writtenString m.1 ++ cs := by
  cases ms with
  | nil => exact ⟨_, rfl⟩
  | cons n ns => exact ⟨_, by rw [writtenMembers_cons_cons, List.append_assoc]⟩

/-- A value that comes first in an array. -/
theorem run_items_first {frames : List Frame} {v : Json} (hv : v.Regular) (cs : List Char) :
    run (.items frames) (v.writtenChars ++ cs) =
      run (.value (.array [] :: frames)) (v.writtenChars ++ cs) := by
  obtain ⟨c, ds, hcs, hblank, hbracket, -⟩ := exists_head_written hv
  rw [hcs, List.cons_append]
  exact run_congr hblank (by simp [step, hbracket])

/-- A key that comes first in an object. -/
theorem run_members_first (frames : List Frame) (key : String) (cs : List Char) :
    run (.members frames) (writtenString key ++ cs) =
      run (.key frames []) (writtenString key ++ cs) :=
  run_congr (by decide) rfl

/-- A key and the colon behind it. -/
theorem run_key (frames : List Frame) (members : List (String × Json)) (key : String)
    (rest : List Char) :
    run (.key frames members) (writtenString key ++ ':' :: rest) =
      run (.value (.object members key :: frames)) rest := by
  have hkey : writtenString key ++ ':' :: rest =
      '"' :: (key.toList.flatMap writtenChar ++ '"' :: ':' :: rest) := by
    simp [writtenString]
  have hcolon : step (.colon frames members key) ':' rest =
      .ok (.value (.object members key :: frames), rest) := rfl
  rw [hkey, run_step (by decide) (step_key frames members key _),
    run_step (by decide) hcolon]

mutual

/-- **A value is read as it was written**, with whatever containers open and whatever behind it. -/
theorem run_written (v : Json) (hv : v.Regular) (hshort : v.isShort) (frames : List Frame)
    {rest : List Char} (hrest : EndsValue rest) :
    run (.value frames) (v.writtenChars ++ rest) = run (.behind frames v) rest := by
  cases v with
  | null => exact run_step (by decide) (step_word (by decide) rfl)
  | bool b =>
    cases b with
    | true => exact run_step (by decide) (step_word (by decide) rfl)
    | false => exact run_step (by decide) (step_word (by decide) rfl)
  | int n =>
    obtain ⟨c, cs, hcs, hstep⟩ := exists_step_int frames hshort hrest
    obtain ⟨d, ds, hds, hblank, -⟩ := exists_head_written (v := .int n) trivial
    obtain ⟨rfl, -⟩ := List.cons.inj (hds.symm.trans hcs)
    rw [writtenChars, hcs, List.cons_append, run_step hblank hstep]
  | float x => exact hv.elim
  | string s =>
    have htext : writtenString s ++ rest =
        '"' :: (s.toList.flatMap writtenChar ++ '"' :: rest) := by
      simp [writtenString]
    rw [writtenChars, htext, run_step (by decide) (step_string frames s rest)]
  | array items =>
    have htext : (array items).writtenChars ++ rest =
        '[' :: (writtenItems items ++ ']' :: rest) := by
      simp [writtenChars]
    have hopen : ∀ cs, step (.value frames) '[' cs = .ok (.items frames, cs) := fun _ => rfl
    rw [htext, run_step (by decide) (hopen _)]
    cases items with
    | nil =>
      have hclose : step (.items frames) ']' rest = .ok (.behind frames (.array []), rest) := rfl
      exact run_step (by decide) hclose
    | cons w ws =>
      have hitems := run_items (w :: ws) (by simp) hv hshort frames [] rest
      obtain ⟨cs, hcs⟩ := exists_writtenItems w ws
      rw [hcs, List.append_assoc] at hitems ⊢
      rw [run_items_first hv.1]
      exact hitems
  | object members =>
    have htext : (object members).writtenChars ++ rest =
        '\x7b' :: (writtenMembers members ++ '\x7d' :: rest) := by
      simp [writtenChars]
    have hopen : ∀ cs, step (.value frames) '\x7b' cs = .ok (.members frames, cs) := fun _ => rfl
    rw [htext, run_step (by decide) (hopen _)]
    cases members with
    | nil =>
      have hclose : step (.members frames) '\x7d' rest =
          .ok (.behind frames (.object []), rest) := rfl
      exact run_step (by decide) hclose
    | cons m ms =>
      have hmembers := run_members (m :: ms) (by simp) hv.2 hshort frames [] hv.1 rest
      obtain ⟨cs, hcs⟩ := exists_writtenMembers m ms
      rw [hcs, List.append_assoc] at hmembers ⊢
      rw [run_members_first]
      exact hmembers

/-- Items are read one behind the other. -/
theorem run_items (vs : List Json) (hne : vs ≠ []) (hvs : AllRegular vs) (hshort : allShort vs)
    (frames : List Frame) (items : List Json) (rest : List Char) :
    run (.value (.array items :: frames)) (writtenItems vs ++ ']' :: rest) =
      run (.behind frames (.array (items.reverse ++ vs))) rest := by
  cases vs with
  | nil => exact absurd rfl hne
  | cons v vs =>
    rw [AllRegular] at hvs
    rw [allShort, Bool.and_eq_true] at hshort
    have hvalue := fun c rest hc => run_written v hvs.1 hshort.1 (.array items :: frames)
      (endsValue_cons hc : EndsValue (c :: rest))
    cases vs with
    | nil =>
      have hclose : step (.behind (.array items :: frames) v) ']' rest =
          .ok (.behind frames (.array (v :: items).reverse), rest) := rfl
      rw [writtenItems, hvalue _ _ (by decide), run_step (by decide) hclose, List.reverse_cons]
    | cons w ws =>
      have hcomma : ∀ cs, step (.behind (.array items :: frames) v) ',' cs =
          .ok (.value (.array (v :: items) :: frames), cs) := fun _ => rfl
      rw [writtenItems_cons_cons, List.append_assoc, List.cons_append, hvalue _ _ (by decide),
        run_step (by decide) (hcomma _), run_items (w :: ws) (by simp) hvs.2 hshort.2,
        List.reverse_cons, List.append_assoc, List.singleton_append]

/-- Members are read one behind the other. -/
theorem run_members (ms : List (String × Json)) (hne : ms ≠ []) (hms : MembersRegular ms)
    (hshort : membersShort ms) (frames : List Frame) (members : List (String × Json))
    (hkeys : ((members ++ ms).map Prod.fst).Nodup) (rest : List Char) :
    run (.key frames members) (writtenMembers ms ++ '\x7d' :: rest) =
      run (.behind frames (.object (members ++ ms))) rest := by
  cases ms with
  | nil => exact absurd rfl hne
  | cons m ms =>
    obtain ⟨key, v⟩ := m
    rw [MembersRegular] at hms
    rw [membersShort, Bool.and_eq_true] at hshort
    have hvalue := fun c rest hc => run_written v hms.1 hshort.1 (.object members key :: frames)
      (endsValue_cons hc : EndsValue (c :: rest))
    have hinsert : insert key v members = members ++ [(key, v)] := by
      refine insert_of_notMem (fun hmem => ?_) v
      rw [List.map_append, List.nodup_append] at hkeys
      exact hkeys.2.2 key hmem key List.mem_cons_self rfl
    cases ms with
    | nil =>
      have hclose : step (.behind (.object members key :: frames) v) '\x7d' rest =
          .ok (.behind frames (.object (insert key v members)), rest) := rfl
      rw [writtenMembers, List.append_assoc, List.cons_append, run_key,
        hvalue _ _ (by decide), run_step (by decide) hclose, hinsert]
    | cons n ns =>
      have hcomma : ∀ cs, step (.behind (.object members key :: frames) v) ',' cs =
          .ok (.key frames (insert key v members), cs) := fun _ => rfl
      rw [List.append_cons] at hkeys
      rw [writtenMembers_cons_cons, List.append_assoc, List.append_assoc, List.cons_append,
        List.cons_append, run_key, hvalue _ _ (by decide), run_step (by decide) (hcomma _),
        hinsert, run_members (n :: ns) (by simp) hms.2 hshort.2 _ _ hkeys, ← List.append_cons]

end

/-- **Reading undoes writing.** -/
theorem read_written {v : Json} (hv : v.Regular) (hshort : v.isShort) :
    read v.written = .ok v := by
  have hchars : (v.written).toList = v.writtenChars := String.toList_ofList
  have hrun := run_written v hv hshort [] endsValue_nil
  rw [List.append_nil, run] at hrun
  unfold read
  rw [hchars]
  split
  · next cs hmark =>
    obtain ⟨c, ds, hcs, -, -, hne⟩ := exists_head_written hv
    exact absurd (List.cons.inj (hcs.symm.trans hmark)).1 hne
  · exact hrun

end SchemaLang.Json
