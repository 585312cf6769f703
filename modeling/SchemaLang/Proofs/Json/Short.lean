/-
# What is read is short

The reader refuses a numeral of too many digits, so no integer that was read has too many to be
written again.  The invariant is on states: what is in the open containers is short, and so is the
value that was just completed (`State.IsShort`).
-/
import SchemaLang.Json.Read
import SchemaLang.Json.Written
import SchemaLang.Proofs.Text.Runs

namespace SchemaLang

open Text

/-- A run of digits that is short enough to be read denotes an integer that is short enough to be
written. -/
theorem isShortInt_of_readNumeral {ds : List Char} {n : Nat} (hds : ∀ c ∈ ds, c.isDigit)
    (h : readNumeral ds = .ok n) (negative : Bool) :
    Json.isShortInt (if negative then -(n : Int) else n) := by
  unfold readNumeral at h
  split at h
  · exact absurd h (by simp)
  · next hlen =>
    obtain rfl := Except.ok.inj h
    have hlt : digitsValue ds < tenTo maxDigits :=
      Nat.lt_of_lt_of_le (digitsValue_lt hds) (tenTo_le_tenTo (Nat.not_lt.mp hlen))
    refine decide_eq_true ?_
    cases negative <;> simpa using hlt

namespace Json

/-! ## 1. Items and members -/

theorem allShort_iff {vs : List Json} : allShort vs ↔ ∀ v ∈ vs, v.isShort := by
  induction vs with
  | nil => simp [allShort]
  | cons v vs ih => simp [allShort, ih]

/-- A value that is found among short members is short. -/
theorem isShort_of_find? {key : String} {v : Json} {ms : List (String × Json)}
    (hms : membersShort ms) (h : find? key ms = some v) : v.isShort := by
  induction ms with
  | nil => exact absurd h (by simp)
  | cons m ms ih =>
    obtain ⟨k, w⟩ := m
    rw [membersShort, Bool.and_eq_true] at hms
    rw [find?_cons] at h
    split at h
    · obtain rfl := Option.some.inj h
      exact hms.1
    · exact ih hms.2 h

theorem membersShort_insert {key : String} {v : Json} {ms : List (String × Json)}
    (hms : membersShort ms) (hv : v.isShort) : membersShort (insert key v ms) := by
  induction ms with
  | nil => simp [membersShort, hv]
  | cons m ms ih =>
    obtain ⟨k, w⟩ := m
    rw [membersShort, Bool.and_eq_true] at hms
    rw [insert_cons]
    split
    · simp [membersShort, hv, hms.2]
    · simp [membersShort, hms.1, ih hms.2]

/-! ## 2. Numbers and words -/

theorem isDigit_of_takeWhole {cs whole rest : List Char}
    (h : takeWhole cs = some (whole, rest)) : ∀ c ∈ whole, c.isDigit := by
  unfold takeWhole at h
  split at h
  · exact absurd h (by simp)
  split at h
  · obtain ⟨rfl, -⟩ := Prod.mk.inj (Option.some.inj h)
    simp
  split at h
  · next hc =>
    obtain ⟨rfl, -⟩ := Prod.mk.inj (Option.some.inj h)
    intro d hd
    rcases List.mem_cons.mp hd with rfl | hd
    · exact hc
    · exact List.all_eq_true.mp List.all_takeWhile d hd
  · exact absurd h (by simp)

theorem isDigit_of_takeNumber {cs rest : List Char} {t : NumberText}
    (h : takeNumber cs = some (t, rest)) : ∀ c ∈ t.whole, c.isDigit := by
  unfold takeNumber at h
  simp only at h
  split at h
  · exact absurd h (by simp)
  · next whole behind hwhole =>
    obtain ⟨rfl, -⟩ := Prod.mk.inj (Option.some.inj h)
    exact isDigit_of_takeWhole hwhole

theorem isShort_of_value {t : NumberText} {v : Json} (ht : ∀ c ∈ t.whole, c.isDigit)
    (h : t.value = .ok v) : v.isShort := by
  unfold NumberText.value at h
  split at h
  · cases hread : readNumeral t.whole with
    | error e => exact absurd h (by simp [hread, Except.map])
    | ok n =>
      rw [hread] at h
      obtain rfl := Except.ok.inj h
      exact isShortInt_of_readNumeral ht hread t.negative
  · obtain rfl := Except.ok.inj h
    rfl

theorem isShort_of_takeWord {cs rest : List Char} {v : Json}
    (h : takeWord cs = some (v, rest)) : v.isShort := by
  obtain ⟨⟨word, w⟩, hmem, hw⟩ := List.exists_of_findSome?_eq_some h
  obtain ⟨r, -, heq⟩ := Option.map_eq_some_iff.mp hw
  obtain ⟨rfl, -⟩ := Prod.mk.inj heq
  have hall : ∀ p ∈ words, p.2.isShort := by simp [words, isShort]
  exact hall _ hmem

/-! ## 3. States -/

/-- No integer in an open container is too long to be written. -/
def Frame.IsShort : Frame → Prop
  | array items => allShort items
  | object members _ => membersShort members

/-- No integer that was read is too long to be written. -/
def State.IsShort : State → Prop
  | value frames => ∀ f ∈ frames, f.IsShort
  | items frames => ∀ f ∈ frames, f.IsShort
  | members frames => ∀ f ∈ frames, f.IsShort
  | key frames ms => (∀ f ∈ frames, f.IsShort) ∧ membersShort ms
  | colon frames ms _ => (∀ f ∈ frames, f.IsShort) ∧ membersShort ms
  | behind frames v => (∀ f ∈ frames, f.IsShort) ∧ v.isShort

theorem isShort_startValue {frames : List Frame} {state : State} {c : Char} {cs rest : List Char}
    (hframes : ∀ f ∈ frames, f.IsShort) (h : startValue frames c cs = .ok (state, rest)) :
    state.IsShort := by
  cases startValue_eq_ok_iff.mp h with
  | string hs => exact ⟨hframes, rfl⟩
  | object cs => exact hframes
  | array cs => exact hframes
  | word hc hword => exact ⟨hframes, isShort_of_takeWord hword⟩
  | number hc hword hnumber hvalue =>
    exact ⟨hframes, isShort_of_value (isDigit_of_takeNumber hnumber) hvalue⟩

theorem isShort_startKey {frames : List Frame} {members : List (String × Json)} {state : State}
    {c : Char} {cs rest : List Char} (hframes : ∀ f ∈ frames, f.IsShort)
    (hmembers : membersShort members) (h : startKey frames members c cs = .ok (state, rest)) :
    state.IsShort := by
  obtain ⟨rfl, s, -, rfl⟩ := startKey_eq_ok_iff.mp h
  exact ⟨hframes, hmembers⟩

/-- A character that is taken by itself adds no integer. -/
theorem Takes.isShort {state next : State} {c : Char} (h : Takes state c next)
    (hs : state.IsShort) : next.IsShort := by
  cases h with
  | emptyArray frames => exact ⟨hs, rfl⟩
  | emptyObject frames => exact ⟨hs, rfl⟩
  | colon frames members key => exact List.forall_mem_cons.mpr ⟨hs.2, hs.1⟩
  | nextItem frames items v =>
    obtain ⟨hitems, hframes⟩ := List.forall_mem_cons.mp hs.1
    have hall : allShort (v :: items) := by
      rw [allShort, hs.2]
      exact hitems
    exact List.forall_mem_cons.mpr ⟨hall, hframes⟩
  | arrayEnd frames items v =>
    obtain ⟨hitems, hframes⟩ := List.forall_mem_cons.mp hs.1
    refine ⟨hframes, allShort_iff.mpr fun w hw => ?_⟩
    rcases List.mem_cons.mp (List.mem_reverse.mp hw) with rfl | hmem
    · exact hs.2
    · exact allShort_iff.mp hitems w hmem
  | nextMember frames members key v =>
    obtain ⟨hmembers, hframes⟩ := List.forall_mem_cons.mp hs.1
    exact ⟨hframes, membersShort_insert hmembers hs.2⟩
  | objectEnd frames members key v =>
    obtain ⟨hmembers, hframes⟩ := List.forall_mem_cons.mp hs.1
    exact ⟨hframes, membersShort_insert hmembers hs.2⟩

/-- A step keeps what was read short. -/
theorem isShort_step {state state' : State} {c : Char} {cs rest : List Char}
    (hs : state.IsShort) (h : step state c cs = .ok (state', rest)) : state'.IsShort := by
  have hturn := turn_step state c
  generalize step state c = turn at hturn h
  cases hturn with
  | value frames => exact isShort_startValue hs h
  | item frames =>
    have hempty : (Frame.array []).IsShort := rfl
    exact isShort_startValue (List.forall_mem_cons.mpr ⟨hempty, hs⟩) h
  | firstKey frames => exact isShort_startKey hs rfl h
  | key frames members => exact isShort_startKey hs.1 hs.2 h
  | taken htakes =>
    obtain ⟨rfl, -⟩ := Prod.mk.inj (Except.ok.inj h)
    exact htakes.isShort hs
  | noColon frames members key => exact absurd h (by simp [fail])
  | noMark frames v c fault => exact absurd h (by simp [fail])

theorem isShort_run {state : State} {cs : List Char} {v : Json} (hs : state.IsShort)
    (h : run state cs = .ok v) : v.isShort := by
  fun_induction run state cs with
  | case1 state =>
    unfold finish at h
    split at h
    case h_1 =>
      obtain rfl := Except.ok.inj h
      exact hs.2
    all_goals exact absurd h (by simp [fail])
  | case2 state c cs hblank ih => exact ih hs h
  | case3 state c cs hblank e he => exact absurd h (by simp)
  | case4 state c cs hblank state' rest hstep ih => exact ih (isShort_step hs hstep) h

/-- **No integer that is read is too long to be written.** -/
theorem isShort_of_read {text : String} {v : Json} (h : read text = .ok v) : v.isShort := by
  have hstart : (State.value []).IsShort := fun f hf => absurd hf (by simp)
  unfold read at h
  split at h
  · exact absurd h (by simp [fail])
  · exact isShort_run hstart h

end Json
end SchemaLang
