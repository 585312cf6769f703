/-
# Interchange values

The values that interchange texts are made of.  Whole numbers and numbers with a point or an
exponent are different things: the first are integers of any size, the second binary
floating-point numbers.  The members of an object keep the order in which their keys first came
up, and no key occurs twice (`insert`).
-/
import SchemaLang.Number.Binary64

namespace SchemaLang

/-- A value of the interchange format. -/
inductive Json
  | null
  | bool (b : Bool)
  | int (n : Int)
  | float (x : Binary64)
  | string (s : String)
  | array (items : List Json)
  | object (members : List (String × Json))
  deriving Repr

namespace Json

/-- The value of a key. -/
def find? (key : String) : List (String × Json) → Option Json
  | [] => none
  | (k, v) :: ms => if k = key then some v else find? key ms

/-- Gives a key a value.  A key that is there already keeps its place and changes its value. -/
def insert (key : String) (value : Json) : List (String × Json) → List (String × Json)
  | [] => [(key, value)]
  | (k, v) :: ms => if k = key then (k, value) :: ms else (k, v) :: insert key value ms

/-! ## Members and their keys -/

@[simp] theorem find?_nil (key : String) : find? key [] = none := rfl

theorem find?_cons (key : String) (m : String × Json) (ms : List (String × Json)) :
    find? key (m :: ms) = if m.1 = key then some m.2 else find? key ms := rfl

@[simp] theorem insert_nil (key : String) (value : Json) : insert key value [] = [(key, value)] :=
  rfl

theorem insert_cons (key : String) (value : Json) (m : String × Json)
    (ms : List (String × Json)) : insert key value (m :: ms) =
      if m.1 = key then (m.1, value) :: ms else m :: insert key value ms := rfl

theorem find?_insert_self (key : String) (value : Json) (ms : List (String × Json)) :
    find? key (insert key value ms) = some value := by
  induction ms with
  | nil => simp [find?_cons]
  | cons m ms ih =>
    rw [insert_cons]
    split
    · next h => simp [find?_cons, h]
    · next h => simp [find?_cons, h, ih]

theorem find?_insert_of_ne {key other : String} (h : other ≠ key) (value : Json)
    (ms : List (String × Json)) : find? other (insert key value ms) = find? other ms := by
  induction ms with
  | nil => simp [find?_cons, Ne.symm h]
  | cons m ms ih =>
    rw [insert_cons]
    split
    · next hk => simp [find?_cons, hk, Ne.symm h]
    · simp [find?_cons, ih]

/-- The keys after giving one a value are the keys before, and that one behind them if it is
new. -/
theorem keys_insert (key : String) (value : Json) (ms : List (String × Json)) :
    (insert key value ms).map Prod.fst =
      if key ∈ ms.map Prod.fst then ms.map Prod.fst else ms.map Prod.fst ++ [key] := by
  induction ms with
  | nil => rfl
  | cons m ms ih =>
    rw [insert_cons]
    split
    · next h => simp [h]
    · next h =>
      have h' : key ≠ m.1 := fun e => h e.symm
      by_cases hm : key ∈ ms.map Prod.fst
      · simp only [List.map_cons, ih, if_pos hm, List.mem_cons, h', false_or]
      · simp only [List.map_cons, ih, if_neg hm, List.mem_cons, h', false_or, List.cons_append]

theorem mem_keys_of_find? {key : String} {v : Json} {ms : List (String × Json)}
    (h : find? key ms = some v) : key ∈ ms.map Prod.fst := by
  induction ms with
  | nil => exact absurd h (by simp)
  | cons m ms ih =>
    rw [find?_cons] at h
    split at h
    · next hkey => simp [hkey]
    · exact List.mem_cons_of_mem _ (ih h)

theorem exists_find?_of_mem {key : String} {ms : List (String × Json)}
    (h : key ∈ ms.map Prod.fst) : ∃ v, find? key ms = some v := by
  induction ms with
  | nil => exact absurd h (by simp)
  | cons m ms ih =>
    by_cases hkey : m.1 = key
    · exact ⟨m.2, by simp [find?_cons, hkey]⟩
    · rcases List.mem_cons.mp h with heq | hmem
      · exact absurd heq.symm hkey
      · obtain ⟨v, hv⟩ := ih hmem
        exact ⟨v, by simpa [find?_cons, hkey] using hv⟩

/-- A value that is found is a part of the members. -/
theorem sizeOf_lt_of_find? {key : String} {v : Json} {ms : List (String × Json)}
    (h : find? key ms = some v) : sizeOf v < sizeOf ms := by
  induction ms with
  | nil => simp at h
  | cons m ms ih =>
    obtain ⟨k, w⟩ := m
    rw [find?_cons] at h
    split at h
    · obtain rfl := Option.some.inj h
      simp only [List.cons.sizeOf_spec, Prod.mk.sizeOf_spec]
      omega
    · have := ih h
      simp only [List.cons.sizeOf_spec]
      omega

end Json
end SchemaLang
