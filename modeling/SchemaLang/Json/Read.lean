/-
# Reading interchange texts

The reader walks over the text once, from the front, and keeps the containers that are open
(`State`).  At each character the state says what may come: a value, a key, a colon, a comma, the
end of a container.  Strings, numbers and words are taken whole; a number is the longest piece
that has the shape of one, and whatever is left of it is met as the next thing.

A text is refused at the first character that cannot continue it, and the report names the place
in three ways: by line and column, and by the number of characters in front of it.  A whole
number of too many digits is refused as soon as it has been taken.

What a step does is said once: a value is started (`startValue_eq_ok_iff`) or a key, a character is
taken by itself, or the text is refused (`turn_step`).  Every step takes at least one character
(`length_rest_le_of_step`), so the reader ends.
-/
import SchemaLang.Json
import SchemaLang.Text.Numeral

namespace SchemaLang.Json

open Text

/-! ## 1. Refusals -/

/-- What is wrong with a text. -/
inductive Fault
  | byteOrderMark
  | noValue
  | noPropertyName
  | noColon
  | noComma
  | extraData
  | unterminatedString
  | controlCharacter
  | badEscape
  | badUnicodeEscape
  deriving DecidableEq, Repr

/-- The wording of a fault. -/
def Fault.message : Fault → String
  | byteOrderMark => "Unexpected UTF-8 BOM (decode using utf-8-sig)"
  | noValue => "Expecting value"
  | noPropertyName => "Expecting property name enclosed in double quotes"
  | noColon => "Expecting ':' delimiter"
  | noComma => "Expecting ',' delimiter"
  | extraData => "Extra data"
  | unterminatedString => "Unterminated string starting at"
  | controlCharacter => "Invalid control character at"
  | badEscape => "Invalid \\escape"
  | badUnicodeEscape => "Invalid \\uXXXX escape"

/-- A fault, and how many characters there are from its place to the end of the text. -/
structure FaultAt where
  fault : Fault
  left : Nat
  deriving DecidableEq, Repr

/-- Why a text is not read. -/
inductive ReadError
  | malformed (e : FaultAt)
  | longNumeral (e : LongNumeral)
  deriving DecidableEq, Repr

/-- A fault in front of the given rest of the text. -/
def fail {α : Type} (fault : Fault) (rest : List Char) : Except ReadError α :=
  .error (.malformed ⟨fault, rest.length⟩)

/-! ## 2. Strings -/

/-- The value of a hexadecimal digit of either case. -/
def hexValue? (c : Char) : Option Nat :=
  if c.isDigit then some (c.toNat - '0'.toNat)
  else if 'a' ≤ c && c ≤ 'f' then some (c.toNat - 'a'.toNat + 10)
  else if 'A' ≤ c && c ≤ 'F' then some (c.toNat - 'A'.toNat + 10)
  else none

/-- The unit of sixteen bits that four hexadecimal digits denote. -/
def unit? (a b c d : Char) : Option Nat := do
  let a ← hexValue? a
  let b ← hexValue? b
  let c ← hexValue? c
  let d ← hexValue? d
  return ((a * 16 + b) * 16 + c) * 16 + d

/-- The first half of a surrogate pair. -/
def isHighSurrogate (n : Nat) : Bool := 0xD800 ≤ n && n < 0xDC00

/-- The second half of a surrogate pair. -/
def isLowSurrogate (n : Nat) : Bool := 0xDC00 ≤ n && n < 0xE000

/-- The character of a surrogate pair. -/
def joinSurrogates (high low : Nat) : Char :=
  Char.ofNat (0x10000 + (high - 0xD800) * 0x400 + (low - 0xDC00))

/-- The character of a single unit.  Half of a pair is no character, and is read as the
replacement character. -/
def charOfUnit (n : Nat) : Char :=
  if isHighSurrogate n || isLowSurrogate n then '\uFFFD' else Char.ofNat n

/-- The character that a letter stands for behind a backslash. -/
def escapedChar? : Char → Option Char
  | '"' => some '"'
  | '\\' => some '\\'
  | '/' => some '/'
  | 'b' => some '\x08'
  | 'f' => some '\x0c'
  | 'n' => some '\n'
  | 'r' => some '\r'
  | 't' => some '\t'
  | _ => none

/-- The character of a unit in hexadecimal, whose letter u was just taken, and the text behind
it.  The first half of a surrogate pair takes the second half along if that is what comes next.
The digits of a unit must not be the last thing in the text. -/
def takeUnit (cs : List Char) : Except ReadError (Char × List Char) :=
  match cs with
  | a :: b :: c :: d :: next :: rest =>
    match unit? a b c d with
    | none => fail .badUnicodeEscape ('u' :: cs)
    | some high =>
      match isHighSurrogate high, next :: rest with
      | true, '\\' :: 'u' :: a' :: b' :: c' :: d' :: next' :: rest' =>
        match unit? a' b' c' d' with
        | none => fail .badUnicodeEscape rest
        | some low =>
          if isLowSurrogate low then .ok (joinSurrogates high low, next' :: rest')
          else .ok (charOfUnit high, next :: rest)
      | _, _ => .ok (charOfUnit high, next :: rest)
  | _ => fail .badUnicodeEscape ('u' :: cs)

/-- The character that starts at `c :: cs` in a string, and the text behind it; `opening` is the
text from the opening quote on. -/
def takeChar (opening : List Char) (c : Char) (cs : List Char) :
    Except ReadError (Char × List Char) :=
  if c == '\\' then
    match cs with
    | [] => fail .unterminatedString opening
    | 'u' :: rest => takeUnit rest
    | letter :: rest =>
      match escapedChar? letter with
      | some d => .ok (d, rest)
      | none => fail .badEscape (c :: cs)
  else if c.toNat < 0x20 then fail .controlCharacter (c :: cs)
  else .ok (c, cs)

theorem length_rest_le_of_takeUnit {cs rest : List Char} {d : Char}
    (h : takeUnit cs = .ok (d, rest)) : rest.length ≤ cs.length := by
  unfold takeUnit at h
  split at h
  · split at h
    · simp [fail] at h
    · split at h
      · next hnext =>
        simp only [List.cons.injEq] at hnext
        obtain ⟨-, rfl⟩ := hnext
        split at h
        · simp [fail] at h
        · split at h
          · obtain ⟨-, rfl⟩ : _ ∧ _ := by simpa using h
            simp only [List.length_cons]
            omega
          · obtain ⟨-, rfl⟩ : _ ∧ _ := by simpa using h
            simp only [List.length_cons]
            omega
      · obtain ⟨-, rfl⟩ : _ ∧ _ := by simpa using h
        simp only [List.length_cons]
        omega
  · simp [fail] at h

theorem length_rest_le_of_takeChar {opening cs rest : List Char} {c d : Char}
    (h : takeChar opening c cs = .ok (d, rest)) : rest.length ≤ cs.length := by
  unfold takeChar at h
  split at h
  · split at h
    · simp [fail] at h
    · exact Nat.le_succ_of_le (length_rest_le_of_takeUnit h)
    · split at h
      · obtain ⟨-, rfl⟩ : _ ∧ _ := by simpa using h
        exact Nat.le_succ _
      · simp [fail] at h
  split at h
  · simp [fail] at h
  · obtain ⟨-, rfl⟩ : _ ∧ _ := by simpa using h
    exact Nat.le_refl _

/-- The characters of a string up to its closing quote, and the text behind it. -/
def takeString (opening : List Char) : List Char → Except ReadError (List Char × List Char)
  | [] => fail .unterminatedString opening
  | c :: cs =>
    if c == '"' then .ok ([], cs)
    else match _h : takeChar opening c cs with
    | .error e => .error e
    | .ok (d, rest) => (takeString opening rest).map fun (s, behind) => (d :: s, behind)
termination_by cs => cs.length
decreasing_by exact Nat.lt_succ_of_le (length_rest_le_of_takeChar _h)

/-! ## 3. Numbers and words -/

/-- The parts of a number as they were written. -/
structure NumberText where
  negative : Bool
  whole : List Char
  fraction : List Char
  /-- The sign and the digits of the exponent, no digits if there is none. -/
  exponentNegative : Bool
  exponent : List Char
  deriving DecidableEq, Repr

/-- The digits in front of the point: a zero, or a run that does not start with one. -/
def takeWhole : List Char → Option (List Char × List Char)
  | [] => none
  | c :: cs =>
    if c == '0' then some (['0'], cs)
    else if c.isDigit then some (c :: cs.takeWhile Char.isDigit, cs.dropWhile Char.isDigit)
    else none

/-- The digits behind a point, if there are any. -/
def takeFraction : List Char → List Char × List Char
  | '.' :: d :: cs =>
    if d.isDigit then (d :: cs.takeWhile Char.isDigit, cs.dropWhile Char.isDigit)
    else ([], '.' :: d :: cs)
  | cs => ([], cs)

/-- The sign that stands first, if one does. -/
def takeSign : List Char → Bool × List Char
  | '-' :: cs => (true, cs)
  | '+' :: cs => (false, cs)
  | cs => (false, cs)

/-- The sign and the digits of an exponent, if there are any digits. -/
def takeExponent (cs : List Char) : Bool × List Char × List Char :=
  match cs with
  | 'e' :: rest | 'E' :: rest =>
    let (negative, digits) := takeSign rest
    if (digits.takeWhile Char.isDigit).isEmpty then (false, [], cs)
    else (negative, digits.takeWhile Char.isDigit, digits.dropWhile Char.isDigit)
  | _ => (false, [], cs)

/-- A minus sign, if one stands first. -/
def takeMinus : List Char → Bool × List Char
  | '-' :: cs => (true, cs)
  | cs => (false, cs)

/-- The longest piece at the front of a text that has the shape of a number. -/
def takeNumber (cs : List Char) : Option (NumberText × List Char) :=
  let (negative, unsigned) := takeMinus cs
  match takeWhole unsigned with
  | none => none
  | some (whole, rest) =>
    let (fraction, rest) := takeFraction rest
    let (exponentNegative, exponent, rest) := takeExponent rest
    some ({ negative, whole, fraction, exponentNegative, exponent }, rest)

/-- The value of a number: an integer unless it has a point or an exponent. -/
def NumberText.value (t : NumberText) : Except LongNumeral Json :=
  if t.fraction.isEmpty && t.exponent.isEmpty then
    (readNumeral t.whole).map fun n => .int (if t.negative then -(n : Int) else n)
  else
    let exponent : Int := digitsValue t.exponent
    .ok (.float (.ofDecimal t.negative (digitsValue (t.whole ++ t.fraction))
      ((if t.exponentNegative then -exponent else exponent) - t.fraction.length)))

/-- The values that have a name. -/
def words : List (String × Json) :=
  [("null", .null), ("true", .bool true), ("false", .bool false), ("NaN", .float .nan),
    ("Infinity", .float (.infinite false)), ("-Infinity", .float (.infinite true))]

/-- What is behind a word at the front of a text. -/
def dropWord : List Char → List Char → Option (List Char)
  | [], cs => some cs
  | w :: ws, c :: cs => if w = c then dropWord ws cs else none
  | _ :: _, [] => none

/-- The named value at the front of a text. -/
def takeWord (cs : List Char) : Option (Json × List Char) :=
  words.findSome? fun (word, value) => (dropWord word.toList cs).map (value, ·)

/-! ## 4. Containers -/

/-- A container that is open: its finished parts and, in an object, the key whose value comes
next.  The items of an array are kept last one first. -/
inductive Frame
  | array (items : List Json)
  | object (members : List (String × Json)) (key : String)
  deriving Repr

/-- Where the reader stands, with the open containers, innermost first. -/
inductive State
  /-- A value must come. -/
  | value (frames : List Frame)
  /-- An array has just been opened. -/
  | items (frames : List Frame)
  /-- An object has just been opened. -/
  | members (frames : List Frame)
  /-- A comma was read in an object with these members. -/
  | key (frames : List Frame) (members : List (String × Json))
  /-- A key was read in an object with these members. -/
  | colon (frames : List Frame) (members : List (String × Json)) (key : String)
  /-- A value is complete. -/
  | behind (frames : List Frame) (value : Json)
  deriving Repr

/-- The blanks of the interchange format. -/
def isJsonBlank (c : Char) : Bool := c == ' ' || c == '\t' || c == '\n' || c == '\r'

/-- A value at `c :: cs`. -/
def startValue (frames : List Frame) (c : Char) (cs : List Char) :
    Except ReadError (State × List Char) :=
  if c == '"' then do
    let (s, rest) ← takeString (c :: cs) cs
    return (.behind frames (.string (String.ofList s)), rest)
  else if c == '\x7b' then .ok (.members frames, cs)
  else if c == '[' then .ok (.items frames, cs)
  else match takeWord (c :: cs) with
  | some (v, rest) => .ok (.behind frames v, rest)
  | none =>
    match takeNumber (c :: cs) with
    | none => fail .noValue (c :: cs)
    | some (t, rest) =>
      match t.value with
      | .ok v => .ok (.behind frames v, rest)
      | .error e => .error (.longNumeral e)

/-- A key at `c :: cs`. -/
def startKey (frames : List Frame) (members : List (String × Json)) (c : Char) (cs : List Char) :
    Except ReadError (State × List Char) :=
  if c == '"' then do
    let (s, rest) ← takeString (c :: cs) cs
    return (.colon frames members (String.ofList s), rest)
  else fail .noPropertyName (c :: cs)

/-- One step at a character that is no blank. -/
def step (state : State) (c : Char) (cs : List Char) : Except ReadError (State × List Char) :=
  match state with
  | .value frames => startValue frames c cs
  | .items frames =>
    if c == ']' then .ok (.behind frames (.array []), cs)
    else startValue (.array [] :: frames) c cs
  | .members frames =>
    if c == '\x7d' then .ok (.behind frames (.object []), cs) else startKey frames [] c cs
  | .key frames members => startKey frames members c cs
  | .colon frames members key =>
    if c == ':' then .ok (.value (.object members key :: frames), cs) else fail .noColon (c :: cs)
  | .behind [] _ => fail .extraData (c :: cs)
  | .behind (.array items :: frames) v =>
    if c == ',' then .ok (.value (.array (v :: items) :: frames), cs)
    else if c == ']' then .ok (.behind frames (.array (v :: items).reverse), cs)
    else fail .noComma (c :: cs)
  | .behind (.object members key :: frames) v =>
    if c == ',' then .ok (.key frames (insert key v members), cs)
    else if c == '\x7d' then .ok (.behind frames (.object (insert key v members)), cs)
    else fail .noComma (c :: cs)

/-- The end of the text: only a complete value may stand there. -/
def finish : State → Except ReadError Json
  | .behind [] v => .ok v
  | .behind (_ :: _) _ => fail .noComma []
  | .value _ => fail .noValue []
  | .items _ => fail .noValue []
  | .members _ => fail .noPropertyName []
  | .key _ _ => fail .noPropertyName []
  | .colon _ _ _ => fail .noColon []

/-! ## 5. What a step does -/

/-- Where a state is reached by way of a string, the string has been taken. -/
theorem exists_of_takeString_bind {opening cs rest : List Char} {f : List Char → State}
    {state : State}
    (h : (do let (s, behind) ← takeString opening cs; return (f s, behind)) = .ok (state, rest)) :
    ∃ s, takeString opening cs = .ok (s, rest) ∧ f s = state := by
  cases hs : takeString opening cs with
  | error e => simp [hs, bind, Except.bind] at h
  | ok r =>
    simp only [hs, bind, Except.bind, pure, Except.pure, Except.ok.injEq, Prod.mk.injEq] at h
    obtain ⟨rfl, rfl⟩ := h
    exact ⟨r.1, rfl, rfl⟩

/-- What a value can begin with, the state behind what is taken of it, and the text left. -/
inductive StartsValue (frames : List Frame) : List Char → State → List Char → Prop
  | string {cs s rest : List Char} (h : takeString ('"' :: cs) cs = .ok (s, rest)) :
    StartsValue frames ('"' :: cs) (.behind frames (.string (String.ofList s))) rest
  | object (cs : List Char) : StartsValue frames ('\x7b' :: cs) (.members frames) cs
  | array (cs : List Char) : StartsValue frames ('[' :: cs) (.items frames) cs
  | word {c : Char} {cs rest : List Char} {v : Json} (hc : c ≠ '"' ∧ c ≠ '\x7b' ∧ c ≠ '[')
    (h : takeWord (c :: cs) = some (v, rest)) :
    StartsValue frames (c :: cs) (.behind frames v) rest
  | number {c : Char} {cs rest : List Char} {t : NumberText} {v : Json}
    (hc : c ≠ '"' ∧ c ≠ '\x7b' ∧ c ≠ '[') (hword : takeWord (c :: cs) = none)
    (h : takeNumber (c :: cs) = some (t, rest)) (hvalue : t.value = .ok v) :
    StartsValue frames (c :: cs) (.behind frames v) rest

theorem startValue_eq_ok_iff {frames : List Frame} {state : State} {c : Char} {cs rest : List Char} :
    startValue frames c cs = .ok (state, rest) ↔ StartsValue frames (c :: cs) state rest := by
  constructor
  · intro h
    unfold startValue at h
    split at h
    · next hquote =>
      obtain rfl := beq_iff_eq.mp hquote
      obtain ⟨s, hs, rfl⟩ :=
        exists_of_takeString_bind (f := fun s => .behind frames (.string (String.ofList s))) h
      exact .string hs
    next hquote =>
    split at h
    · next hbrace =>
      obtain rfl := beq_iff_eq.mp hbrace
      obtain ⟨rfl, rfl⟩ := Prod.mk.inj (Except.ok.inj h)
      exact .object _
    next hbrace =>
    split at h
    · next hbracket =>
      obtain rfl := beq_iff_eq.mp hbracket
      obtain ⟨rfl, rfl⟩ := Prod.mk.inj (Except.ok.inj h)
      exact .array _
    next hbracket =>
    have hc : c ≠ '"' ∧ c ≠ '\x7b' ∧ c ≠ '[' :=
      ⟨by simpa using hquote, by simpa using hbrace, by simpa using hbracket⟩
    split at h
    · next hword =>
      obtain ⟨rfl, rfl⟩ := Prod.mk.inj (Except.ok.inj h)
      exact .word hc hword
    next hword =>
    split at h
    · exact absurd h (by simp [fail])
    next hnumber =>
    split at h
    · next hvalue =>
      obtain ⟨rfl, rfl⟩ := Prod.mk.inj (Except.ok.inj h)
      exact .number hc hword hnumber hvalue
    · exact absurd h (by simp)
  · intro h
    cases h with
    | string h => simp [startValue, h, bind, Except.bind, pure, Except.pure]
    | object cs => rfl
    | array cs => rfl
    | word hc h => simp [startValue, hc, h]
    | number hc hword h hvalue => simp [startValue, hc, hword, h, hvalue]

theorem startKey_eq_ok_iff {frames : List Frame} {members : List (String × Json)} {state : State}
    {c : Char} {cs rest : List Char} : startKey frames members c cs = .ok (state, rest) ↔
      c = '"' ∧ ∃ s, takeString ('"' :: cs) cs = .ok (s, rest) ∧
        State.colon frames members (String.ofList s) = state := by
  constructor
  · intro h
    unfold startKey at h
    split at h
    · next hquote =>
      obtain rfl := beq_iff_eq.mp hquote
      exact ⟨rfl, exists_of_takeString_bind
        (f := fun s => .colon frames members (String.ofList s)) h⟩
    · exact absurd h (by simp [fail])
  · rintro ⟨rfl, s, hs, rfl⟩
    simp [startKey, hs, bind, Except.bind, pure, Except.pure]

/-- The characters that are taken by themselves: from which state and to which one. -/
inductive Takes : State → Char → State → Prop
  | emptyArray (frames : List Frame) : Takes (.items frames) ']' (.behind frames (.array []))
  | emptyObject (frames : List Frame) :
    Takes (.members frames) '\x7d' (.behind frames (.object []))
  | colon (frames : List Frame) (members : List (String × Json)) (key : String) :
    Takes (.colon frames members key) ':' (.value (.object members key :: frames))
  | nextItem (frames : List Frame) (items : List Json) (v : Json) :
    Takes (.behind (.array items :: frames) v) ',' (.value (.array (v :: items) :: frames))
  | arrayEnd (frames : List Frame) (items : List Json) (v : Json) :
    Takes (.behind (.array items :: frames) v) ']' (.behind frames (.array (v :: items).reverse))
  | nextMember (frames : List Frame) (members : List (String × Json)) (key : String) (v : Json) :
    Takes (.behind (.object members key :: frames) v) ',' (.key frames (insert key v members))
  | objectEnd (frames : List Frame) (members : List (String × Json)) (key : String) (v : Json) :
    Takes (.behind (.object members key :: frames) v) '\x7d'
      (.behind frames (.object (insert key v members)))

/-- What a state does at a character, as a function of the text behind it: a value or a key starts
there, the character is taken by itself, or it is refused. -/
inductive Turn : State → Char → (List Char → Except ReadError (State × List Char)) → Prop
  | value (frames : List Frame) (c : Char) : Turn (.value frames) c (startValue frames c)
  | item (frames : List Frame) (c : Char) :
    Turn (.items frames) c (startValue (.array [] :: frames) c)
  | firstKey (frames : List Frame) (c : Char) : Turn (.members frames) c (startKey frames [] c)
  | key (frames : List Frame) (members : List (String × Json)) (c : Char) :
    Turn (.key frames members) c (startKey frames members c)
  | taken {state next : State} {c : Char} (h : Takes state c next) :
    Turn state c fun cs => .ok (next, cs)
  | noColon (frames : List Frame) (members : List (String × Json)) (key : String) (c : Char) :
    Turn (.colon frames members key) c fun cs => fail .noColon (c :: cs)
  | noMark (frames : List Frame) (v : Json) (c : Char) (fault : Fault) :
    Turn (.behind frames v) c fun cs => fail fault (c :: cs)

/-- One character is taken by itself, and any other one is turned to as before. -/
theorem Turn.ite {state next : State} {c d : Char}
    {turn : List Char → Except ReadError (State × List Char)} (htakes : Takes state d next)
    (helse : Turn state c turn) :
    Turn state c fun cs => if c == d then .ok (next, cs) else turn cs := by
  by_cases hc : c = d
  · subst hc
    simpa using .taken htakes
  · simpa [hc] using helse

theorem turn_step (state : State) (c : Char) : Turn state c (step state c) := by
  cases state with
  | value frames => exact .value frames c
  | items frames => exact .ite (.emptyArray frames) (.item frames c)
  | members frames => exact .ite (.emptyObject frames) (.firstKey frames c)
  | key frames members => exact .key frames members c
  | colon frames members key =>
    exact .ite (.colon frames members key) (.noColon frames members key c)
  | behind frames v =>
    match frames with
    | [] => exact .noMark [] v c .extraData
    | .array items :: frames =>
      exact .ite (.nextItem frames items v) (.ite (.arrayEnd frames items v)
        (.noMark (.array items :: frames) v c .noComma))
    | .object members key :: frames =>
      exact .ite (.nextMember frames members key v) (.ite (.objectEnd frames members key v)
        (.noMark (.object members key :: frames) v c .noComma))

/-! ## 6. Every step moves on -/

theorem length_rest_le_of_takeString {opening cs s rest : List Char}
    (h : takeString opening cs = .ok (s, rest)) : rest.length ≤ cs.length := by
  fun_induction takeString opening cs generalizing s rest with
  | case1 => simp [fail] at h
  | case2 c cs hc =>
    obtain ⟨-, rfl⟩ : _ ∧ _ := by simpa using h
    exact Nat.le_succ _
  | case3 => simp at h
  | case4 c cs hc d behind hd ih =>
    cases hs : takeString opening behind with
    | error e => simp [hs, Except.map] at h
    | ok r =>
      simp only [hs, Except.map, Except.ok.injEq, Prod.mk.injEq] at h
      obtain ⟨-, rfl⟩ := h
      have := length_rest_le_of_takeChar hd
      have := ih hs
      simp only [List.length_cons]
      omega

theorem length_rest_of_dropWord : ∀ {ws cs rest : List Char},
    dropWord ws cs = some rest → rest.length + ws.length = cs.length
  | [], cs, rest, h => by
    obtain rfl := Option.some.inj h
    rfl
  | w :: ws, [], rest, h => by simp [dropWord] at h
  | w :: ws, c :: cs, rest, h => by
    simp only [dropWord] at h
    split at h
    · have := length_rest_of_dropWord h
      simp only [List.length_cons]
      omega
    · simp at h

/-- No word is empty, so a word leaves less than there was. -/
theorem length_rest_lt_of_takeWord {cs rest : List Char} {v : Json}
    (h : takeWord cs = some (v, rest)) : rest.length < cs.length := by
  obtain ⟨⟨word, w⟩, hmem, hw⟩ := List.exists_of_findSome?_eq_some h
  obtain ⟨r, hr, heq⟩ := Option.map_eq_some_iff.1 hw
  obtain ⟨-, rfl⟩ : _ ∧ _ := by simpa using heq
  have hlen := length_rest_of_dropWord hr
  have hpos : 0 < word.toList.length := by
    have hall : ∀ p ∈ words, 0 < p.1.toList.length := by decide
    exact hall _ hmem
  omega

theorem length_rest_lt_of_takeWhole {cs whole rest : List Char}
    (h : takeWhole cs = some (whole, rest)) : rest.length < cs.length := by
  unfold takeWhole at h
  split at h
  · simp at h
  split at h
  · obtain ⟨-, rfl⟩ : _ ∧ _ := by simpa using h
    exact Nat.lt_succ_self _
  split at h
  · obtain ⟨-, rfl⟩ : _ ∧ _ := by simpa using h
    exact Nat.lt_succ_of_le (List.dropWhile_sublist _).length_le
  · simp at h

theorem length_takeFraction_le (cs : List Char) : (takeFraction cs).2.length ≤ cs.length := by
  unfold takeFraction
  split
  · split
    · exact Nat.le_succ_of_le (Nat.le_succ_of_le (List.dropWhile_sublist _).length_le)
    · exact Nat.le_refl _
  · exact Nat.le_refl _

theorem length_takeSign_le (cs : List Char) : (takeSign cs).2.length ≤ cs.length := by
  unfold takeSign
  split
  · exact Nat.le_succ _
  · exact Nat.le_succ _
  · exact Nat.le_refl _

theorem length_takeExponent_le (cs : List Char) :
    (takeExponent cs).2.2.length ≤ cs.length := by
  have hdigits (rest : List Char) :
      ((takeSign rest).2.dropWhile Char.isDigit).length ≤ rest.length + 1 :=
    Nat.le_succ_of_le (Nat.le_trans (List.dropWhile_sublist _).length_le (length_takeSign_le rest))
  unfold takeExponent
  split
  · simp only
    split
    · exact Nat.le_refl _
    · exact hdigits _
  · simp only
    split
    · exact Nat.le_refl _
    · exact hdigits _
  · exact Nat.le_refl _

theorem length_takeMinus_le (cs : List Char) : (takeMinus cs).2.length ≤ cs.length := by
  unfold takeMinus
  split
  · exact Nat.le_succ _
  · exact Nat.le_refl _

theorem length_rest_lt_of_takeNumber {cs rest : List Char} {t : NumberText}
    (h : takeNumber cs = some (t, rest)) : rest.length < cs.length := by
  unfold takeNumber at h
  simp only at h
  split at h
  · simp at h
  · next whole behind hwhole =>
    obtain ⟨-, rfl⟩ : _ ∧ _ := by simpa using h
    calc (takeExponent (takeFraction behind).2).2.2.length
      _ ≤ (takeFraction behind).2.length := length_takeExponent_le _
      _ ≤ behind.length := length_takeFraction_le _
      _ < (takeMinus cs).2.length := length_rest_lt_of_takeWhole hwhole
      _ ≤ cs.length := length_takeMinus_le cs

theorem length_rest_le_of_startKey {frames : List Frame} {members : List (String × Json)}
    {state : State} {c : Char} {cs rest : List Char}
    (h : startKey frames members c cs = .ok (state, rest)) : rest.length ≤ cs.length := by
  obtain ⟨rfl, s, hs, -⟩ := startKey_eq_ok_iff.mp h
  exact length_rest_le_of_takeString hs

theorem length_rest_le_of_startValue {frames : List Frame} {state : State} {c : Char}
    {cs rest : List Char} (h : startValue frames c cs = .ok (state, rest)) :
    rest.length ≤ cs.length := by
  cases startValue_eq_ok_iff.mp h with
  | string hs => exact length_rest_le_of_takeString hs
  | object cs => exact Nat.le_refl _
  | array cs => exact Nat.le_refl _
  | word hc hword => exact Nat.le_of_lt_succ (length_rest_lt_of_takeWord hword)
  | number hc hword hnumber hvalue =>
    exact Nat.le_of_lt_succ (length_rest_lt_of_takeNumber hnumber)

/-- A step takes the character it looks at. -/
theorem length_rest_le_of_step {state state' : State} {c : Char} {cs rest : List Char}
    (h : step state c cs = .ok (state', rest)) : rest.length ≤ cs.length := by
  have hturn := turn_step state c
  generalize step state c = turn at hturn h
  cases hturn with
  | value frames => exact length_rest_le_of_startValue h
  | item frames => exact length_rest_le_of_startValue h
  | firstKey frames => exact length_rest_le_of_startKey h
  | key frames members => exact length_rest_le_of_startKey h
  | taken htakes =>
    obtain ⟨-, rfl⟩ := Prod.mk.inj (Except.ok.inj h)
    exact Nat.le_refl _
  | noColon frames members key => exact absurd h (by simp [fail])
  | noMark frames v c fault => exact absurd h (by simp [fail])

/-! ## 7. The whole text -/

/-- Reads the rest of a text. -/
def run (state : State) : List Char → Except ReadError Json
  | [] => finish state
  | c :: cs =>
    if isJsonBlank c then run state cs
    else match _h : step state c cs with
    | .error e => .error e
    | .ok (state', rest) => run state' rest
termination_by cs => cs.length
decreasing_by
  · exact Nat.lt_succ_self _
  · exact Nat.lt_succ_of_le (length_rest_le_of_step _h)

/-- The value of an interchange text.  A byte order mark in front of it is refused. -/
def read (text : String) : Except ReadError Json :=
  match text.toList with
  | '\uFEFF' :: cs => fail .byteOrderMark ('\uFEFF' :: cs)
  | cs => run (.value []) cs

/-! ## 7. Places in reports -/

/-- A fault and its place: line and column counted from one, and the characters in front. -/
structure Malformed where
  fault : Fault
  line : Nat
  column : Nat
  offset : Nat
  deriving DecidableEq, Repr

/-- The place of a fault in a text.  Only line feeds end a line. -/
def FaultAt.locate (e : FaultAt) (text : String) : Malformed :=
  let before := text.toList.take (text.toList.length - e.left)
  { fault := e.fault
    line := before.count '\n' + 1
    column := (before.reverse.takeWhile (· != '\n')).length + 1
    offset := before.length }

/-- The whole report of a fault. -/
def Malformed.message (e : Malformed) : String :=
  e.fault.message ++ ": line " ++ toString e.line ++ " column " ++ toString e.column
    ++ " (char " ++ toString e.offset ++ ")"

end SchemaLang.Json
