/-
# Reading UTF-8

Bytes are read as UTF-8 and nothing else will do: no overlong forms, no surrogates, nothing above
U+10FFFF, no stray or missing continuation bytes.  The report of a fault names the bytes that
belong together: the first byte of a character and as many continuation bytes as could still have
led to one (`Utf8Error`).

The range of the second byte depends on the first (`secondByteRange`); this one table excludes
everything that is too long, too large or a surrogate.
-/
import SchemaLang.Number.Power
import SchemaLang.Text.Quoted

namespace SchemaLang.Text

/-! ## 1. Faults -/

/-- Why bytes are no text. -/
inductive Utf8Cause
  | badStart
  | badContinuation
  | endOfData
  deriving DecidableEq, Repr

/-- Where bytes are no text: the first of them, how many belong together, and the byte itself. -/
structure Utf8Error where
  cause : Utf8Cause
  offset : Nat
  length : Nat
  byte : UInt8
  deriving DecidableEq, Repr

/-- What is wrong, in words. -/
def Utf8Cause.describe : Utf8Cause → String
  | badStart => "invalid start byte"
  | badContinuation => "invalid continuation byte"
  | endOfData => "unexpected end of data"

/-- The report of a fault: a byte that stands alone is shown, several are told by their offsets. -/
def Utf8Error.message (e : Utf8Error) : String :=
  let bytes :=
    if e.length == 1 then
      "byte 0x" ++ String.ofList (hexDigits 2 e.byte.toNat) ++ " in position " ++ toString e.offset
    else
      "bytes in position " ++ toString e.offset ++ "-" ++ toString (e.offset + e.length - 1)
  "'utf-8' codec can't decode " ++ bytes ++ ": " ++ e.cause.describe

/-! ## 2. Characters -/

/-- A byte that can follow another one. -/
def isContinuation (b : UInt8) : Bool := 0x80 ≤ b && b ≤ 0xBF

/-- How many bytes a character has, by its first one, and the range of the second. -/
def secondByteRange (b : UInt8) : Option (Nat × UInt8 × UInt8) :=
  if 0xC2 ≤ b && b ≤ 0xDF then some (2, 0x80, 0xBF)
  else if b == 0xE0 then some (3, 0xA0, 0xBF)
  else if b == 0xED then some (3, 0x80, 0x9F)
  else if 0xE1 ≤ b && b ≤ 0xEF then some (3, 0x80, 0xBF)
  else if b == 0xF0 then some (4, 0x90, 0xBF)
  else if 0xF1 ≤ b && b ≤ 0xF3 then some (4, 0x80, 0xBF)
  else if b == 0xF4 then some (4, 0x80, 0x8F)
  else none

/-- The six bits of a continuation byte behind the bits so far. -/
def addBits (n : Nat) (b : UInt8) : Nat := n * 64 + b.toNat % 64

/-- The bits that the first byte of a character holds, by the length of the character. -/
def firstBits (length : Nat) (b : UInt8) : Nat := b.toNat % twoTo (7 - length)

/-- The continuation bytes that come next, at most so many. -/
def takeContinuation : Nat → List UInt8 → List UInt8
  | 0, _ => []
  | _ + 1, [] => []
  | n + 1, b :: bs => if isContinuation b then b :: takeContinuation n bs else []

/-- A character that starts with the byte `b`, and the bytes behind it, or the cause of the fault
and how many bytes belong together. -/
def decodeChar (b : UInt8) (bs : List UInt8) : Except (Utf8Cause × Nat) (Char × List UInt8) :=
  if b < 0x80 then .ok (Char.ofNat b.toNat, bs)
  else match secondByteRange b with
  | none => .error (.badStart, 1)
  | some (length, low, high) =>
    match bs with
    | [] => .error (.endOfData, 1)
    | second :: rest =>
      if low ≤ second && second ≤ high then
        let more := takeContinuation (length - 2) rest
        if more.length = length - 2 then
          .ok (Char.ofNat ((second :: more).foldl addBits (firstBits length b)),
            rest.drop more.length)
        else if rest.length = more.length then .error (.endOfData, 2 + more.length)
        else .error (.badContinuation, 2 + more.length)
      else .error (.badContinuation, 1)

theorem length_rest_le_of_decodeChar {b : UInt8} {bs rest : List UInt8} {c : Char}
    (h : decodeChar b bs = .ok (c, rest)) : rest.length ≤ bs.length := by
  unfold decodeChar at h
  split at h
  · obtain ⟨-, rfl⟩ : _ ∧ _ := by simpa using h
    exact Nat.le_refl _
  split at h
  · simp at h
  split at h
  · simp at h
  split at h
  · simp only at h
    split at h
    · obtain ⟨-, rfl⟩ : _ ∧ _ := by simpa using h
      simp only [List.length_drop, List.length_cons]
      omega
    split at h
    · simp at h
    · simp at h
  · simp at h

/-! ## 3. Texts -/

/-- The characters of bytes that start at an offset. -/
def decodeFrom (offset : Nat) : List UInt8 → Except Utf8Error (List Char)
  | [] => .ok []
  | b :: bs =>
    match _h : decodeChar b bs with
    | .error (cause, length) => .error ⟨cause, offset, length, b⟩
    | .ok (c, rest) =>
      (decodeFrom (offset + 1 + (bs.length - rest.length)) rest).map (c :: ·)
termination_by bs => bs.length
decreasing_by exact Nat.lt_succ_of_le (length_rest_le_of_decodeChar _h)

/-- The text that bytes encode. -/
def decodeUtf8 (bytes : List UInt8) : Except Utf8Error (List Char) := decodeFrom 0 bytes

/-- A text in which every line ends in a single line feed. -/
def normalizeLineEnds : List Char → List Char
  | '\r' :: '\n' :: cs => '\n' :: normalizeLineEnds cs
  | '\r' :: cs => '\n' :: normalizeLineEnds cs
  | c :: cs => c :: normalizeLineEnds cs
  | [] => []

@[simp] theorem normalizeLineEnds_nil : normalizeLineEnds [] = [] := rfl

theorem normalizeLineEnds_pair (cs : List Char) :
    normalizeLineEnds ('\r' :: '\n' :: cs) = '\n' :: normalizeLineEnds cs := rfl

theorem normalizeLineEnds_return {cs : List Char} (h : cs.head? ≠ some '\n') :
    normalizeLineEnds ('\r' :: cs) = '\n' :: normalizeLineEnds cs := by
  rw [normalizeLineEnds]
  rintro ds rfl
  exact h rfl

theorem normalizeLineEnds_cons {c : Char} (hc : c ≠ '\r') (cs : List Char) :
    normalizeLineEnds (c :: cs) = c :: normalizeLineEnds cs := by
  rw [normalizeLineEnds]
  · exact fun _ hreturn _ => hc hreturn
  · exact hc

example : decodeUtf8 [0x61, 0xC3, 0xA9] = .ok ['a', 'é'] := by cbv
example : decodeUtf8 [0xED, 0xA0] = .error ⟨.badContinuation, 0, 1, 0xED⟩ := by cbv
example : decodeUtf8 [0xF0, 0x9F, 0x98] = .error ⟨.endOfData, 0, 3, 0xF0⟩ := by cbv

end SchemaLang.Text
