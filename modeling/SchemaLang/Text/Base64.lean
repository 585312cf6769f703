/-
# Bytes as text

Bytes are written with sixty-four characters, each of which stands for six bits; four of them make
three bytes.  The equals sign fills up a last group of two or three characters.  Everything else is
passed over, and so is what follows the sign that completes a group.
-/

namespace SchemaLang.Text.Base64

/-- The six bits that a character stands for. -/
def sixBits? (c : Char) : Option Nat :=
  if c.isUpper then some (c.toNat - 'A'.toNat)
  else if c.isLower then some (c.toNat - 'a'.toNat + 26)
  else if c.isDigit then some (c.toNat - '0'.toNat + 52)
  else if c == '+' then some 62
  else if c == '/' then some 63
  else none

/-- The full bytes in a group of up to four times six bits. -/
def groupBytes : List Nat → List UInt8
  | [a, b] => [(4 * a + b / 16).toUInt8]
  | [a, b, c] => [(4 * a + b / 16).toUInt8, (16 * b + c / 4).toUInt8]
  | [a, b, c, d] => [(4 * a + b / 16).toUInt8, (16 * b + c / 4).toUInt8, (64 * c + d).toUInt8]
  | _ => []

/-- The bytes of a text behind an unfinished group and some equals signs. -/
def decodeFrom : List Char → (group : List Nat) → (signs : Nat) → Option (List UInt8)
  | [], group, _ => if group.isEmpty then some [] else none
  | c :: cs, group, signs =>
    if c == '=' then
      if group.length < 2 then decodeFrom cs group signs
      else if group.length + signs + 1 < 4 then decodeFrom cs group (signs + 1)
      else some (groupBytes group)
    else match sixBits? c with
      | none => decodeFrom cs group signs
      | some n =>
        if group.length < 3 then decodeFrom cs (group ++ [n]) 0
        else (decodeFrom cs [] 0).map (groupBytes (group ++ [n]) ++ ·)

/-- The bytes that a text stands for; none if its last group is not complete. -/
def decode (cs : List Char) : Option (List UInt8) := decodeFrom cs [] 0

example : decode "U2No\nZW1h".toList = some ("Schema".toList.map fun c => c.toNat.toUInt8) := by
  decide
example : decode "aQ==".toList = some [105] ∧ decode "aQ=".toList = none := by decide

end SchemaLang.Text.Base64
