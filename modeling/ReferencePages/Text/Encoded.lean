/-!
# Bytes as text

Bytes in UTF-8 are read as the characters they encode. Bytes that encode none are shown by
replacement characters: one for each longest part that begins a character, and otherwise one for
each byte.
-/

namespace ReferencePages

/-- The replacement character. -/
def replacement : Char := '\ufffd'

/-- The first byte of an encoded character: the bits it holds, and the ranges of the bytes that
follow it. -/
def leadByte? (b : Nat) : Option (Nat × List (Nat × Nat)) :=
  let any := (0x80, 0xbf)
  if b < 0x80 then some (b, [])
  else if 0xc2 ≤ b ∧ b ≤ 0xdf then some (b - 0xc0, [any])
  else if b = 0xe0 then some (0, [(0xa0, 0xbf), any])
  else if b = 0xed then some (0xd, [(0x80, 0x9f), any])
  else if 0xe1 ≤ b ∧ b ≤ 0xef then some (b - 0xe0, [any, any])
  else if b = 0xf0 then some (0, [(0x90, 0xbf), any, any])
  else if b = 0xf4 then some (4, [(0x80, 0x8f), any, any])
  else if 0xf1 ≤ b ∧ b ≤ 0xf3 then some (b - 0xf0, [any, any, any])
  else none

/-- The character whose code point begins with the bits `n`, and how many bytes it takes. Where a
byte is out of range, the bytes before it are shown by one replacement character. -/
def restOfChar (n : Nat) : List (Nat × Nat) → List UInt8 → Char × Nat
  | [], _ => (Char.ofNat n, 0)
  | _ :: _, [] => (replacement, 0)
  | (lo, hi) :: ranges, b :: bytes =>
    if lo ≤ b.toNat ∧ b.toNat ≤ hi then
      let (c, taken) := restOfChar (n * 64 + (b.toNat - 0x80)) ranges bytes
      (c, taken + 1)
    else (replacement, 0)

/-- The text of some bytes. -/
def decodeBytes : List UInt8 → List Char
  | [] => []
  | b :: bytes =>
    match leadByte? b.toNat with
    | some (n, ranges) =>
      let (c, taken) := restOfChar n ranges bytes
      c :: decodeBytes (bytes.drop taken)
    | none => replacement :: decodeBytes bytes
termination_by bytes => bytes.length
decreasing_by all_goals (simp only [List.length_cons, List.length_drop]; omega)

end ReferencePages
