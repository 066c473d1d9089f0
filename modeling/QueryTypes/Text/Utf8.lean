import QueryTypes.Text.Basic

/-! UTF-8: the bytes of a text, the text of valid bytes, and a reading of any bytes in which each
broken piece becomes one replacement character. -/

namespace QueryTypes.Text

def encode (s : String) : ByteArray := s.toUTF8

def decode? (b : ByteArray) : Option String := String.fromUTF8? b

/-- How many bytes a character takes by its first byte, with the bounds of the second one. -/
def leadByte (b : Nat) : Option (Nat × Nat × Nat) :=
  if b < 0x80 then some (1, 0x80, 0xBF)
  else if 0xC2 ≤ b ∧ b ≤ 0xDF then some (2, 0x80, 0xBF)
  else if b = 0xE0 then some (3, 0xA0, 0xBF)
  else if b = 0xED then some (3, 0x80, 0x9F)
  else if 0xE1 ≤ b ∧ b ≤ 0xEF then some (3, 0x80, 0xBF)
  else if b = 0xF0 then some (4, 0x90, 0xBF)
  else if b = 0xF4 then some (4, 0x80, 0x8F)
  else if 0xF1 ≤ b ∧ b ≤ 0xF3 then some (4, 0x80, 0xBF)
  else none

/-- The bytes that may continue a character, at most `n`, the first one between the bounds. -/
def tailBytes (lo hi : Nat) : Nat → List Nat → List Nat
  | 0, _ => []
  | _, [] => []
  | n + 1, b :: r => if lo ≤ b ∧ b ≤ hi then b :: tailBytes 0x80 0xBF n r else []

def decodeLoosely : Nat → List Nat → List Char
  | 0, _ => []
  | _, [] => []
  | n + 1, b :: r =>
    match leadByte b with
    | none => '\uFFFD' :: decodeLoosely n r
    | some (size, lo, hi) =>
      let tail := tailBytes lo hi (size - 1) r
      let rest := decodeLoosely n (r.drop tail.length)
      if tail.length + 1 < size then '\uFFFD' :: rest
      else
        let head := if size = 1 then b else b % 2 ^ (7 - size)
        Char.ofNat (tail.foldl (fun v t => v * 64 + (t - 0x80)) head) :: rest

end QueryTypes.Text
