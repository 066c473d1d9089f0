import QueryTypes.Text.Basic

/-! Whitespace as Unicode counts it, together with the four information separators. -/

namespace QueryTypes.Text

/-- The first and last code point of every run of blanks. -/
def blankRanges : List (Nat × Nat) := [
  (0x09, 0x0D), (0x1C, 0x20), (0x85, 0x85), (0xA0, 0xA0), (0x1680, 0x1680), (0x2000, 0x200A),
  (0x2028, 0x2029), (0x202F, 0x202F), (0x205F, 0x205F), (0x3000, 0x3000)]

def isBlank (c : Char) : Bool :=
  blankRanges.any fun r => r.1 ≤ c.toNat && c.toNat ≤ r.2

def trim (s : List Char) : List Char := trimBy isBlank s

def trimmed (s : String) : String := String.ofList (trim s.toList)

/-- Replaces each run of blanks by one space. -/
def collapse : List Char → List Char
  | [] => []
  | c :: r =>
    if isBlank c then
      match r with
      | [] => [' ']
      | d :: _ => if isBlank d then collapse r else ' ' :: collapse r
    else c :: collapse r

end QueryTypes.Text
