import QueryTypes.Json.Value

/-! Writes JSON text in ASCII: every other character is an escape of its UTF-16 units. With an
indentation each item has a line of its own. -/

namespace QueryTypes.Json

def escapedUnit (n : Nat) : List Char := '\\' :: 'u' :: Text.hex 4 n

def escaped (c : Char) : List Char :=
  if c = '"' then ['\\', '"']
  else if c = '\\' then ['\\', '\\']
  else if c = '\n' then ['\\', 'n']
  else if c = '\r' then ['\\', 'r']
  else if c = '\t' then ['\\', 't']
  else if c = '\x08' then ['\\', 'b']
  else if c = '\x0c' then ['\\', 'f']
  else if 32 ≤ c.toNat ∧ c.toNat < 127 then [c]
  else if c.toNat < 0x10000 then escapedUnit c.toNat
  else
    let v := c.toNat - 0x10000
    escapedUnit (0xD800 + v / 0x400) ++ escapedUnit (0xDC00 + v % 0x400)

def literal (s : String) : String :=
  String.ofList ('"' :: s.toList.flatMap escaped ++ ['"'])

def floatText (x : Float) : String :=
  if x.isNaN then "NaN"
  else if x.isInf then (if x < 0 then "-Infinity" else "Infinity")
  else Decimal.text x

/-- What stands between items: nothing but a comma, or a comma and a line of the given depth. -/
structure Layout where
  step : Option Nat

def Layout.line (l : Layout) (depth : Nat) : String :=
  match l.step with
  | none => ""
  | some n => "\n" ++ String.ofList (List.replicate (n * depth) ' ')

def Layout.colon (l : Layout) : String := if l.step.isSome then ": " else ":"

mutual
def print (l : Layout) (depth : Nat) : Json → String
  | null => "null"
  | bool b => if b then "true" else "false"
  | int n => toString n
  | float x => floatText x
  | str s => literal s
  | arr [] => "[]"
  | arr (x :: r) =>
    "[" ++ l.line (depth + 1) ++ print l (depth + 1) x ++ printItems l (depth + 1) r ++ l.line depth ++ "]"
  | obj [] => "\x7b\x7d"
  | obj ((k, v) :: r) =>
    "\x7b" ++ l.line (depth + 1) ++ literal k ++ l.colon ++ print l (depth + 1) v
      ++ printFields l (depth + 1) r ++ l.line depth ++ "\x7d"

def printItems (l : Layout) (depth : Nat) : List Json → String
  | [] => ""
  | x :: r => "," ++ l.line depth ++ print l depth x ++ printItems l depth r

def printFields (l : Layout) (depth : Nat) : List (String × Json) → String
  | [] => ""
  | (k, v) :: r =>
    "," ++ l.line depth ++ literal k ++ l.colon ++ print l depth v ++ printFields l depth r
end

def pretty (v : Json) : String := print ⟨some 2⟩ 0 v

def compact (v : Json) : String := print ⟨none⟩ 0 v

end QueryTypes.Json
