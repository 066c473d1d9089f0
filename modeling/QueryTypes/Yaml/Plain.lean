import QueryTypes.Decimal.Number
import QueryTypes.Text.Blank
import QueryTypes.Yaml.Cursor

/-! The type that the text of a plain scalar has: a word for a truth value or for nothing, a
number, a point in time, or else just text. -/

namespace QueryTypes.Yaml

inductive PlainType
  | bool
  | float
  | int
  | merge
  | null
  | timestamp
  | value
  | str
deriving DecidableEq, Repr

namespace Plain

open Decimal (isDigit negativeSign)

def trueWords : List String :=
  ["yes", "Yes", "YES", "true", "True", "TRUE", "on", "On", "ON"]

def falseWords : List String :=
  ["no", "No", "NO", "false", "False", "FALSE", "off", "Off", "OFF"]

def nullWords : List String := ["~", "null", "Null", "NULL", ""]

def isDigitOrLow (c : Char) : Bool := isDigit c || c == '_'

/-- Digits with low lines among them, a digit first. -/
def isDigits (s : List Char) : Bool := s.head?.any isDigit && s.all isDigitOrLow

/-- Nothing, or an exponent with a sign. -/
def isExponent : List Char → Bool
  | [] => true
  | e :: sign :: d :: r =>
    (e == 'e' || e == 'E') && (sign == '-' || sign == '+') && (d :: r).all isDigit
  | _ => false

/-- A number below sixty in one or two digits. -/
def isSixtieth : List Char → Bool
  | [d] => isDigit d
  | [t, d] => '0' ≤ t && t ≤ '5' && isDigit d
  | _ => false

/-- Digits and further places to the base sixty behind colons. -/
def isSixties (s : List Char) : Bool :=
  match Text.splitOn ':' s with
  | first :: p :: ps => isDigits first && (p :: ps).all isSixtieth
  | _ => false

def isInfinity (s : List Char) : Bool :=
  [".inf", ".Inf", ".INF"].contains (String.ofList s)

def isFloat (s : List Char) : Bool :=
  let bare := (negativeSign s).2
  match Text.cut? '.' bare with
  | none => false
  | some (whole, rest) =>
    let tail := rest.dropWhile isDigitOrLow
    isDigits whole && isExponent tail
      || whole.isEmpty && bare.length == s.length && rest.head?.any isDigit && isExponent tail
      || isSixties whole && tail.isEmpty
      || isInfinity bare
      || [".nan", ".NaN", ".NAN"].contains (String.ofList s)

def isLowHex (c : Char) : Bool := (Text.hexValue? c).isSome || c == '_'

def isInt (s : List Char) : Bool :=
  match (negativeSign s).2 with
  | ['0'] => true
  | '0' :: 'b' :: r => !r.isEmpty && r.all fun c => c == '0' || c == '1' || c == '_'
  | '0' :: 'x' :: r => !r.isEmpty && r.all isLowHex
  | '0' :: r => r.all fun c => '0' ≤ c && c ≤ '7' || c == '_'
  | s => s.head?.any (· != '_') && (isDigits s || isSixties s)

/-- A pattern may end before the line break that its text ends with. -/
def withoutBreak (s : List Char) : List Char := if s.getLast? = some '\n' then s.dropLast else s

/-- A date with the parts of a time of day, and its distance from the standard zone. -/
structure Moment where
  year : Nat
  month : Nat
  day : Nat
  time : Option (Nat × Nat × Nat)
  zone : Option (Nat × Nat)
deriving Repr

/-- Between `least` and two digits. -/
def someDigits (least : Nat) (s : List Char) : Option (Nat × List Char) :=
  let ds := (s.take 2).takeWhile isDigit
  if ds.length < least then none else some (Decimal.ofDigits ds, s.drop ds.length)

def sign? (c : Char) : List Char → Option (List Char)
  | x :: r => if x = c then some r else none
  | [] => none

def zone? (s : List Char) : Option (Option (Nat × Nat)) :=
  match s.dropWhile fun c => c == ' ' || c == '\t' with
  | [] => if s.isEmpty then some none else none
  | ['Z'] => some none
  | x :: r => do
    if x != '-' && x != '+' then none
    let (h, r) ← someDigits 1 r
    match r with
    | [] => some (some (h, 0))
    | ':' :: r =>
      let (m, r) ← someDigits 2 r
      if r.isEmpty then some (some (h, m)) else none
    | _ => none

/-- A date alone has two digits for month and day. -/
def moment? (strict : Bool) (text : List Char) : Option Moment := do
  let s := withoutBreak text
  let ys := s.take 4
  if ys.length < 4 || !ys.all isDigit then none
  let r ← sign? '-' (s.drop 4)
  let (month, r') ← someDigits 1 r
  let wide := r.length == r'.length + 2
  let r ← sign? '-' r'
  let (day, rest) ← someDigits 1 r
  let wide := wide && r.length == rest.length + 2
  let year := Decimal.ofDigits ys
  if rest.isEmpty then if wide || !strict then some ⟨year, month, day, none, none⟩ else none
  else
    let r ← match rest with
      | 'T' :: r | 't' :: r => some r
      | ' ' :: _ | '\t' :: _ => some (rest.dropWhile fun c => c == ' ' || c == '\t')
      | _ => none
    let (h, r) ← someDigits 1 r
    let r ← sign? ':' r
    let (m, r) ← someDigits 2 r
    let r ← sign? ':' r
    let (sec, r) ← someDigits 2 r
    let r := match r with
      | '.' :: r => r.dropWhile isDigit
      | r => r
    let zone ← zone? r
    some ⟨year, month, day, some (h, m, sec), zone⟩

def daysIn (year month : Nat) : Nat :=
  if month = 2 then
    if year % 4 = 0 ∧ (year % 100 ≠ 0 ∨ year % 400 = 0) then 29 else 28
  else if [4, 6, 9, 11].contains month then 30 else 31

/-- Whether the calendar and the clock have the moment. -/
def Moment.exists_ (x : Moment) : Bool :=
  1 ≤ x.year && 1 ≤ x.month && x.month ≤ 12 && 1 ≤ x.day && x.day ≤ daysIn x.year x.month
    && x.time.all (fun t => t.1 < 24 && t.2.1 < 60 && t.2.2 < 60)
    && x.zone.all fun z => z.1 * 60 + z.2 < 1440

/-- The type is looked for by the first character, which a line break is not one of. -/
def typeOf (written : String) : PlainType :=
  let s := if written = "\n" then ['\n'] else withoutBreak written.toList
  let text := String.ofList s
  if trueWords.contains text || falseWords.contains text then .bool
  else if isFloat s then .float
  else if isInt s then .int
  else if text = "<<" then .merge
  else if nullWords.contains text then .null
  else if (moment? true s).isSome then .timestamp
  else if text = "=" then .value
  else .str

/-- The code point of the digit zero in every script (Unicode 14); nine more digits follow it. -/
def digitZeros : List Nat := [
  0x30, 0x660, 0x6F0, 0x7C0, 0x966, 0x9E6, 0xA66, 0xAE6, 0xB66, 0xBE6, 0xC66, 0xCE6, 0xD66, 0xDE6,
  0xE50, 0xED0, 0xF20, 0x1040, 0x1090, 0x17E0, 0x1810, 0x1946, 0x19D0, 0x1A80, 0x1A90, 0x1B50,
  0x1BB0, 0x1C40, 0x1C50, 0xA620, 0xA8D0, 0xA900, 0xA9D0, 0xA9F0, 0xAA50, 0xABF0, 0xFF10, 0x104A0,
  0x10D30, 0x11066, 0x110F0, 0x11136, 0x111D0, 0x112F0, 0x11450, 0x114D0, 0x11650, 0x116C0,
  0x11730, 0x118E0, 0x11950, 0x11C50, 0x11D50, 0x11DA0, 0x16A60, 0x16AC0, 0x16B50, 0x1D7CE,
  0x1D7D8, 0x1D7E2, 0x1D7EC, 0x1D7F6, 0x1E140, 0x1E2F0, 0x1E950, 0x1FBF0]

/-- A digit of any script as one of the usual ten. -/
def usualDigit (c : Char) : Char :=
  match digitZeros.find? fun z => z ≤ c.toNat && c.toNat < z + 10 with
  | some z => Char.ofNat (c.toNat - z + 48)
  | none => c

/-- The value of digits to a base, with none of them left over. To the base ten there may not be too
many of them. -/
def inBase? (base : Nat) (s : List Char) : Option Nat := do
  if s.isEmpty || base == 10 && Decimal.mostDigits < s.length then none
  s.foldlM (fun n c => do
    let v ← Text.hexValue? c
    if v < base then some (n * base + v) else none) 0

/-- The letter that marks a base behind a zero. -/
def baseLetter? : Nat → Option Char
  | 2 => some 'b'
  | 8 => some 'o'
  | 16 => some 'x'
  | _ => none

/-- A numeral to a base, in digits of any script. Blanks around it, a sign, and the mark of the base
are left out. -/
def numeral? (base : Nat) (s : List Char) : Option Int :=
  let (negative, s) := negativeSign ((Text.trim s).map usualDigit)
  let digits := match s with
    | '0' :: c :: r => if baseLetter? base = some c.toLower then r else s
    | _ => s
  (inBase? base digits).map fun n => if negative then -(n : Int) else n

def sixties (ps : List Int) : Int := ps.foldl (fun n p => n * 60 + p) 0

/-- The whole number that a text writes, low lines aside. -/
def int (text : String) : Except ReadError Int := do
  let (negative, s) := negativeSign (text.toList.filter (· != '_'))
  let value := match s with
    | '0' :: 'b' :: r => numeral? 2 r
    | '0' :: 'x' :: r => numeral? 16 r
    | '0' :: _ => numeral? 8 s
    | s =>
      if s.contains ':' then ((Text.splitOn ':' s).mapM (numeral? 10)).map sixties else numeral? 10 s
  match value with
  | some n => return if negative then -n else n
  | none =>
    if s.isEmpty then throw (.breakdown (.outOfRange "string index out of range"))
    else throw (.breakdown (.badValue ("invalid literal for int() with base 10: " ++ Text.quoted text)))

/-- A numeral with a point or an exponent, or the name of a number. Blanks around it are left out. -/
def decimal? (s : List Char) : Option Float := Decimal.read? ((Text.trim s).map usualDigit)

/-- Places to the base sixty, the highest one first. A power of sixty is a whole number, and one that
is too large cannot be multiplied with a number of this kind. -/
def floatSixties (ps : List Float) : Except ReadError Float :=
  ps.reverse.zipIdx.foldlM (fun x p =>
    let base := Decimal.toFloat (Nat.pow 60 p.2) 0
    if base.isInf then .error (.breakdown (.unexpected "int too large to convert to float"))
    else .ok (x + p.1 * base)) 0.0

/-- The number that a text without a sign writes. -/
def unsigned (s : List Char) : Except ReadError Float :=
  let misread := ReadError.breakdown
    (.badValue ("could not convert string to float: " ++ Text.quoted (String.ofList s)))
  let word := String.ofList s
  if word = ".inf" then .ok (1.0 / 0.0)
  else if word = ".nan" then .ok (0.0 / 0.0)
  else if s.contains ':' then
    match (Text.splitOn ':' s).mapM decimal? with
    | some ps => floatSixties ps
    | none => .error misread
  else (decimal? s).elim (.error misread) .ok

/-- The number that a text writes, low lines aside. -/
def float (text : String) : Except ReadError Float := do
  let cs := (text.toList.filter (· != '_')).map Char.toLower
  if cs.isEmpty then throw (.breakdown (.outOfRange "string index out of range"))
  let (negative, s) := negativeSign cs
  let x ← unsigned s
  return if negative then -x else x

end Plain
end QueryTypes.Yaml
