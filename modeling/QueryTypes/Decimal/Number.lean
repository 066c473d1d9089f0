import QueryTypes.Decimal.Shortest

/-! Numbers as they are written and read: whole numbers exactly, others with the fewest digits
that read back, positional from 0.0001 to below 10^16 and with a signed exponent of at least two
digits elsewhere. -/

namespace QueryTypes.Decimal

/-- Whole numbers with more digits than this are not read. -/
def mostDigits : Nat := 4300

def ofDigits (cs : List Char) : Nat :=
  cs.foldl (fun n c => 10 * n + (c.toNat - 48)) 0

def digitsOf (n : Nat) : List Char := Nat.toDigits 10 n

/-- Writes the digits of `0.d₁d₂… * 10 ^ point`. -/
def place (ds : List Char) (point : Int) : List Char :=
  if point ≤ -4 ∨ 16 < point then
    let e := point - 1
    let mantissa := match ds with
      | [] => []
      | [d] => [d]
      | d :: r => d :: '.' :: r
    let power := digitsOf e.natAbs
    mantissa ++ 'e' :: (if e < 0 then '-' else '+') :: (if power.length < 2 then '0' :: power else power)
  else if point ≤ 0 then '0' :: '.' :: (List.replicate (-point).toNat '0' ++ ds)
  else
    let whole := ds.take point.toNat
    let rest := ds.drop point.toNat
    whole ++ List.replicate (point.toNat - whole.length) '0' ++ '.' :: (if rest.isEmpty then ['0'] else rest)

def text (x : Float) : String :=
  if x.isNaN then "nan"
  else
    let sign := if x.toBits >>> 63 == 1 then "-" else ""
    if x.isInf then sign ++ "inf"
    else
      let b := Binary.ofBits x.toBits
      if b.m = 0 then sign ++ "0.0"
      else
        let d := b.shortest
        let ds := digitsOf d.digits
        let core := (ds.reverse.dropWhile (· == '0')).reverse
        sign ++ String.ofList (place core (ds.length + d.exp))

/-- The value nearest to `digits * 10 ^ exp`. -/
def toFloat (digits : Nat) (exp : Int) : Float :=
  let size : Int := (digitsOf digits).length + exp
  if digits = 0 then 0.0
  else if 310 < size then 1.0 / 0.0
  else if size < -330 then 0.0
  else if exp < 0 then Float.ofScientific digits true exp.natAbs
  else Float.ofScientific digits false exp.toNat

/-- A decimal literal in its parts. -/
structure Literal where
  negative : Bool
  whole : List Char
  fraction : List Char
  exponent : Int

def Literal.value (l : Literal) : Float :=
  let v := toFloat (ofDigits (l.whole ++ l.fraction)) (l.exponent - l.fraction.length)
  if l.negative then -v else v

def isDigit (c : Char) : Bool := '0' ≤ c && c ≤ '9'

def negativeSign : List Char → Bool × List Char
  | '-' :: r => (true, r)
  | '+' :: r => (false, r)
  | r => (false, r)

/-- A sign, digits with at most one point among or around them, and perhaps an exponent. -/
def literal? (s : List Char) : Option Literal := do
  let (negative, s) := negativeSign s
  let whole := s.takeWhile isDigit
  let s := s.drop whole.length
  let (fraction, s) := match s with
    | '.' :: r => (r.takeWhile isDigit, r.dropWhile isDigit)
    | _ => ([], s)
  if whole.isEmpty && fraction.isEmpty then none
  else match s with
    | [] => some ⟨negative, whole, fraction, 0⟩
    | e :: r =>
      let (minus, ds) := negativeSign r
      if (e == 'e' || e == 'E') && !ds.isEmpty && ds.all isDigit then
        let n : Int := ofDigits ds
        some ⟨negative, whole, fraction, if minus then -n else n⟩
      else none

/-- The number that a text writes, where infinity and what is no number have names. -/
def read? (s : List Char) : Option Float :=
  match literal? s with
  | some l => some l.value
  | none =>
    let (negative, word) := negativeSign s
    let lower := String.ofList (word.map Char.toLower)
    if lower = "inf" ∨ lower = "infinity" then some (if negative then -1.0 / 0.0 else 1.0 / 0.0)
    else if lower = "nan" then some (0.0 / 0.0)
    else none

end QueryTypes.Decimal
