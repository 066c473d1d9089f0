import QueryTypes.Json.Value

/-! Reads JSON text. Besides the standard, the words `NaN`, `Infinity` and `-Infinity` are
numbers; of two fields with one key the later value counts, in the earlier place. -/

namespace QueryTypes

/-- Why a text is no JSON: it does not follow the grammar, or a whole number in it has more digits
than are read. -/
inductive JsonError
  | malformed
  | tooManyDigits
deriving DecidableEq, Repr, Inhabited

namespace Json

def skip (s : List Char) : List Char :=
  s.dropWhile fun c => c == ' ' || c == '\t' || c == '\n' || c == '\r'

def isDigit (c : Char) : Bool := '0' ≤ c && c ≤ '9'

/-- The value of four hexadecimal digits. -/
def code? : List Char → Option (Nat × List Char)
  | a :: b :: c :: d :: r => do
    let a ← Text.hexValue? a
    let b ← Text.hexValue? b
    let c ← Text.hexValue? c
    let d ← Text.hexValue? d
    some (((a * 16 + b) * 16 + c) * 16 + d, r)
  | _ => none

def plainEscape? : Char → Option Char
  | '"' => some '"'
  | '\\' => some '\\'
  | '/' => some '/'
  | 'b' => some '\x08'
  | 'f' => some '\x0c'
  | 'n' => some '\n'
  | 'r' => some '\r'
  | 't' => some '\t'
  | _ => none

/-- The character that the digits of a numbered escape name, with what follows them. Two escapes
may name one character; half of such a pair on its own stands for no character and is read as the
replacement character. -/
def numbered? (s : List Char) : Option (Char × List Char) := do
  let (u, r) ← code? s
  let single := (if 0xD800 ≤ u ∧ u < 0xE000 then '\uFFFD' else Char.ofNat u, r)
  if 0xD800 ≤ u ∧ u < 0xDC00 then
    match r with
    | '\\' :: 'u' :: r' =>
      let (v, r'') ← code? r'
      if 0xDC00 ≤ v ∧ v < 0xE000 then
        return (Char.ofNat (0x10000 + (u - 0xD800) * 0x400 + (v - 0xDC00)), r'')
      else return single
    | _ => return single
  else return single

/-- The rest of a string after its opening quote. -/
def stringBody : Nat → List Char → List Char → Option (List Char × List Char)
  | 0, _, _ => none
  | _ + 1, _, [] => none
  | n + 1, acc, c :: r =>
    if c = '"' then some (acc.reverse, r)
    else if c.toNat < 32 then none
    else if c = '\\' then
      match r with
      | 'u' :: r => do
        let (ch, r) ← numbered? r
        stringBody n (ch :: acc) r
      | e :: r => do
        let ch ← plainEscape? e
        stringBody n (ch :: acc) r
      | [] => none
    else stringBody n (c :: acc) r

/-- The digits and the exponent of a number that starts here. -/
def readNumber (s : List Char) : Except JsonError (Json × List Char) :=
  let (negative, s) := match s with
    | '-' :: r => (true, r)
    | _ => (false, s)
  let whole := match s with
    | '0' :: _ => ['0']
    | _ => s.takeWhile isDigit
  if whole.isEmpty then .error .malformed
  else
    let s := s.drop whole.length
    let (fraction, s) := match s with
      | '.' :: r =>
        let ds := r.takeWhile isDigit
        if ds.isEmpty then ([], s) else (ds, r.drop ds.length)
      | _ => ([], s)
    let (power, s) := match s with
      | e :: r =>
        if e = 'e' ∨ e = 'E' then
          let (minus, t) := match r with
            | '-' :: t => (true, t)
            | '+' :: t => (false, t)
            | _ => (false, r)
          let ds := t.takeWhile isDigit
          if ds.isEmpty then (none, s)
          else
            let n : Int := Decimal.ofDigits ds
            (some (if minus then -n else n), t.drop ds.length)
        else (none, s)
      | [] => (none, s)
    if fraction.isEmpty && power.isNone then
      if Decimal.mostDigits < whole.length then .error .tooManyDigits
      else
        let n : Int := Decimal.ofDigits whole
        .ok (int (if negative then -n else n), s)
    else .ok (float (Decimal.Literal.value ⟨negative, whole, fraction, power.getD 0⟩), s)

def words : List (List Char × Json) := [
  ("null".toList, null), ("true".toList, bool true), ("false".toList, bool false),
  ("NaN".toList, float (0.0 / 0.0)), ("Infinity".toList, float (1.0 / 0.0)),
  ("-Infinity".toList, float (-1.0 / 0.0))]

def word? (s : List Char) : Option (Json × List Char) :=
  words.findSome? fun w => (Text.after? w.1 s).map fun r => (w.2, r)

/-- The rest of a string, where there is one. -/
def readString (s : List Char) : Except JsonError (String × List Char) :=
  match stringBody (s.length + 1) [] s with
  | some (cs, r) => .ok (String.ofList cs, r)
  | none => .error .malformed

mutual
/-- A value that starts here, with what follows it. -/
def readValue : Nat → List Char → Except JsonError (Json × List Char)
  | 0, _ => .error .malformed
  | n + 1, s =>
    match s with
    | '"' :: r => do
      let (text, r) ← readString r
      return (str text, r)
    | '[' :: r =>
      match skip r with
      | ']' :: r => .ok (arr [], r)
      | r => readItems n [] r
    | '{' :: r =>
      match skip r with
      | '}' :: r => .ok (obj [], r)
      | r => readFields n [] r
    | s =>
      match word? s with
      | some w => .ok w
      | none => readNumber s

/-- The items of an array up to its closing bracket. -/
def readItems : Nat → List Json → List Char → Except JsonError (Json × List Char)
  | 0, _, _ => .error .malformed
  | n + 1, acc, s => do
    let (v, r) ← readValue n s
    match skip r with
    | ',' :: r => readItems n (v :: acc) (skip r)
    | ']' :: r => return (arr (v :: acc).reverse, r)
    | _ => throw .malformed

/-- The fields of an object up to its closing brace. -/
def readFields : Nat → List (String × Json) → List Char → Except JsonError (Json × List Char)
  | 0, _, _ => .error .malformed
  | n + 1, acc, s =>
    match s with
    | '"' :: r => do
      let (k, r) ← readString r
      match skip r with
      | ':' :: r =>
        let (v, r) ← readValue n (skip r)
        let acc := setField k v acc
        match skip r with
        | ',' :: r => readFields n acc (skip r)
        | '}' :: r => return (obj acc, r)
        | _ => throw .malformed
      | _ => throw .malformed
    | _ => .error .malformed
end

/-- The value that a whole text writes, blanks around it aside. -/
def read (text : String) : Except JsonError Json := do
  let s := skip text.toList
  let (v, r) ← readValue (2 * s.length + 2) s
  if (skip r).isEmpty then return v else throw .malformed

def parse? (text : String) : Option Json := (read text).toOption

end Json
end QueryTypes
