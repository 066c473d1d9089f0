import QueryTypes.Json.Reader

/-! The words of the query language. A text is split into tokens; the list always ends with the end
of the text or with the first place where no token can be read. -/

namespace QueryTypes

inductive TokenKind
  | punctuator (c : Char)
  | spread
  | name (text : String)
  | int (digits : String)
  | float (digits : String)
  | string (text : String) (block : Bool)
  | endOfText
  /-- no token can be read here -/
  | invalid (message : String)
  /-- the text ends inside an escape -/
  | cutShort
deriving DecidableEq, Inhabited

structure Token where
  kind : TokenKind
  start : Nat
deriving Inhabited

/-- How messages call a token. -/
def TokenKind.describe : TokenKind → String
  | punctuator c => "'" ++ c.toString ++ "'"
  | spread => "'...'"
  | name t => "Name '" ++ t ++ "'"
  | int t => "Int '" ++ t ++ "'"
  | float t => "Float '" ++ t ++ "'"
  | string t block => (if block then "BlockString '" else "String '") ++ t ++ "'"
  | endOfText => "<EOF>"
  | invalid _ | cutShort => ""

end QueryTypes

namespace QueryTypes.Token

def isNameStart (c : Char) : Bool := c.isAlpha || c == '_'

def isNameChar (c : Char) : Bool := c.isAlphanum || c == '_'

def isDigit (c : Char) : Bool := '0' ≤ c && c ≤ '9'

def punctuators : List Char := ['!', '$', '&', '(', ')', ':', '=', '@', '[', ']', '\x7b', '|', '\x7d']

/-- How messages show the character at the head of a text. -/
def charText : List Char → String
  | [] => "<EOF>"
  | c :: _ =>
    if 0x20 ≤ c.toNat ∧ c.toNat ≤ 0x7E then "'" ++ c.toString ++ "'"
    else
      let ds := (Nat.toDigits 16 c.toNat).map Char.toUpper
      "U+" ++ String.ofList (List.replicate (4 - ds.length) '0' ++ ds)

/-- A token together with the number of characters it takes. -/
structure Lexeme where
  kind : TokenKind
  size : Nat

/-- No token: the message belongs `size` characters further on. -/
def fail (message : String) (size : Nat) : Lexeme := ⟨.invalid message, size⟩

def badDigit (rest : List Char) (size : Nat) : Lexeme :=
  fail ("Invalid number, expected digit but got: " ++ charText rest ++ ".") size

/-- A run of at least one digit: the number of digits, or none. -/
def digitRun? (s : List Char) : Option Nat :=
  let n := (s.takeWhile isDigit).length
  if n = 0 then none else some n

/-- A number ends where neither a dot nor a name follows. -/
def numberEnd (s : List Char) (isFloat : Bool) (size : Nat) : Lexeme :=
  match s.drop size with
  | c :: _ =>
    if c = '.' ∨ isNameStart c then badDigit (s.drop size) size
    else
      let t := String.ofList (s.take size)
      ⟨if isFloat then .float t else .int t, size⟩
  | [] =>
    let t := String.ofList (s.take size)
    ⟨if isFloat then .float t else .int t, size⟩

def numberPower (s : List Char) (isFloat : Bool) (size : Nat) : Lexeme :=
  match s.drop size with
  | e :: r =>
    if e = 'e' ∨ e = 'E' then
      let signed := match r with
        | '+' :: _ | '-' :: _ => 1
        | _ => 0
      match digitRun? (r.drop signed) with
      | none => badDigit (r.drop signed) (size + 1 + signed)
      | some n => numberEnd s true (size + 1 + signed + n)
    else numberEnd s isFloat size
  | [] => numberEnd s isFloat size

def numberFraction (s : List Char) (size : Nat) : Lexeme :=
  match s.drop size with
  | '.' :: r =>
    match digitRun? r with
    | none => badDigit r (size + 1)
    | some n => numberPower s true (size + 1 + n)
  | _ => numberPower s false size

def number (s : List Char) : Lexeme :=
  let sign := match s with
    | '-' :: _ => 1
    | _ => 0
  match s.drop sign with
  | '0' :: r =>
    match r with
    | c :: _ =>
      if isDigit c then
        fail ("Invalid number, unexpected digit after 0: " ++ charText r ++ ".") (sign + 1)
      else numberFraction s (sign + 1)
    | [] => numberFraction s (sign + 1)
  | r =>
    match digitRun? r with
    | none => badDigit r sign
    | some n => numberFraction s (sign + n)

def isScalarCode (n : Nat) : Bool := n ≤ 0xD7FF || 0xE000 ≤ n && n ≤ 0x10FFFF

def badEscape (s : List Char) (size : Nat) : String :=
  "Invalid Unicode escape sequence: '" ++ String.ofList (s.take size) ++ "'."

/-- What an escape at the head of a text stands for, with its length. -/
inductive Escape
  | char (c : Char) (size : Nat)
  | bad (message : String)
  | cutShort

/-- The digits of a braced escape, from its fourth character on. -/
def bracedEscape (s : List Char) : Nat → Nat → Nat → List Char → Escape
  | 0, _, size, _ => .bad (badEscape s size)
  | _ + 1, _, size, [] => .bad (badEscape s size)
  | n + 1, point, size, c :: r =>
    if c = '\x7d' then
      if size + 1 < 5 ∨ !isScalarCode point then .bad (badEscape s (size + 1))
      else .char (Char.ofNat point) (size + 1)
    else match Text.hexValue? c with
      | some d => bracedEscape s n (point * 16 + d) (size + 1) r
      | none => .bad (badEscape s (size + 1))

/-- Four hexadecimal digits; none inside when the text is too short, an error when one is not
hexadecimal. -/
def fourDigits (s : List Char) : Option (Option Nat) :=
  if s.length < 4 then none else some ((Json.code? s).map Prod.fst)

def numberedEscape (s : List Char) : Escape :=
  match fourDigits (s.drop 2) with
  | none => .cutShort
  | some none => .bad (badEscape s 6)
  | some (some code) =>
    if isScalarCode code then .char (Char.ofNat code) 6
    else if code < 0xDC00 then
      match s.drop 6 with
      | '\\' :: 'u' :: r =>
        match fourDigits r with
        | none => .cutShort
        | some (some low) =>
          if 0xDC00 ≤ low ∧ low ≤ 0xDFFF then
            .char (Char.ofNat (0x10000 + (code - 0xD800) * 0x400 + (low - 0xDC00))) 12
          else .bad (badEscape s 6)
        | some none => .bad (badEscape s 6)
      | [] | ['\\'] => .cutShort
      | _ => .bad (badEscape s 6)
    else .bad (badEscape s 6)

def escape (s : List Char) : Escape :=
  match s with
  | _ :: 'u' :: '\x7b' :: r => bracedEscape s (min 12 s.length - 3) 0 3 r
  | _ :: 'u' :: _ => numberedEscape s
  | _ :: c :: _ =>
    match Json.plainEscape? c with
    | some e => .char e 2
    | none => .bad ("Invalid character escape sequence: '" ++ String.ofList (s.take 2) ++ "'.")
  | _ => .cutShort

/-- The rest of a string after its opening quote. -/
def stringBody : Nat → Nat → List Char → List Char → Lexeme
  | 0, size, _, _ => fail "Unterminated string." size
  | _ + 1, size, _, [] => fail "Unterminated string." size
  | n + 1, size, acc, c :: r =>
    if c = '"' then ⟨.string (String.ofList acc.reverse) false, size + 1⟩
    else if c = '\\' then
      match escape (c :: r) with
      | .char e k => stringBody n (size + k) (e :: acc) ((c :: r).drop k)
      | .bad m => fail m size
      | .cutShort => ⟨.cutShort, size⟩
    else if c = '\n' ∨ c = '\r' then fail "Unterminated string." size
    else stringBody n (size + 1) (c :: acc) r

def indentOf (line : List Char) : Nat := (line.takeWhile fun c => c == ' ' || c == '\t').length

def isEmptyLine (line : List Char) : Bool := indentOf line == line.length

/-- Drops the indentation common to all lines but the first, and empty lines at both ends. -/
def dedent (lines : List (List Char)) : List (List Char) :=
  let common := (((lines.drop 1).filter fun l => !isEmptyLine l).map indentOf).min?
  let cut : List (List Char) := match lines with
    | [] => []
    | l :: r => l :: r.map fun t => t.drop (common.getD t.length)
  let pairs := cut.zip lines
  let inner := pairs.dropWhile fun p => isEmptyLine p.2
  (inner.reverse.dropWhile fun p => isEmptyLine p.2).reverse.map Prod.fst

/-- The rest of a block string after its three quotes. -/
def blockBody : Nat → Nat → List Char → List Char → Lexeme
  | 0, size, _, _ => fail "Unterminated string." size
  | n + 1, size, acc, s =>
    match s with
    | '"' :: '"' :: '"' :: _ =>
      let text := Text.joinOn '\n' (dedent (Text.lines acc.reverse))
      ⟨.string (String.ofList text) true, size + 3⟩
    | '\\' :: '"' :: '"' :: '"' :: r => blockBody n (size + 4) ('"' :: '"' :: '"' :: acc) r
    | c :: r => blockBody n (size + 1) (c :: acc) r
    | [] => fail "Unterminated string." size

/-- The token at the head of a text that starts with neither a blank nor a comment. -/
def lexeme (s : List Char) : Lexeme :=
  match s with
  | [] => ⟨.endOfText, 0⟩
  | '.' :: '.' :: '.' :: _ => ⟨.spread, 3⟩
  | '"' :: '"' :: '"' :: r => blockBody (r.length + 1) 3 [] r
  | '"' :: r => stringBody (r.length + 1) 1 [] r
  | c :: _ =>
    if punctuators.contains c then ⟨.punctuator c, 1⟩
    else if isDigit c ∨ c = '-' then number s
    else if isNameStart c then
      let w := s.takeWhile isNameChar
      ⟨.name (String.ofList w), w.length⟩
    else if c = '\'' then
      fail "Unexpected single quote character ('), did you mean to use a double quote (\")?" 0
    else fail ("Unexpected character: " ++ charText s ++ ".") 0

def isIgnored (c : Char) : Bool :=
  c == ' ' || c == '\t' || c == ',' || c == '\uFEFF' || c == '\n' || c == '\r'

/-- Blanks, commas and comments. -/
def ignored : List Char → Nat
  | [] => 0
  | c :: r =>
    if isIgnored c then ignored r + 1
    else if c = '#' then comment r + 1
    else 0
where
  comment : List Char → Nat
  | [] => 0
  | c :: r => if c = '\n' ∨ c = '\r' then ignored r + 1 else comment r + 1

def scan : Nat → Nat → List Char → List Token
  | 0, _, _ => []
  | n + 1, offset, s =>
    let gap := ignored s
    let s := s.drop gap
    let offset := offset + gap
    let l := lexeme s
    match l.kind with
    | .endOfText => [⟨.endOfText, offset⟩]
    | .invalid m => [⟨.invalid m, offset + l.size⟩]
    | .cutShort => [⟨.cutShort, offset⟩]
    | k => ⟨k, offset⟩ :: scan n (offset + l.size) (s.drop l.size)

def ofText (s : List Char) : List Token := scan (s.length + 1) 0 s

end QueryTypes.Token
