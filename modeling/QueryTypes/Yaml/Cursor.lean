import QueryTypes.Failure

/-! Places in a YAML text, and the kinds of characters that its grammar tells apart. -/

namespace QueryTypes.Yaml

/-- Why a text is no YAML data: it does not follow the grammar, or a value in it breaks down. -/
inductive ReadError
  | malformed
  | breakdown (f : Fault)
deriving DecidableEq, Inhabited

/-- What is left of a text, and how far it has been read. -/
structure Cursor where
  rest : List Char
  index : Nat
  line : Nat
  column : Nat
deriving Repr, Inhabited

namespace Cursor

def ofText (s : List Char) : Cursor := ⟨s, 0, 0, 0⟩

/-- The end of the text counts as a character of its own. -/
def peek (c : Cursor) (n : Nat) : Char := (c.rest[n]?).getD '\x00'

def isBreak (c : Char) : Bool := c == '\n' || c == '\r' || c == '\x85' || c == '\u2028' || c == '\u2029'

/-- The end of a line or of the text. -/
def isEnd (c : Char) : Bool := c == '\x00' || isBreak c

/-- What separates one word from the next. -/
def isGap (c : Char) : Bool := isEnd c || c == ' ' || c == '\t'

def step (c : Cursor) : Cursor :=
  match c.rest with
  | [] => c
  | x :: r =>
    if isBreak x && !(x == '\r' && r.head? == some '\n') then ⟨r, c.index + 1, c.line + 1, 0⟩
    else ⟨r, c.index + 1, c.line, if x == '\uFEFF' then c.column else c.column + 1⟩

def skip (c : Cursor) : Nat → Cursor
  | 0 => c
  | n + 1 => c.step.skip n

/-- The characters that satisfy `p`, and the place behind them. -/
def takeWhile (c : Cursor) (p : Char → Bool) : List Char × Cursor :=
  let cs := c.rest.takeWhile p
  (cs, c.skip cs.length)

def dropWhile (c : Cursor) (p : Char → Bool) : Cursor := (c.takeWhile p).2

/-- The place behind blanks and a comment. -/
def pastComment (c : Cursor) : Cursor :=
  let c := c.dropWhile (· == ' ')
  if c.peek 0 == '#' then c.dropWhile fun x => !isEnd x else c

/-- A line break, read as what it stands for in a value. -/
def lineBreak? (c : Cursor) : Option (Char × Cursor) :=
  match c.rest with
  | '\r' :: '\n' :: _ => some ('\n', c.skip 2)
  | x :: _ =>
    if x == '\n' || x == '\r' || x == '\x85' then some ('\n', c.step)
    else if x == '\u2028' || x == '\u2029' then some (x, c.step)
    else none
  | [] => none

/-- Whether a document starts or ends here: three signs at the start of a line and a gap. -/
def atMark (c : Cursor) (sign : Char) : Bool :=
  c.rest.take 3 == [sign, sign, sign] && isGap (c.peek 3)

def atDocumentMark (c : Cursor) : Bool := c.atMark '-' || c.atMark '.'

end Cursor

/-- Letters, digits, and the two signs that names of anchors, tags and directives may have. -/
def isNameChar (c : Char) : Bool := c.isAlphanum || c == '-' || c == '_'

/-- Characters that a YAML text may hold. -/
def isPrintable (c : Char) : Bool :=
  let n := c.toNat
  n == 0x09 || n == 0x0A || n == 0x0D || (0x20 ≤ n && n ≤ 0x7E) || n == 0x85
    || (0xA0 ≤ n && n ≤ 0xD7FF) || (0xE000 ≤ n && n ≤ 0xFFFD) || 0x10000 ≤ n

end QueryTypes.Yaml
