/-! Cutting and joining of text, as lists of characters: fields between separators, lines, runs
between blanks. Every function is total and loses nothing but what it is said to drop. -/

namespace QueryTypes.Text

/-- The fields between the separators; there is always one more field than separators. -/
def splitOn (sep : Char) : List Char → List (List Char)
  | [] => [[]]
  | c :: r =>
    if c = sep then [] :: splitOn sep r
    else match splitOn sep r with
      | [] => [[c]]
      | f :: fs => (c :: f) :: fs

/-- The inverse of `splitOn`. -/
def joinOn (sep : Char) : List (List Char) → List Char
  | [] => []
  | [f] => f
  | f :: fs => f ++ sep :: joinOn sep fs

theorem splitOn_ne_nil (sep : Char) (s : List Char) : splitOn sep s ≠ [] := by
  cases s with
  | nil => simp [splitOn]
  | cons c r =>
    simp only [splitOn]
    split
    · simp
    · split <;> simp

theorem joinOn_splitOn (sep : Char) (s : List Char) : joinOn sep (splitOn sep s) = s := by
  induction s with
  | nil => rfl
  | cons c r ih =>
    simp only [splitOn]
    split
    next h =>
      cases hs : splitOn sep r with
      | nil => exact absurd hs (splitOn_ne_nil sep r)
      | cons f fs => rw [hs] at ih; simp [joinOn, ih, h]
    next h =>
      cases hs : splitOn sep r with
      | nil => exact absurd hs (splitOn_ne_nil sep r)
      | cons f fs =>
        rw [hs] at ih
        cases fs with
        | nil => simp_all [joinOn]
        | cons g gs => simp_all [joinOn]

def split (sep : Char) (s : String) : List String :=
  (splitOn sep s.toList).map String.ofList

/-- The text before the first occurrence of a character and the text after it, or none. -/
def cut? (sep : Char) : List Char → Option (List Char × List Char)
  | [] => none
  | c :: r => if c = sep then some ([], r) else (cut? sep r).map fun p => (c :: p.1, p.2)

/-- Drops the characters that satisfy `p` from both ends. -/
def trimBy (p : Char → Bool) (s : List Char) : List Char :=
  ((s.dropWhile p).reverse.dropWhile p).reverse

/-- Reads the three line ends, CR LF, CR and LF, as LF. -/
def unifyLines : List Char → List Char
  | '\r' :: '\n' :: r => '\n' :: unifyLines r
  | '\r' :: r => '\n' :: unifyLines r
  | c :: r => c :: unifyLines r
  | [] => []

/-- The lines of a text, ended by CR LF, CR or LF; a final line end opens one more, empty line. -/
def lines (s : List Char) : List (List Char) := splitOn '\n' (unifyLines s)

/-- What follows `p` in `s`, when `s` starts with it. -/
def after? (p s : List Char) : Option (List Char) :=
  if p.isPrefixOf s then some (s.drop p.length) else none

/-- Replaces every occurrence of `old`, from the left and without overlap. -/
def replace (old new : List Char) (s : List Char) : List Char :=
  go s.length s
where
  go : Nat → List Char → List Char
  | 0, s => s
  | _ + 1, [] => []
  | n + 1, c :: r =>
    match after? old (c :: r) with
    | some rest => new ++ go n rest
    | none => c :: go n r

/-- Characters that end a line in the widest sense. -/
def isLineEnd (c : Char) : Bool :=
  [0x0A, 0x0B, 0x0C, 0x0D, 0x1C, 0x1D, 0x1E, 0x85, 0x2028, 0x2029].contains c.toNat

/-- The lines of a text in the widest sense; a final line end opens no further line. -/
def endedLines (s : List Char) : List (List Char) :=
  go [] (replace ['\r', '\n'] ['\n'] s)
where
  go (acc : List Char) : List Char → List (List Char)
  | [] => if acc.isEmpty then [] else [acc.reverse]
  | c :: r => if isLineEnd c then acc.reverse :: go [] r else go (c :: acc) r

/-- Whether `p` occurs in `s`. -/
def occurs (p : List Char) : List Char → Bool
  | [] => p.isEmpty
  | c :: r => p.isPrefixOf (c :: r) || occurs p r

def hexDigit (n : Nat) : Char :=
  if n < 10 then Char.ofNat (48 + n) else Char.ofNat (87 + n)

/-- `width` lower-case hexadecimal digits, the lowest ones of `n`. -/
def hex (width n : Nat) : List Char :=
  (List.range width).reverse.map fun i => hexDigit (n / Nat.pow 16 i % 16)

/-- The value of a hexadecimal digit of either case. -/
def hexValue? (c : Char) : Option Nat :=
  if '0' ≤ c ∧ c ≤ '9' then some (c.toNat - 48)
  else if 'a' ≤ c ∧ c ≤ 'f' then some (c.toNat - 87)
  else if 'A' ≤ c ∧ c ≤ 'F' then some (c.toNat - 55)
  else none

/-- Sorts by code point; equal texts keep their order. -/
def sorted (xs : List String) : List String :=
  xs.mergeSort fun a b => !(decide (b < a))

/-- Pads on the left with spaces to at least `width` characters. -/
def padLeft (width : Nat) (s : String) : String :=
  String.ofList (List.replicate (width - s.length) ' ') ++ s

def joinWith (sep : String) (xs : List String) : String := String.intercalate sep xs

end QueryTypes.Text
