import QueryTypes.Yaml.Cursor

/-! The three ways to write a scalar: plain, in quotes, and as a block of lines. Where a line is
folded, a single break counts as a space and further breaks count as themselves. -/

namespace QueryTypes.Yaml

/-- What a folded line break and the breaks behind it stand for. -/
def folded (first : Char) (more : List Char) : List Char :=
  (if first != '\n' then [first] else if more.isEmpty then [' '] else []) ++ more

/-- Line breaks with blanks before each of them. -/
def breaks (blank : Char → Bool) (refuseMarks : Bool) : Nat → Cursor → Except ReadError (List Char × Cursor)
  | 0, c => .ok ([], c)
  | n + 1, c =>
    if refuseMarks && c.atDocumentMark then .error .malformed
    else
      let c := c.dropWhile blank
      match c.lineBreak? with
      | none => .ok ([], c)
      | some (b, c) => do
        let (bs, c) ← breaks blank refuseMarks n c
        return (b :: bs, c)

def isInlineBlank (c : Char) : Bool := c == ' ' || c == '\t'

def plainEscapes : List (Char × Char) := [
  ('0', '\x00'), ('a', '\x07'), ('b', '\x08'), ('t', '\t'), ('\t', '\t'), ('n', '\n'),
  ('v', '\x0b'), ('f', '\x0c'), ('r', '\r'), ('e', '\x1b'), (' ', ' '), ('"', '"'),
  ('\\', '\\'), ('/', '/'), ('N', '\x85'), ('_', '\u00a0'), ('L', '\u2028'), ('P', '\u2029')]

def codeEscapes : List (Char × Nat) := [('x', 2), ('u', 4), ('U', 8)]

/-- What is said of a code beyond the last character. -/
def beyondLast (code : Nat) : Fault :=
  if 0x7FFFFFFF < code then .unexpected "signed integer is greater than maximum"
  else .badValue "chr() arg not in range(0x110000)"

/-- The character that some hexadecimal digits name. -/
def codeChar (digits : List Char) : Except ReadError Char := do
  let values ← digits.mapM fun d => (Text.hexValue? d).elim (.error .malformed) .ok
  let code := values.foldl (fun n v => n * 16 + v) 0
  if 0x10FFFF < code then .error (.breakdown (beyondLast code))
  else .ok (if 0xD800 ≤ code ∧ code < 0xE000 then '\uFFFD' else Char.ofNat code)

/-- The rest of a quoted scalar. -/
def quotedBody (double : Bool) : Nat → Cursor → Except ReadError (List Char × Cursor)
  | 0, _ => .error .malformed
  | n + 1, c =>
    match c.rest with
    | [] => .error .malformed
    | x :: r =>
      let more (cs : List Char) (c : Cursor) : Except ReadError (List Char × Cursor) := do
        let (rest, c) ← quotedBody double n c
        return (cs ++ rest, c)
      if x == '\'' && !double then
        if r.head? == some '\'' then more ['\''] (c.skip 2) else .ok ([], c.step)
      else if x == '"' && double then .ok ([], c.step)
      else if x == '\\' && double then
        let c := c.step
        let e := c.peek 0
        match plainEscapes.lookup e, codeEscapes.lookup e with
        | some y, _ => if c.rest.isEmpty then .error .malformed else more [y] c.step
        | none, some width => do
          let digits := c.step.rest.take width
          if digits.length < width then throw .malformed
          more [← codeChar digits] (c.step.skip width)
        | none, none =>
          match c.lineBreak? with
          | none => .error .malformed
          | some (_, c) => do
            let (bs, c) ← breaks isInlineBlank true c.rest.length c
            more bs c
      else if isInlineBlank x || Cursor.isBreak x then
        let (blanks, c) := c.takeWhile isInlineBlank
        match c.lineBreak? with
        | some (b, c) => do
          let (bs, c) ← breaks isInlineBlank true (c.rest.length + 1) c
          more (folded b bs) c
        | none => if c.rest.isEmpty then .error .malformed else more blanks c
      else more [x] c.step

/-- A scalar between quotes; the cursor stands on the first one. -/
def quoted (c : Cursor) : Except ReadError (List Char × Cursor) :=
  quotedBody (c.peek 0 == '"') (c.rest.length + 1) c.step

/-- Whether a plain scalar ends before a character. -/
def endsPlain (inFlow : Bool) (x next : Char) : Bool :=
  Cursor.isGap x
    || x == ':' && (Cursor.isGap next || inFlow && [',', '[', ']', '\x7b', '\x7d'].contains next)
    || inFlow && [',', '?', '[', ']', '\x7b', '\x7d'].contains x

/-- The characters of a plain scalar up to the next gap. -/
def plainRun (inFlow : Bool) : List Char → List Char
  | [] => []
  | x :: r => if endsPlain inFlow x (r.head?.getD '\x00') then [] else x :: plainRun inFlow r

/-- The breaks behind a folded line of a plain scalar; none where a document ends. -/
def plainBreaks : Nat → Cursor → Option (List Char) × Cursor
  | 0, c => (some [], c)
  | n + 1, c =>
    let c := c.dropWhile (· == ' ')
    match c.lineBreak? with
    | none => (some [], c)
    | some (b, c) =>
      if c.atDocumentMark then (none, c)
      else match plainBreaks n c with
        | (some bs, c) => (some (b :: bs), c)
        | (none, c) => (none, c)

/-- What stands between two words of a plain scalar, whether a line ended, and the next place. -/
def plainGap (c : Cursor) : List Char × Bool × Cursor :=
  let (blanks, c) := c.takeWhile (· == ' ')
  match c.lineBreak? with
  | none => (blanks, false, c)
  | some (b, c) =>
    if c.atDocumentMark then ([], true, c)
    else match plainBreaks (c.rest.length + 1) c with
      | (some bs, c) => (folded b bs, true, c)
      | (none, c) => ([], true, c)

/-- A plain scalar that goes on over lines which are indented enough, and whether a line ended
behind it. -/
def plain (inFlow : Bool) (indent : Nat) : Nat → List Char → Bool → Cursor → List Char × Bool × Cursor
  | 0, _, ended, c => ([], ended, c)
  | n + 1, gap, ended, c =>
    if c.peek 0 == '#' then ([], ended, c)
    else
      let run := plainRun inFlow c.rest
      if run.isEmpty then ([], ended, c)
      else
        let (next, lineEnded, c) := plainGap (c.skip run.length)
        if next.isEmpty || c.peek 0 == '#' || !inFlow && c.column < indent then
          (gap ++ run, lineEnded, c)
        else
          let (rest, ended, c) := plain inFlow indent n next lineEnded c
          (gap ++ run ++ rest, ended, c)

/-- What becomes of the line breaks at the end of a block. -/
inductive Chomp
  | clip
  | strip
  | keep
deriving DecidableEq, Repr

def chomp? : Char → Option Chomp
  | '+' => some .keep
  | '-' => some .strip
  | _ => none

def indentDigit? (c : Char) : Option Nat := if c.isDigit then some (c.toNat - 48) else none

/-- The signs for chomping and indentation, in either order, and the place behind them. -/
def blockMarks (c : Cursor) : (Chomp × Option Nat) × Cursor :=
  match chomp? (c.peek 0), indentDigit? (c.peek 0) with
  | some k, _ =>
    match indentDigit? (c.peek 1) with
    | some d => ((k, some d), c.skip 2)
    | none => ((k, none), c.step)
  | none, some d =>
    match chomp? (c.peek 1) with
    | some k => ((k, some d), c.skip 2)
    | none => ((.clip, some d), c.step)
  | none, none => ((.clip, none), c)

/-- The signs behind the start of a block; the line has nothing else but a comment. -/
def blockSigns (c : Cursor) : Except ReadError ((Chomp × Option Nat) × Cursor) := do
  let (marks, c) := blockMarks c
  if marks.2 == some 0 then throw .malformed
  let c := c.pastComment
  match c.lineBreak? with
  | some (_, c) => return (marks, c)
  | none => if c.rest.isEmpty then return (marks, c) else throw .malformed

/-- Leading lines without text, and the widest of them: it may fix the indentation. -/
def blockLead : Nat → Nat → Cursor → List Char × Nat × Cursor
  | 0, width, c => ([], width, c)
  | n + 1, width, c =>
    if c.peek 0 == ' ' then
      let c := c.step
      blockLead n (max width c.column) c
    else match c.lineBreak? with
      | some (b, c) =>
        let (bs, width, c) := blockLead n width c
        (b :: bs, width, c)
      | none => ([], width, c)

def skipIndent (indent : Nat) : Nat → Cursor → Cursor
  | 0, c => c
  | n + 1, c => if c.column < indent && c.peek 0 == ' ' then skipIndent indent n c.step else c

/-- Empty lines of a block, each up to its indentation. -/
def blockBreaks (indent : Nat) : Nat → Cursor → List Char × Cursor
  | 0, c => ([], c)
  | n + 1, c =>
    let c := skipIndent indent indent c
    match c.lineBreak? with
    | some (b, c) =>
      let (bs, c) := blockBreaks indent n c
      (b :: bs, c)
    | none => ([], c)

/-- The lines of a block with what separates them, and the breaks at its end. -/
def blockLines (fold : Bool) (indent : Nat) :
    Nat → List Char → Cursor → List Char × Option Char × List Char × Cursor
  | 0, lead, c => ([], none, lead, c)
  | n + 1, lead, c =>
    if c.column != indent || c.rest.isEmpty then ([], none, lead, c)
    else
      let flush := !isInlineBlank (c.peek 0)
      let (text, c) := c.takeWhile fun x => !Cursor.isEnd x
      let (last, c) := match c.lineBreak? with
        | some (b, c) => (some b, c)
        | none => (none, c)
      let (bs, c) := blockBreaks indent (c.rest.length + 1) c
      if c.column == indent && !c.rest.isEmpty then
        let joint :=
          if fold && last == some '\n' && flush && !isInlineBlank (c.peek 0) then
            (if bs.isEmpty then [' '] else [])
          else last.toList
        let (rest, end_, tail, c) := blockLines fold indent n bs c
        (lead ++ text ++ joint ++ rest, end_, tail, c)
      else (lead ++ text, last, bs, c)

/-- A block scalar; the cursor stands behind its first sign. `outer` is the column of the block
around it, counted from one. -/
def block (fold : Bool) (outer : Nat) (c : Cursor) : Except ReadError (List Char × Cursor) := do
  let ((chomp, digit), c) ← blockSigns c
  let least := max outer 1
  let (indent, lead, c) := match digit with
    | some d =>
      let indent := least + d - 1
      let (bs, c) := blockBreaks indent (c.rest.length + 1) c
      (indent, bs, c)
    | none =>
      let (bs, width, c) := blockLead (c.rest.length + 1) 0 c
      (max least width, bs, c)
  let (text, last, tail, c) := blockLines fold indent (c.rest.length + 1) lead c
  let ending := match chomp with
    | .strip => []
    | .clip => last.toList
    | .keep => last.toList ++ tail
  return (text ++ ending, c)

end QueryTypes.Yaml
