import QueryTypes.Decimal.Number
import QueryTypes.Yaml.Scalar

/-! Tokens of a YAML text. The start and the end of a block follow from indentation; a key that is
not marked as one is recognised when its colon is found. -/

namespace QueryTypes.Yaml

inductive Token
  | version (major : Nat)
  | tagPrefix (handle target : String)
  | otherDirective
  | documentStart
  | documentEnd
  | blockSequence
  | blockMapping
  | blockEnd
  | openSequence
  | closeSequence
  | openMapping
  | closeMapping
  | entry
  | comma
  | key
  | value
  | reference (name : String)
  | anchor (name : String)
  | tag (handle : Option String) (suffix : String)
  | scalar (text : String) (plain : Bool)
deriving DecidableEq, Repr, Inhabited

namespace Token

/-- A place where a key may have started: its token's number, whether the block needs it to be a
key, and where it stands. -/
structure PossibleKey where
  number : Nat
  required : Bool
  index : Nat
  line : Nat
  column : Nat
deriving Repr

/-- How far tokens have been read. Columns of blocks are counted from one; zero is outside of
every block. The possible keys are those of each open bracket, the innermost first. -/
structure Scan where
  cursor : Cursor
  tokens : Array Token
  indent : Nat
  outer : List Nat
  keyAllowed : Bool
  keys : List (Option PossibleKey)

abbrev Scanning := StateT Scan (Except ReadError)

def malformed {α : Type} : Scanning α := throw .malformed

def emit (t : Token) : Scanning Unit := modify fun s => { s with tokens := s.tokens.push t }

def insertAt (i : Nat) (t : Token) : Scanning Unit :=
  modify fun s => { s with tokens := s.tokens.insertIdxIfInBounds i t }

def moveTo (c : Cursor) : Scanning Unit := modify fun s => { s with cursor := c }

def allowKey (b : Bool) : Scanning Unit := modify fun s => { s with keyAllowed := b }

/-- Whether some bracket is open. -/
def Scan.inFlow (s : Scan) : Bool := 1 < s.keys.length

def Scan.key? (s : Scan) : Option PossibleKey := s.keys.head?.join

def setKey (k : Option PossibleKey) : Scanning Unit :=
  modify fun s => { s with keys := k :: s.keys.drop 1 }

/-- Gives up the possible key of the innermost level, unless it is required. -/
def forgetKey : Scanning Unit := do
  let s ← get
  if s.key?.any PossibleKey.required then malformed
  setKey none

/-- Notes that a key may start here. -/
def noteKey : Scanning Unit := do
  let s ← get
  if s.keyAllowed then
    forgetKey
    let c := s.cursor
    setKey (some ⟨s.tokens.size, !s.inFlow && s.indent == c.column + 1, c.index, c.line, c.column⟩)

/-- A key is on one line and no longer than 1024 characters. -/
def isStale (c : Cursor) (k : PossibleKey) : Bool := k.line != c.line || 1024 < c.index - k.index

def dropStaleKeys : Scanning Unit := do
  let s ← get
  let stale (k : Option PossibleKey) : Bool := k.any (isStale s.cursor)
  if s.keys.any fun k => stale k && k.any PossibleKey.required then malformed
  set { s with keys := s.keys.map fun k => if stale k then none else k }

/-- Ends the blocks that are indented more than a column, counted from one. -/
def endBlocks (column : Nat) : Scanning Unit := do
  let s ← get
  if s.inFlow then return
  let rec go : Nat → List Nat → Array Token → Nat × List Nat × Array Token
    | indent, [], ts => if column < indent then (0, [], ts.push .blockEnd) else (indent, [], ts)
    | indent, o :: os, ts =>
      if column < indent then go o os (ts.push .blockEnd) else (indent, o :: os, ts)
  let (indent, outer, tokens) := go s.indent s.outer s.tokens
  set { s with indent, outer, tokens }

/-- Starts a block at a column, if it is indented more than the one around it. -/
def startBlock (column : Nat) : Scanning Bool := do
  let s ← get
  if s.indent < column + 1 then
    set { s with indent := column + 1, outer := s.indent :: s.outer }
    return true
  else return false

/-- Skips blanks, comments and line ends; behind a line end a key may start. -/
def skipToToken : Nat → Scanning Unit
  | 0 => return
  | n + 1 => do
    let s ← get
    let c := if s.cursor.index == 0 && s.cursor.peek 0 == '\uFEFF' then s.cursor.step else s.cursor
    match c.pastComment.lineBreak? with
    | some (_, c) =>
      moveTo c
      if !s.inFlow then allowKey true
      skipToToken n
    | none => moveTo c.pastComment

/-- Blanks and a comment up to the end of a line. -/
def restOfLine (c : Cursor) : Scanning Unit := do
  let c := c.pastComment
  match c.lineBreak? with
  | some (_, c) => moveTo c
  | none => if c.rest.isEmpty then moveTo c else malformed

def isUriChar (c : Char) : Bool :=
  c.isAlphanum || "-;/?:@&=+$,_.!~*'()[]%".toList.contains c

/-- Bytes written as a percent sign and two digits. -/
def percentBytes : Nat → Cursor → Scanning (List UInt8 × Cursor)
  | 0, c => return ([], c)
  | n + 1, c =>
    if c.peek 0 == '%' then
      match Text.hexValue? (c.peek 1), Text.hexValue? (c.peek 2) with
      | some a, some b => do
        let (bs, c) ← percentBytes n (c.skip 3)
        return (UInt8.ofNat (a * 16 + b) :: bs, c)
      | _, _ => malformed
    else return ([], c)

def uriParts : Nat → Cursor → Scanning (List Char × Cursor)
  | 0, c => return ([], c)
  | n + 1, c =>
    if c.peek 0 == '%' then do
      let (bytes, c) ← percentBytes c.rest.length c
      match String.fromUTF8? ⟨bytes.toArray⟩ with
      | none => malformed
      | some s => do
        let (rest, c) ← uriParts n c
        return (s.toList ++ rest, c)
    else if isUriChar (c.peek 0) then do
      let (rest, d) ← uriParts n c.step
      return (c.peek 0 :: rest, d)
    else return ([], c)

def uri (c : Cursor) : Scanning (String × Cursor) := do
  let (cs, c) ← uriParts (c.rest.length + 1) c
  if cs.isEmpty then malformed
  return (String.ofList cs, c)

/-- An exclamation mark, or a name between two of them. -/
def tagHandle (c : Cursor) : Scanning (String × Cursor) := do
  if c.peek 0 != '!' then malformed
  if c.peek 1 == ' ' then return ("!", c.step)
  let (name, d) := c.step.takeWhile isNameChar
  if d.peek 0 == '!' then return (String.ofList ('!' :: name ++ ['!']), d.step)
  else malformed

def number (c : Cursor) : Scanning (Nat × Cursor) := do
  let (ds, c) := c.takeWhile Char.isDigit
  if ds.isEmpty then malformed
  return (Decimal.ofDigits ds, c)

def directive (c : Cursor) : Scanning Unit := do
  let (name, c) := c.step.takeWhile isNameChar
  if name.isEmpty || !(Cursor.isEnd (c.peek 0) || c.peek 0 == ' ') then malformed
  match String.ofList name with
  | "YAML" =>
    let (major, c) ← number (c.dropWhile (· == ' '))
    if c.peek 0 != '.' then malformed
    let (_, c) ← number c.step
    if !(Cursor.isEnd (c.peek 0) || c.peek 0 == ' ') then malformed
    emit (.version major)
    restOfLine c
  | "TAG" =>
    let (handle, c) ← tagHandle (c.dropWhile (· == ' '))
    if c.peek 0 != ' ' then malformed
    let (target, c) ← uri (c.dropWhile (· == ' '))
    if !(Cursor.isEnd (c.peek 0) || c.peek 0 == ' ') then malformed
    emit (.tagPrefix handle target)
    restOfLine c
  | _ =>
    emit .otherDirective
    restOfLine (c.dropWhile fun x => !Cursor.isEnd x)

/-- Ends all blocks in front of a directive or the mark of a document. -/
def endDocumentBlocks : Scanning Unit := do
  endBlocks 0
  forgetKey
  allowKey false

def openBracket (t : Token) : Scanning Unit := do
  noteKey
  emit t
  modify fun s => { s with cursor := s.cursor.step, keys := none :: s.keys, keyAllowed := true }

def closeBracket (t : Token) : Scanning Unit := do
  forgetKey
  let s ← get
  if !s.inFlow then malformed
  set { s with cursor := s.cursor.step, keys := s.keys.drop 1, keyAllowed := false, tokens := s.tokens.push t }

def blockEntry : Scanning Unit := do
  let s ← get
  if !s.inFlow then
    if !s.keyAllowed then malformed
    if ← startBlock s.cursor.column then emit .blockSequence
  allowKey true
  forgetKey
  moveTo s.cursor.step
  emit .entry

def markedKey : Scanning Unit := do
  let s ← get
  if !s.inFlow then
    if !s.keyAllowed then malformed
    if ← startBlock s.cursor.column then emit .blockMapping
  allowKey (!s.inFlow)
  forgetKey
  moveTo s.cursor.step
  emit .key

/-- A colon makes a key of what stands before it. -/
def keyValue : Scanning Unit := do
  let s ← get
  match s.key? with
  | some k =>
    setKey none
    insertAt k.number .key
    if !s.inFlow then
      if ← startBlock k.column then insertAt k.number .blockMapping
    allowKey false
  | none =>
    if !s.inFlow then
      if !s.keyAllowed then malformed
      if ← startBlock s.cursor.column then emit .blockMapping
    allowKey (!s.inFlow)
    forgetKey
  moveTo s.cursor.step
  emit .value

/-- The name of an anchor or an alias. -/
def anchorName : Scanning String := do
  noteKey
  allowKey false
  let s ← get
  let (name, c) := s.cursor.step.takeWhile isNameChar
  let next := c.peek 0
  if name.isEmpty || !(Cursor.isGap next || "?:,]\x7d%@\x60".toList.contains next) then malformed
  moveTo c
  return String.ofList name

def tagToken : Scanning Unit := do
  noteKey
  allowKey false
  let c := (← get).cursor
  let (t, c) ←
    if c.peek 1 == '<' then do
      let (s, c) ← uri (c.skip 2)
      if c.peek 0 != '>' then malformed
      pure (Token.tag none s, c.step)
    else if Cursor.isGap (c.peek 1) then pure (Token.tag none "!", c.step)
    else do
      let word := c.step.rest.takeWhile fun x => !(Cursor.isEnd x || x == ' ')
      let (h, c) ← if word.contains '!' then tagHandle c else pure ("!", c.step)
      let (s, c) ← uri c
      pure (Token.tag (some h) s, c)
  if !(Cursor.isEnd (c.peek 0) || c.peek 0 == ' ') then malformed
  moveTo c
  emit t

def blockScalar (fold : Bool) : Scanning Unit := do
  allowKey true
  forgetKey
  let s ← get
  let (text, c) ← block fold s.indent s.cursor.step
  moveTo c
  emit (.scalar (String.ofList text) false)

def quotedScalar : Scanning Unit := do
  noteKey
  allowKey false
  let (text, c) ← quoted (← get).cursor
  moveTo c
  emit (.scalar (String.ofList text) false)

def plainScalar : Scanning Unit := do
  noteKey
  let s ← get
  let (text, ended, c) := plain s.inFlow s.indent (s.cursor.rest.length + 1) [] false s.cursor
  allowKey ended
  moveTo c
  emit (.scalar (String.ofList text) true)

/-- Signs that start no plain scalar. -/
def signs : List Char := "-?:,[]\x7b\x7d#&*!|>'\"%@\x60".toList

def startsPlain (inFlow : Bool) (c : Cursor) : Bool :=
  let x := c.peek 0
  !(Cursor.isGap x || signs.contains x)
    || !Cursor.isGap (c.peek 1) && (x == '-' || !inFlow && (x == '?' || x == ':'))

/-- Reads the next token, with those that its place entails; false at the end of the text. -/
def next : Scanning Bool := do
  skipToToken ((← get).cursor.rest.length + 1)
  dropStaleKeys
  endBlocks ((← get).cursor.column + 1)
  let s ← get
  let c := s.cursor
  let gap := Cursor.isGap (c.peek 1)
  match c.rest with
  | [] =>
    endBlocks 0
    forgetKey
    return false
  | x :: _ =>
    if c.column == 0 && x == '%' then
      endDocumentBlocks
      directive c
    else if c.column == 0 && c.atMark '-' then
      endDocumentBlocks
      moveTo (c.skip 3)
      emit .documentStart
    else if c.column == 0 && c.atMark '.' then
      endDocumentBlocks
      moveTo (c.skip 3)
      emit .documentEnd
    else if x == '[' then openBracket .openSequence
    else if x == '\x7b' then openBracket .openMapping
    else if x == ']' then closeBracket .closeSequence
    else if x == '\x7d' then closeBracket .closeMapping
    else if x == ',' then
      allowKey true
      forgetKey
      moveTo c.step
      emit .comma
    else if x == '-' && gap then blockEntry
    else if x == '?' && (s.inFlow || gap) then markedKey
    else if x == ':' && (s.inFlow || gap) then keyValue
    else if x == '*' then emit (.reference (← anchorName))
    else if x == '&' then emit (.anchor (← anchorName))
    else if x == '!' then tagToken
    else if (x == '|' || x == '>') && !s.inFlow then blockScalar (x == '>')
    else if x == '\'' || x == '"' then quotedScalar
    else if startsPlain s.inFlow c then plainScalar
    else malformed
    return true

/-- How many tokens cannot change any more: what may still turn out to be a key holds back its own
and those behind it. -/
def Scan.settled (s : Scan) : Nat :=
  (s.keys.filterMap id).foldl (fun n k => if isStale s.cursor k then n else min n k.number)
    s.tokens.size

/-- The tokens up to the end, or the settled ones up to where reading fails, and how it fails. -/
def all : Nat → Scan → List Token × Option ReadError
  | 0, s => (s.tokens.toList, none)
  | n + 1, s =>
    match next.run s with
    | .error e => (s.tokens.toList.take s.settled, some e)
    | .ok (true, s) => all n s
    | .ok (false, s) => (s.tokens.toList, none)

/-- The tokens of a text, which may hold printable characters only. -/
def ofText (s : List Char) : List Token × Option ReadError :=
  if s.all isPrintable then all (s.length + 2) ⟨Cursor.ofText s, #[], 0, [], true, [none]⟩
  else ([], some .malformed)

end Token
end QueryTypes.Yaml
