import QueryTypes.Yaml.Token

/-! The nodes of a YAML document: scalars, sequences and mappings with their tags, and aliases. As an
alias may stand inside the node that it names, a document is a graph: the node that it begins with,
and the nodes that have a name. -/

namespace QueryTypes.Yaml

/-- Without a tag, a plain scalar has the type that its text has, and any other node a usual one.
The tag of one exclamation mark leaves the choice to the text in every case. Sequences and mappings
are numbered. -/
inductive Node
  | scalar (tag : Option String) (plain : Bool) (text : String)
  | sequence (number : Nat) (tag : Option String) (items : List Node)
  | mapping (number : Nat) (tag : Option String) (pairs : List (Node × Node))
  | reference (name : String)
deriving Inhabited

/-- The scalar that stands where a node is left out. -/
def Node.absent : Node := .scalar none true ""

namespace Node

/-- Tokens still to be read and why there are no more, prefixes of tags, and the anchors so far; an
anchor whose node is not complete has none. -/
structure Reading where
  tokens : List Token
  failure : Option ReadError
  handles : List (String × String)
  anchors : List (String × Option Node)

abbrev Parse := StateT Reading (Except ReadError)

def usualHandles : List (String × String) := [("!", "!"), ("!!", "tag:yaml.org,2002:")]

def malformed {α : Type} : Parse α := throw .malformed

/-- The next token; where reading failed there is none to look at. -/
def peek? : Parse (Option Token) := do
  match (← get).tokens, (← get).failure with
  | t :: _, _ => return some t
  | [], some e => throw e
  | [], none => return none

def advance : Parse Unit := modify fun s => { s with tokens := s.tokens.drop 1 }

/-- A number that no later place has. -/
def place : Parse Nat := do return (← get).tokens.length

def isNext (ts : List Token) : Parse Bool := do return (← peek?).any ts.contains

/-- Goes on if the next token is the given one. -/
def accept (t : Token) : Parse Bool := do
  if ← isNext [t] then
    advance
    return true
  else return false

def expect (t : Token) : Parse Unit := do
  if !(← accept t) then malformed

/-- The anchor and the tag in front of a node, in either order. -/
def properties : Parse (Option String × Option (Option String × String)) := do
  match ← peek? with
  | some (.anchor a) =>
    advance
    match ← peek? with
    | some (.tag h s) =>
      advance
      return (some a, some (h, s))
    | _ => return (some a, none)
  | some (.tag h s) =>
    advance
    match ← peek? with
    | some (.anchor a) =>
      advance
      return (some a, some (h, s))
    | _ => return (none, some (h, s))
  | _ => return (none, none)

/-- A tag in full: what its handle stands for, followed by the rest. -/
def fullTag : Option (Option String × String) → Parse (Option String)
  | none => return none
  | some (none, s) => return some s
  | some (some h, s) => do
    match (← get).handles.lookup h with
    | some t => return some (t ++ s)
    | none => malformed

/-- The tag of a node, where one exclamation mark alone is none. -/
def ownTag (t : Option String) : Option String := t.filter fun s => s != "!"

def setAnchor (a : String) (n : Option Node) : Parse Unit :=
  modify fun s => { s with anchors := (a, n) :: s.anchors }

mutual
/-- A node. Only in blocks can a block start here, and only as the value of a key can a sequence
start without being indented. -/
def node (inBlock unindented : Bool) : Nat → Parse Node
  | 0 => malformed
  | n + 1 => do
    match ← peek? with
    | some (.reference a) =>
      advance
      if ((← get).anchors.lookup a).isNone then malformed
      return .reference a
    | _ =>
      let (anchor, tag) ← properties
      let tag ← fullTag tag
      -- what comes next is looked at before the anchor is
      let _ ← peek?
      if let some a := anchor then
        if ((← get).anchors.lookup a).isSome then malformed
        setAnchor a none
      let result ← content inBlock unindented (anchor.isSome || tag.isSome) tag n
      if let some a := anchor then setAnchor a (some result)
      return result

/-- What a node has behind its properties; with some it may be left out. -/
def content (inBlock unindented optional : Bool) (tag : Option String) : Nat → Parse Node
  | 0 => malformed
  | n + 1 => do
    match ← peek? with
    | some (.scalar text plain) =>
      advance
      return .scalar (ownTag tag) (plain && tag.isNone || tag == some "!") text
    | some .openSequence =>
      let number ← place
      advance
      return .sequence number (ownTag tag) (← flowItems true n)
    | some .openMapping =>
      let number ← place
      advance
      return .mapping number (ownTag tag) (← flowPairs true n)
    | t =>
      let number ← place
      if unindented && t == some .entry then
        return .sequence number (ownTag tag) (← unindentedItems n)
      else if inBlock && t == some .blockSequence then
        advance
        return .sequence number (ownTag tag) (← blockItems n)
      else if inBlock && t == some .blockMapping then
        advance
        return .mapping number (ownTag tag) (← blockPairs n)
      else if optional then
        return .scalar (ownTag tag) (tag.isNone || tag == some "!") ""
      else malformed

/-- A node, unless one of the given tokens shows that it is left out. -/
def nodeUnless (stops : List Token) (inBlock unindented : Bool) : Nat → Parse Node
  | 0 => malformed
  | n + 1 => do
    if ← isNext stops then return .absent else node inBlock unindented n

def blockItems : Nat → Parse (List Node)
  | 0 => malformed
  | n + 1 => do
    if ← accept .entry then
      let item ← nodeUnless [.entry, .blockEnd] true false n
      return item :: (← blockItems n)
    else
      expect .blockEnd
      return []

/-- The items of a sequence that is not indented; nothing marks its end. -/
def unindentedItems : Nat → Parse (List Node)
  | 0 => malformed
  | n + 1 => do
    if ← accept .entry then
      let item ← nodeUnless [.entry, .key, .value, .blockEnd] true false n
      return item :: (← unindentedItems n)
    else return []

def blockPairs : Nat → Parse (List (Node × Node))
  | 0 => malformed
  | n + 1 => do
    let stops := [Token.key, .value, .blockEnd]
    if ← accept .key then
      let k ← nodeUnless stops true true n
      let v ← if ← accept .value then nodeUnless stops true true n else pure .absent
      return (k, v) :: (← blockPairs n)
    else
      expect .blockEnd
      return []

def flowItems (first : Bool) : Nat → Parse (List Node)
  | 0 => malformed
  | n + 1 => do
    if ← accept .closeSequence then return []
    if !first then
      expect .comma
    let number ← place
    if ← accept .key then
      let k ← nodeUnless [.value, .comma, .closeSequence] false false n
      let v ← if ← accept .value then nodeUnless [.comma, .closeSequence] false false n
        else pure .absent
      return .mapping number none [(k, v)] :: (← flowItems false n)
    else if ← accept .closeSequence then return []
    else
      let item ← node false false n
      return item :: (← flowItems false n)

def flowPairs (first : Bool) : Nat → Parse (List (Node × Node))
  | 0 => malformed
  | n + 1 => do
    if ← accept .closeMapping then return []
    if !first then
      expect .comma
    if ← accept .key then
      let k ← nodeUnless [.value, .comma, .closeMapping] false false n
      let v ← if ← accept .value then nodeUnless [.comma, .closeMapping] false false n
        else pure .absent
      return (k, v) :: (← flowPairs false n)
    else if ← accept .closeMapping then return []
    else
      let k ← node false false n
      return (k, .absent) :: (← flowPairs false n)
end

/-- Directives in front of a document: one version at most, and one prefix for each handle. -/
def directives : Nat → Bool → List (String × String) → Parse (Bool × List (String × String))
  | 0, _, _ => malformed
  | n + 1, versioned, own => do
    match ← peek? with
    | some (.version major) =>
      if versioned || major != 1 then malformed
      advance
      directives n true own
    | some (.tagPrefix h t) =>
      if (own.lookup h).isSome then malformed
      advance
      directives n versioned ((h, t) :: own)
    | some .otherDirective =>
      advance
      directives n versioned own
    | _ => return (versioned, own)

def isDirective : Option Token → Bool
  | some (.version _) | some (.tagPrefix ..) | some .otherDirective => true
  | _ => false

def skipEnds : Nat → Parse Unit
  | 0 => return
  | n + 1 => do
    if ← accept .documentEnd then skipEnds n

/-- Nothing comes behind the only document of a text: no directives, which are still read, and no
other document. -/
def finish (fuel : Nat) : Parse Unit := do
  skipEnds fuel
  if (← peek?).isSome then
    let _ ← directives fuel false []
    expect .documentStart
    malformed

/-- The only document of a text, if there is one. -/
def single (fuel : Nat) : Parse (Option Node) := do
  let t ← peek?
  if t.isNone then return none
  let explicit := isDirective t || t == some .documentStart
  if explicit then
    skipEnds fuel
    if (← peek?).isNone then return none
    let (_, own) ← directives fuel false []
    modify fun s => { s with handles := own ++ usualHandles }
    expect .documentStart
  let next ← peek?
  let root ←
    if explicit && (next.isNone || isDirective next || next == some .documentStart || next == some .documentEnd)
    then pure .absent else node true false fuel
  finish fuel
  return some root

end Node

/-- A document: the node that it begins with, the nodes that have a name, and a bound on the numbers
of sequences and mappings. -/
structure Graph where
  root : Node
  named : List (String × Node)
  size : Nat

/-- The document of a text, if it has one. -/
def Graph.ofText (s : List Char) : Except ReadError (Option Graph) := do
  let (tokens, failure) := Token.ofText s
  let (root, r) ← (Node.single (4 * tokens.length + 8)).run ⟨tokens, failure, Node.usualHandles, []⟩
  return root.map fun root => ⟨root, r.anchors.filterMap fun a => a.2.map fun n => (a.1, n), tokens.length⟩

end QueryTypes.Yaml
