import QueryTypes.Document.Printer
import QueryTypes.Document.Reach
import QueryTypes.Validation.Visit

/-! Fields with one response key have to give one result: the same field with the same arguments
unless no object can have both, types of one form, and blocks below them that go together. Pairs
of fragments are compared once. Blocks that read the same at the same offsets count as one block,
so what the first of them selects stands for all. -/

namespace QueryTypes.Merge

/-- A selected field, the type that it is selected on, and its definition there. -/
structure Choice where
  parent : Option NamedType
  head : FieldHead
  selections : List Selection
  field : Option Field
deriving Inhabited

/-- How a block reads and where its selections start. -/
structure Stamp where
  text : List String
  offsets : List Nat
deriving DecidableEq, Inhabited

/-- The fields of a block by response key, and the fragments spread in it, inline fragments
being taken as part of the block. -/
structure Block where
  stamp : Stamp
  fields : Table (List Choice)
  spreads : List String
deriving Inhabited

/-- Why two fields of a key conflict. -/
inductive Reason
  | because (key text : String)
  | nested (key : String) (reasons : List Reason)
deriving Inhabited

/-- Two groups of fields that do not go together. -/
structure Conflict where
  reason : Reason
  first : List (Option Origin)
  second : List (Option Origin)
deriving Inhabited

/-- Pairs of fragments that were compared, with whether no object can have both; and the blocks met
so far. -/
structure Memo where
  compared : List ((String × String) × Bool)
  blocks : List Block
deriving Inhabited

def Reason.key : Reason → String
  | because k _ | nested k _ => k

mutual
def Reason.text : Reason → String
  | .because _ t => t
  | .nested _ rs => Text.joinWith " and " (Reason.texts rs)

def Reason.texts : List Reason → List String
  | [] => []
  | r :: rs => ("subfields '" ++ r.key ++ "' conflict because " ++ r.text) :: Reason.texts rs
end

mutual
/-- A literal with the fields of its objects in order. -/
def ordered : Value → Value
  | .list vs o => .list (orderedItems vs) o
  | .object fs o => .object ((orderedFields fs).mergeSort fun a b => !(decide (b.1.text < a.1.text))) o
  | v => v

def orderedItems : List Value → List Value
  | [] => []
  | v :: r => ordered v :: orderedItems r

def orderedFields : List (Name × Value) → List (Name × Value)
  | [] => []
  | (n, v) :: r => (n, ordered v) :: orderedFields r
end

def sameArguments (as bs : List Argument) : Bool :=
  as.length == bs.length && as.all fun a =>
    match bs.reverse.find? (·.name.text == a.name.text) with
    | some b => Printer.value (ordered a.value) == Printer.value (ordered b.value)
    | none => false

/-- Whether types differ in form, or are different types of which one has no fields. -/
def typesConflict (s : Schema) : TypeRef → TypeRef → Bool
  | .named a ra, .named b rb =>
    let isLeaf (n : String) : Bool := (s.type? n).any NamedType.isLeaf
    ra != rb || (isLeaf a || isLeaf b) && a != b
  | .list a ra, .list b rb => ra != rb || typesConflict s a b
  | _, _ => true

/-- Whether no object can be of both types. -/
def apart (a b : Option NamedType) : Bool :=
  match a, b with
  | some a, some b => a.name != b.name && a.isObject && b.isObject
  | _, _ => false

mutual
def offsets : Selection → List Nat
  | .field h _ ss => start h.origin ++ allOffsets ss
  | .spread _ _ o => start o
  | .inline _ _ ss o => start o ++ allOffsets ss

def allOffsets : List Selection → List Nat
  | [] => []
  | s :: r => offsets s ++ allOffsets r

/-- The offset of an origin. -/
def start (o : Option Origin) : List Nat := o.toList.map Origin.offset
end

mutual
def choices (s : Schema) (parent : Option NamedType) : Selection → List Choice × List String
  | .field h _ ss => ([⟨parent, h, ss, parent.bind fun p => p.field? h.name⟩], [])
  | .spread n _ _ => ([], [n.text])
  | .inline c _ ss _ => allChoices s (match c with
      | some n => s.type? n.text
      | none => parent) ss

def allChoices (s : Schema) (parent : Option NamedType) : List Selection → List Choice × List String
  | [] => ([], [])
  | sel :: r =>
    let (cs, ns) := choices s parent sel
    let (ds, ms) := allChoices s parent r
    (cs ++ ds, ns ++ ms)
end

/-- Fields with one key, in the order in which keys come first. -/
def byKey (cs : List Choice) : Table (List Choice) :=
  (cs.map fun c => c.head.key).eraseDups.map fun k => (k, cs.filter fun c => c.head.key == k)

abbrev Merging := StateM Memo

/-- A block on a type, as it was when it was first met. -/
def blockOf (s : Schema) (parent : Option NamedType) (ss : List Selection) : Merging Block := do
  let stamp : Stamp := ⟨Printer.selections ss, allOffsets ss⟩
  match (← get).blocks.find? (·.stamp = stamp) with
  | some b => return b
  | none =>
    let (cs, ns) := allChoices s parent ss
    let b : Block := ⟨stamp, byKey cs, ns.eraseDups⟩
    modify fun m => { m with blocks := b :: m.blocks }
    return b

def pairKey (a b : String) : String × String := if a < b then (a, b) else (b, a)

/-- Notes that two fragments are compared, and whether they were compared before as strictly. -/
def comparedBefore (a b : String) (exclusive : Bool) : Merging Bool := do
  let m ← get
  match m.compared.lookup (pairKey a b) with
  | some old =>
    if exclusive || !old then return true
    set { m with compared := (pairKey a b, exclusive) :: m.compared }
    return false
  | none =>
    set { m with compared := (pairKey a b, exclusive) :: m.compared }
    return false

/-- The conflicts of several comparisons, one after the other. -/
def gather {α : Type} (xs : List α) (f : α → Merging (List Conflict)) : Merging (List Conflict) := do
  return (← xs.mapM f).flatten

/-- Each item with the later ones. -/
def withLater {α : Type} : List α → List (α × List α)
  | [] => []
  | x :: r => (x, r) :: withLater r

def fragmentBlock? (s : Schema) (table : Table Fragment) (name : String) : Merging (Option Block) := do
  match table.get? name with
  | none => return none
  | some f => return some (← blockOf s (s.type? f.condition.text) f.selections)

/-- What is to be compared. If something is exclusive, no object can have both sides of it, so that
only the forms of types matter. -/
inductive Comparison
  | fields (exclusive : Bool) (key : String) (a b : Choice)
  | blockWithFragment (exclusive : Bool) (b : Block) (fragment : String)
  | fragments (exclusive : Bool) (a b : String)

/-- How further comparisons are done. -/
abbrev Comparing := Comparison → Merging (List Conflict)

/-- Compares the fields of two blocks key by key. -/
def between (compare : Comparing) (exclusive : Bool) (x y : Block) : Merging (List Conflict) :=
  gather x.fields fun g => gather g.2 fun a =>
    gather ((y.fields.get? g.1).getD []) fun b => compare (.fields exclusive g.1 a b)

/-- Compares the blocks below two fields, with the fragments spread in them. -/
def belowFields (s : Schema) (compare : Comparing) (exclusive : Bool) (a b : Choice) :
    Merging (List Conflict) := do
  let typeOf (c : Choice) : Option NamedType := c.field.bind fun f => s.type? f.type.leaf
  let x ← blockOf s (typeOf a) a.selections
  let y ← blockOf s (typeOf b) b.selections
  let own ← between compare exclusive x y
  let right ← gather y.spreads fun n => compare (.blockWithFragment exclusive x n)
  let left ← gather x.spreads fun n => compare (.blockWithFragment exclusive y n)
  let both ← gather x.spreads fun n => gather y.spreads fun m => compare (.fragments exclusive n m)
  return own ++ right ++ left ++ both

/-- Why two fields with one key differ in themselves. -/
def ownConflict? (s : Schema) (exclusive : Bool) (a b : Choice) : Option String :=
  if !exclusive && a.head.name != b.head.name then
    some ("'" ++ a.head.name ++ "' and '" ++ b.head.name ++ "' are different fields")
  else if !exclusive && !sameArguments a.head.arguments b.head.arguments then
    some "they have differing arguments"
  else match a.field, b.field with
    | some f, some g =>
      if typesConflict s f.type g.type then
        some ("they return conflicting types '" ++ f.type.text ++ "' and '" ++ g.type.text ++ "'")
      else none
    | _, _ => none

def compareFields (s : Schema) (compare : Comparing) (exclusive : Bool) (key : String)
    (a b : Choice) : Merging (List Conflict) := do
  let exclusive := exclusive || apart a.parent b.parent
  match ownConflict? s exclusive a b with
  | some text => return [⟨.because key text, [a.head.origin], [b.head.origin]⟩]
  | none =>
    if a.selections.isEmpty || b.selections.isEmpty then return []
    let found ← belowFields s compare exclusive a b
    if found.isEmpty then return []
    return [⟨.nested key (found.map Conflict.reason),
      a.head.origin :: found.flatMap Conflict.first, b.head.origin :: found.flatMap Conflict.second⟩]

def compareWithFragment (s : Schema) (table : Table Fragment) (compare : Comparing)
    (exclusive : Bool) (x : Block) (name : String) : Merging (List Conflict) := do
  match ← fragmentBlock? s table name with
  | none => return []
  | some y =>
    if x.stamp = y.stamp then return []
    let own ← between compare exclusive x y
    let further ← gather y.spreads fun m => do
      if ← comparedBefore m name exclusive then return []
      compare (.blockWithFragment exclusive x m)
    return own ++ further

def compareFragments (s : Schema) (table : Table Fragment) (compare : Comparing)
    (exclusive : Bool) (a b : String) : Merging (List Conflict) := do
  if a = b then return []
  if ← comparedBefore a b exclusive then return []
  if !table.has a || !table.has b then return []
  match ← fragmentBlock? s table a, ← fragmentBlock? s table b with
  | some x, some y =>
    let own ← between compare exclusive x y
    let right ← gather y.spreads fun m => compare (.fragments exclusive a m)
    let left ← gather x.spreads fun m => compare (.fragments exclusive m b)
    return own ++ right ++ left
  | _, _ => return []

/-- Compares, with at most the given number of comparisons inside one another. -/
def compare (s : Schema) (table : Table Fragment) : Nat → Comparing
  | 0, _ => pure []
  | n + 1, .fields exclusive key a b => compareFields s (compare s table n) exclusive key a b
  | n + 1, .blockWithFragment exclusive x name =>
    compareWithFragment s table (compare s table n) exclusive x name
  | n + 1, .fragments exclusive a b => compareFragments s table (compare s table n) exclusive a b

/-- Compares a block with itself and with the fragments spread in it. -/
def within (s : Schema) (compare : Comparing) (parent : Option NamedType) (ss : List Selection) :
    Merging (List Conflict) := do
  let b ← blockOf s parent ss
  let own ← gather b.fields fun g => gather (withLater g.2) fun p =>
    gather p.2 fun other => compare (.fields false g.1 p.1 other)
  let spread ← gather (withLater b.spreads) fun p => do
    let alone ← compare (.blockWithFragment false b p.1)
    let others ← gather p.2 fun m => compare (.fragments false p.1 m)
    return alone ++ others
  return own ++ spread

def Conflict.diagnostic (c : Conflict) : Diagnostic :=
  ⟨"Fields '" ++ c.reason.key ++ "' conflict because " ++ c.reason.text
    ++ ". Use different aliases on the fields to fetch both if this was intentional.",
    (c.first ++ c.second).filterMap id⟩

/-- More comparisons than are ever inside one another in a document. -/
def depth (d : Document) : Nat :=
  let all := Selection.weights (d.operations.flatMap Operation.selections)
    + Selection.weights (d.fragments.flatMap Fragment.selections)
  (2 * all + 2) * (d.fragments.length * d.fragments.length + 2)

/-- The conflicts within one block. -/
def fieldsMerge (s : Schema) (table : Table Fragment) (bound : Nat) (m : Memo) :
    Visit → Memo × List Diagnostic
  | .block parent ss =>
    let (found, m) := (within s (compare s table bound) parent ss).run m
    (m, found.map Conflict.diagnostic)
  | _ => (m, [])

end QueryTypes.Merge
