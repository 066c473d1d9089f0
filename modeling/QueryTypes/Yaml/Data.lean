import QueryTypes.Text.Utf8
import QueryTypes.Yaml.Node
import QueryTypes.Yaml.Plain

/-! The data that a YAML document describes, for the types that every reader knows. -/

namespace QueryTypes.Yaml

/-- Points in time and pairs only count as something else. -/
inductive Data
  | null
  | bool (b : Bool)
  | int (n : Int)
  | float (x : Float)
  | str (s : String)
  | bytes (b : List UInt8)
  | other
  | list (items : List Data)
  | set (items : List Data)
  | map (pairs : List (Data × Data))
  /-- data inside itself -/
  | again
deriving Inhabited

namespace Data

/-- Sets the value of a text; one that is there keeps its place. -/
def setText (k : String) (v : Data) : List (Data × Data) → List (Data × Data)
  | [] => [(.str k, v)]
  | (.str j, w) :: r => if j = k then (.str j, v) :: r else (.str j, w) :: setText k v r
  | p :: r => p :: setText k v r

def setPair (ps : List (Data × Data)) (p : Data × Data) : List (Data × Data) :=
  match p.1 with
  | .str k => setText k p.2 ps
  | _ => ps ++ [p]

def ofPairs (ps : List (Data × Data)) : Data := .map (ps.foldl setPair [])

def standard (name : String) : String := "tag:yaml.org,2002:" ++ name

/-- The tag of a scalar: its own one or the one that its text has. -/
def scalarTag (tag : Option String) (plain : Bool) (text : String) : String :=
  match tag with
  | some t => t
  | none =>
    if !plain then standard "str"
    else standard (match Plain.typeOf text with
      | .bool => "bool"
      | .float => "float"
      | .int => "int"
      | .merge => "merge"
      | .null => "null"
      | .timestamp => "timestamp"
      | .value => "value"
      | .str => "str")

def base64Value? (c : Char) : Option Nat :=
  "ABCDEFGHIJKLMNOPQRSTUVWXYZabcdefghijklmnopqrstuvwxyz0123456789+/".toList.findIdx? (· == c)

/-- The bytes of sextets; a single sextet left over is refused. -/
def sextets : List Nat → Option (List UInt8)
  | [] => some []
  | [_] => none
  | [a, b] => some [UInt8.ofNat ((a * 64 + b) / 16)]
  | [a, b, c] => some [UInt8.ofNat ((a * 64 + b) / 16), UInt8.ofNat ((b * 64 + c) / 4 % 256)]
  | a :: b :: c :: d :: r =>
    (sextets r).map fun bs =>
      UInt8.ofNat ((a * 64 + b) / 16) :: UInt8.ofNat ((b * 64 + c) / 4 % 256)
        :: UInt8.ofNat ((c * 64 + d) % 256) :: bs

/-- Bytes written to the base 64, up to the padding, which has to be complete. -/
def base64? (text : String) : Option (List UInt8) := do
  let cs := text.toList
  if cs.any fun c => 127 < c.toNat then none
  let values := (cs.takeWhile (· != '=')).filterMap base64Value?
  let padding := (cs.dropWhile (· != '=')).countP (· == '=')
  if values.length % 4 = 0 ∨ 4 ≤ values.length % 4 + padding then sextets values else none

/-- A scalar of a tag. -/
def ofScalar (tag text : String) : Except ReadError Data :=
  match (Text.after? (standard "").toList tag.toList).map String.ofList with
  | some "null" => .ok .null
  | some "bool" =>
    let word := String.ofList (text.toList.map Char.toLower)
    if Plain.trueWords.contains word then .ok (.bool true)
    else if Plain.falseWords.contains word then .ok (.bool false)
    else .error (.breakdown (.missingKey word))
  | some "int" => (Plain.int text).map .int
  | some "float" => (Plain.float text).map .float
  | some "str" => .ok (.str text)
  | some "binary" => (base64? text).elim (.error .malformed) fun b => .ok (.bytes b)
  | some "timestamp" =>
    match Plain.moment? false text.toList with
    | none => .error (.breakdown (.missingAttribute "'NoneType' object has no attribute 'groupdict'"))
    | some m => if m.exists_ then .ok .other else .error (.breakdown (.badValue "day is out of range for month"))
  | _ => .error .malformed

/-- The tags that scalars can have. -/
def scalarTags : List String :=
  ["null", "bool", "int", "float", "str", "binary", "timestamp"].map standard

/-- An equals sign is a text when it is a key. -/
def keyTag (tag : String) : String := if tag = standard "value" then standard "str" else tag

/-- The keys of pairs, each once. -/
def distinctKeys (ps : List (Data × Data)) : List Data :=
  match ofPairs ps with
  | .map qs => qs.map Prod.fst
  | _ => []

end Data

/-- What a sequence or a mapping can be made to. -/
inductive Container
  | list
  | singles
  | map
  | set
deriving DecidableEq, Repr

def Container.ofTag? (tag : String) : Option Container :=
  match (Text.after? (Data.standard "").toList tag.toList).map String.ofList with
  | some "seq" => some .list
  | some "omap" | some "pairs" => some .singles
  | some "map" => some .map
  | some "set" => some .set
  | _ => none

/-- What is met when a container is filled: a key, some other node, or one that cannot stand there. -/
inductive Part
  | key (n : Node)
  | other (n : Node)
  | wrong

namespace Graph

variable (g : Graph)

/-- What a node stands for: itself, unless it is an alias. -/
def resolved : Node → Node
  | .reference a => (g.named.lookup a).getD .absent
  | n => n

def tagOf (n : Node) : String :=
  match g.resolved n with
  | .scalar tag plain text => Data.scalarTag tag plain text
  | .sequence _ tag _ => tag.getD (Data.standard "seq")
  | .mapping _ tag _ => tag.getD (Data.standard "map")
  | .reference _ => ""

/-- The number of a sequence or a mapping. -/
def number? (n : Node) : Option Nat :=
  match g.resolved n with
  | .sequence number _ _ | .mapping number _ _ => some number
  | _ => none

/-- The text of a scalar; that of a mapping is the one of its equals sign. -/
def textOf : Nat → Node → Except ReadError String
  | 0, _ => .error (.breakdown .endless)
  | depth + 1, n =>
    match g.resolved n with
    | .scalar _ _ text => .ok text
    | .mapping _ _ pairs =>
      match pairs.find? fun p => g.tagOf p.1 == Data.standard "value" with
      | some p => textOf depth p.2
      | none => .error .malformed
    | _ => .error .malformed

/-- A point in time cannot be read from a mapping, be there a text behind its equals sign or not. -/
def isUntimely (tag : String) (n : Node) : Bool :=
  tag == Data.standard "timestamp" && match g.resolved n with
    | .mapping .. => true
    | _ => false

/-- What is made of a node with a tag at once: a value, or a container that is filled later. A tag
that nothing is known of is refused before there is a look at the node. -/
def begin? (tag : String) (n : Node) : Except ReadError (Option Data) :=
  if (Container.ofTag? tag).isSome then .ok none
  else if !Data.scalarTags.contains tag then .error .malformed
  else do
    let text ← g.textOf (g.size + 2) n
    if g.isUntimely tag n then
      .error (.breakdown (.wrongType "expected string or bytes-like object, got 'list'"))
    else return some (← Data.ofScalar tag text)

/-- The pairs of a mapping, those of merged mappings first. While a mapping is merged it has nothing
to give to itself. -/
def flattened : Nat → List Nat → List (Node × Node) → Option (List (Node × Node))
  | 0, _, _ => some []
  | depth + 1, open_, pairs => do
    let (merging, own) := pairs.partition fun p => g.tagOf p.1 == Data.standard "merge"
    let mapping (n : Node) : Option (List (Node × Node)) :=
      match g.resolved n with
      | .mapping number _ pairs =>
        if open_.contains number then some [] else flattened depth (number :: open_) pairs
      | _ => none
    let merged ← merging.mapM fun p =>
      match g.resolved p.2 with
      | .sequence _ _ items => (items.mapM mapping).map fun ms => ms.reverse.flatten
      | _ => mapping p.2
    return merged.flatten ++ own

/-- The pairs that a mapping is filled with. -/
def pairsOf (n : Node) : Option (List (Node × Node)) :=
  match g.resolved n with
  | .mapping number _ pairs => g.flattened (g.size + 1) [number] pairs
  | _ => none

def itemsOf (n : Node) : Option (List Node) :=
  match g.resolved n with
  | .sequence _ _ items => some items
  | _ => none

/-- What is met when a container is filled, in order. -/
def parts (n : Node) : List Part :=
  match Container.ofTag? (g.tagOf n) with
  | some .list => ((g.itemsOf n).map fun items => items.map .other).getD [.wrong]
  | some .singles =>
    let single (n : Node) : List Part :=
      match g.resolved n with
      | .mapping _ _ [(k, v)] => [.other k, .other v]
      | _ => [.wrong]
    ((g.itemsOf n).map fun items => items.flatMap single).getD [.wrong]
  | some .map | some .set =>
    ((g.pairsOf n).map fun pairs => pairs.flatMap fun p => [.key p.1, .other p.2]).getD [.wrong]
  | none => []

/-- Begins with a part; a container that is met waits for its turn. No container can be a key. -/
def meet : Part → Except ReadError (Option Node)
  | .key n => do
    match ← g.begin? (Data.keyTag (g.tagOf n)) n with
    | some _ => return none
    | none => throw .malformed
  | .other n => do
    match ← g.begin? (g.tagOf n) n with
    | some _ => return none
    | none => return some n
  | .wrong => .error .malformed

/-- The nodes that were not known, and all that are known then. -/
def unknown (known : List Nat) : List Node → List Node × List Nat
  | [] => ([], known)
  | n :: r =>
    match g.number? n with
    | some number =>
      if known.contains number then unknown known r
      else
        let (ns, known) := unknown (number :: known) r
        (n :: ns, known)
    | none =>
      let (ns, known) := unknown known r
      (n :: ns, known)

/-- Fills containers in the order in which they were met. Each has its turn once. -/
def fill : Nat → List Nat → List Node → Except ReadError Unit
  | 0, _, _ | _, _, [] => .ok ()
  | turns + 1, known, n :: waiting => do
    let met ← (g.parts n).mapM g.meet
    let (more, known) := g.unknown known (met.filterMap id)
    fill turns known (waiting ++ more)

/-- Whether everything in the document can be made, and what goes wrong first. -/
def check : Except ReadError Unit := do
  let met ← g.meet (.other g.root)
  fill g (g.size + 2) (met.bind g.number?).toList met.toList

/-- The data of a node. On the way to a node it may be met again. -/
def value : Nat → List Nat → Node → Data
  | 0, _, _ => .again
  | depth + 1, way, n =>
    let made : Option Data := (g.begin? (g.tagOf n) n).toOption.join
    let key (k : Node) : Data := ((g.begin? (Data.keyTag (g.tagOf k)) k).toOption.join).getD .null
    if (g.number? n).any way.contains then .again
    else
      let way := (g.number? n).toList ++ way
      match Container.ofTag? (g.tagOf n) with
      | some .list => .list (((g.itemsOf n).getD []).map (value depth way))
      | some .singles => .list (((g.itemsOf n).getD []).map fun _ => .other)
      | some .map =>
        Data.ofPairs (((g.pairsOf n).getD []).map fun p => (key p.1, value depth way p.2))
      | some .set =>
        .set (Data.distinctKeys (((g.pairsOf n).getD []).map fun p => (key p.1, .null)))
      | none => made.getD .null

end Graph

/-- The data of a text that holds at most one document; no document is null. -/
def Data.ofText (s : List Char) : Except ReadError Data := do
  match ← Graph.ofText s with
  | none => return .null
  | some g =>
    g.check
    return g.value (g.size + 2) [] g.root

/-- The data of the bytes of a file, with line ends unified. -/
def Data.ofBytes (b : ByteArray) : Except ReadError Data :=
  match Text.decode? b with
  | none => .error (.breakdown .undecodable)
  | some s => Data.ofText (Text.unifyLines s.toList)

end QueryTypes.Yaml
