import QueryTypes.Cycle
import QueryTypes.Document.Reach
import QueryTypes.Validation.Fields

/-! Rules about fragments and their conditions: types are known, conditions are met by objects,
spreads name fragments that can apply where they stand, and no fragment contains itself. -/

namespace QueryTypes

mutual
/-- The spreads of a selection itself, and those of the blocks in it. -/
def Selection.spreadNames : Selection → List Name × List Name
  | .field _ _ ss =>
    let (own, below) := Selection.splitSpreads ss
    ([], own ++ below)
  | .spread n _ o => ([⟨n.text, o⟩], [])
  | .inline _ _ ss _ =>
    let (own, below) := Selection.splitSpreads ss
    ([], own ++ below)

def Selection.splitSpreads : List Selection → List Name × List Name
  | [] => ([], [])
  | s :: r =>
    let (own, below) := s.spreadNames
    let (rest, last) := Selection.splitSpreads r
    (own ++ rest, last ++ below)
end

/-- The spreads of a block: its own first, then those of the blocks in it, the last block first. -/
def Selection.blockSpreads (ss : List Selection) : List Name :=
  let (own, below) := Selection.splitSpreads ss
  own ++ below

namespace Validation

def typesKnown (s : Schema) : Visit → List Diagnostic
  | .typeName n origin =>
    if (s.type? n).isSome then []
    else [.about ("Unknown type '" ++ n ++ "'."
      ++ Text.didYouMean "" (Text.suggestions n (s.types.map NamedType.name))) origin]
  | _ => []

/-- The name of a condition, when its type is known and has no selections. -/
def barredCondition (s : Schema) (condition : Name) : Bool :=
  (s.type? condition.text).any fun t => !t.isComposite

def conditionsComposite (s : Schema) : Visit → List Diagnostic
  | .inline _ (some c) _ _ =>
    if barredCondition s c then
      [.about ("Fragment cannot condition on non composite type '" ++ c.text ++ "'.") c.origin]
    else []
  | .fragment f =>
    if barredCondition s f.condition then
      [.about ("Fragment '" ++ f.name.text ++ "' cannot condition on non composite type '"
        ++ f.condition.text ++ "'.") f.condition.origin]
    else []
  | _ => []

def fragmentsKnown (table : Table Fragment) : Visit → List Diagnostic
  | .spread _ n _ _ =>
    if table.has n.text then []
    else [.about ("Unknown fragment '" ++ n.text ++ "'.") n.origin]
  | _ => []

/-- The complaint that objects of a type never meet a condition. -/
def neverMet (s : Schema) (who : String) (parent : NamedType) (condition : Option NamedType)
    (origin : Option Origin) : List Diagnostic :=
  match condition with
  | some t =>
    if s.overlaps t parent then []
    else [.about (who ++ " cannot be spread here as objects of type '" ++ parent.name
      ++ "' can never be of type '" ++ t.name ++ "'.") origin]
  | none => []

def spreadsPossible (s : Schema) (table : Table Fragment) : Visit → List Diagnostic
  | .inline (some parent) (some c) _ o => neverMet s "Fragment" parent (s.composite? c.text) o
  | .spread (some parent) n _ o =>
    let condition := (table.get? n.text).bind fun f => s.composite? f.condition.text
    neverMet s ("Fragment '" ++ n.text ++ "'") parent condition o
  | _ => []

/-- The spreads of a fragment with the fragments that they lead to. -/
def spreadSteps (table : Table Fragment) (name : String) : List (Name × String) :=
  match table.get? name with
  | some f => (Selection.blockSpreads f.selections).map fun n => (n, n.text)
  | none => []

def selfSpread (c : Cycle Name) : Diagnostic :=
  let via := Text.joinWith ", " (c.labels.dropLast.map fun n => "'" ++ n.text ++ "'")
  ⟨"Cannot spread fragment '" ++ c.start ++ "' within itself"
    ++ (if via.isEmpty then "." else " via " ++ via ++ "."), c.labels.filterMap Name.origin⟩

/-- Reports each way from a fragment back to itself where it is met first. -/
def noCycles (table : Table Fragment) (visited : List String) : Visit → List String × List Diagnostic
  | .fragment f =>
    let st := Cycle.fromName (spreadSteps table) table.keys visited f.name.text
    (st.visited, st.found.map selfSpread)
  | _ => (visited, [])

end Validation
end QueryTypes
