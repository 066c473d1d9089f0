import QueryTypes.Document.Reach
import QueryTypes.Document.Printer
import QueryTypes.Report
import QueryTypes.Schema.Basic
import QueryTypes.Validation.Fields

/-! A subscription selects one field at its top, and none that describes the schema. Only
conditions that are written out can be decided here; any other one stops the validation. -/

namespace QueryTypes.Validation

/-- The fields met at the top so far, and the fragments that were followed. -/
structure TopLevel where
  fields : List FieldHead
  followed : List String
deriving Inhabited

/-- The condition of a directive on a selection, when it is there. -/
def condition? (name : String) (ds : List Directive) : Except Diagnostic (Option Bool) :=
  match ds.find? (·.name == name) with
  | none => .ok none
  | some d =>
    match d.arguments.reverse.find? (·.name.text == "if") with
    | none => .error (.about "Argument 'if' of required type 'Boolean!' was not provided." d.origin)
    | some a =>
      match a.value with
      | .boolean b _ => .ok (some b)
      | .ref n o => .error (.about ("Argument 'if' of required type 'Boolean!' was provided the "
          ++ "variable '$" ++ n ++ "' which was not provided a runtime value.") o)
      | .null o => .error (.about "Argument 'if' of non-null type 'Boolean!' must not be null." o)
      | v => .error (.about ("Argument 'if' has invalid value " ++ Printer.value v ++ ".") v.origin)

def isIncluded (ds : List Directive) : Except Diagnostic Bool := do
  if (← condition? "skip" ds) = some true then return false
  return (← condition? "include" ds) ≠ some false

/-- Whether an object type meets a condition. -/
def meets (s : Schema) (object : NamedType) (condition : Option Name) : Bool :=
  match condition with
  | none => true
  | some c => c.text == object.name || (s.type? c.text).any fun t => t.isAbstract && s.covers t object

/-- What the selections of a fragment add to what was met before. -/
abbrev TopFollow := TopLevel → List Selection → Except Diagnostic TopLevel

mutual
def topField (s : Schema) (table : Table Fragment) (object : NamedType) (follow : TopFollow)
    (top : TopLevel) : Selection → Except Diagnostic TopLevel
  | .field h _ _ => do
    if ← isIncluded h.directives then return { top with fields := top.fields ++ [h] }
    return top
  | .spread n ds _ => do
    if top.followed.contains n.text then return top
    if !(← isIncluded ds) then return top
    let top := { top with followed := n.text :: top.followed }
    match table.get? n.text with
    | none => return top
    | some f => if meets s object (some f.condition) then follow top f.selections else return top
  | .inline c ds ss _ => do
    if (← isIncluded ds) && meets s object c then topFields s table object follow top ss
    else return top

def topFields (s : Schema) (table : Table Fragment) (object : NamedType) (follow : TopFollow)
    (top : TopLevel) : List Selection → Except Diagnostic TopLevel
  | [] => .ok top
  | sel :: r => do topFields s table object follow (← topField s table object follow top sel) r
end

/-- Follows fragments inside fragments; each is followed once. -/
def topLevel (s : Schema) (table : Table Fragment) (object : NamedType) : Nat → TopFollow
  | 0, top, _ => .ok top
  | n + 1, top, ss => topFields s table object (topLevel s table object n) top ss

def subscriptionComplaints (s : Schema) (table : Table Fragment) (o : Operation) :
    Except Diagnostic (List Diagnostic) := do
  match o.kind, s.rootType? .subscription with
  | .subscription, some object => do
    let top ← topLevel s table object (table.length + 1) ⟨[], []⟩ o.selections
    let groups := groupBy FieldHead.key top.fields
    let who := match o.name with
      | some n => "Subscription '" ++ n.text ++ "'"
      | none => "Anonymous Subscription"
    let origins (fs : List FieldHead) := fs.filterMap FieldHead.origin
    let extra := (groups.drop 1).flatMap Prod.snd
    let several := if extra.isEmpty then []
      else [⟨who ++ " must select only one top level field.", origins extra⟩]
    let hidden := groups.filter fun g => g.2.head?.any fun f => "__".isPrefixOf f.name
    return several ++ hidden.map fun g =>
      ⟨who ++ " must not select an introspection top level field.", origins g.2⟩
  | _, _ => return []

end QueryTypes.Validation
