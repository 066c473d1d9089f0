import QueryTypes.Document.Reach
import QueryTypes.Report
import QueryTypes.Schema.Basic

/-! The fields that selections ask for on one level of a response: through inline fragments and
fragments, merged by response key. -/

namespace QueryTypes

/-- Why no shapes can be built. -/
inductive ShapeError
  | noRoot (kind : OperationKind)
  | fragmentCondition (fragment condition : String)
  | unknownFragment (name : String)
  | unknownCondition (name : String)
  | unknownField (field type : String)
  | unknownVariableType (type argument : String)
  | anonymous
  | endless
deriving DecidableEq, Repr

def ShapeError.message : ShapeError → String
  | noRoot k => "Schema does not define a root type for " ++ k.text ++ " operations"
  | fragmentCondition f c => "Fragment '" ++ f ++ "' has unknown type condition '" ++ c ++ "'"
  | unknownFragment n => "Unknown fragment '" ++ n ++ "'"
  | unknownCondition n => "Unknown type condition '" ++ n ++ "'"
  | unknownField f t => "Cannot query field '" ++ f ++ "' on type '" ++ t ++ "'"
  | unknownVariableType t v => "Unknown type '" ++ t ++ "' for variable $" ++ v
  | anonymous => "'NoneType' object has no attribute 'value'"
  | endless => "maximum recursion depth exceeded"

/-- One selection of a field: the type that it is selected on, what is selected below it, and
whether it may be absent from a response because of a type condition. -/
structure Occurrence where
  key : String
  field : String
  parent : NamedType
  selections : List Selection
  conditional : Bool
deriving Inhabited

/-- A response key with everything selected under it. Field and type are those of its first
occurrence; it may be absent only if each of its occurrences may. -/
structure Entry where
  key : String
  field : String
  parent : NamedType
  selections : List Selection
  conditional : Bool
deriving Inhabited

namespace Level

/-- Whether every object of the parent type meets a condition on the target type. -/
def alwaysApplies (s : Schema) (target parent : NamedType) : Bool :=
  target.name == parent.name
    || target.isAbstract && !parent.isAbstract && s.covers target parent

def conditionType (s : Schema) (parent : NamedType) : Option String → Except ShapeError NamedType
  | none => .ok parent
  | some n =>
    match s.type? n with
    | none => .error (.unknownCondition n)
    | some t => if t.isComposite then .ok t else .error (.unknownCondition n)

/-- What the spread of a named fragment contributes on a type. -/
abbrev Follow := NamedType → Bool → String → Except ShapeError (List Occurrence)

mutual
def occurrence (s : Schema) (follow : Follow) (parent : NamedType) (conditional : Bool) :
    Selection → Except ShapeError (List Occurrence)
  | .field h _ ss => .ok [⟨h.key, h.name, parent, ss, conditional⟩]
  | .spread n _ _ => follow parent conditional n.text
  | .inline c _ ss _ => do
    let target ← conditionType s parent (c.map Name.text)
    occurrences s follow target (conditional || !alwaysApplies s target parent) ss

def occurrences (s : Schema) (follow : Follow) (parent : NamedType) (conditional : Bool) :
    List Selection → Except ShapeError (List Occurrence)
  | [] => .ok []
  | sel :: r => do
    let here ← occurrence s follow parent conditional sel
    let rest ← occurrences s follow parent conditional r
    return here ++ rest
end

/-- Everything selected on a type, depth first. A fragment does not contribute inside itself, so
there are at most as many fragments inside each other as there are fragments. -/
def collect (s : Schema) (table : Table Fragment) :
    Nat → List String → NamedType → Bool → List Selection → Except ShapeError (List Occurrence)
  | 0, _ => occurrences s fun _ _ _ => .ok []
  | n + 1, visiting => occurrences s fun parent conditional name =>
    if visiting.contains name then .ok []
    else match table.get? name with
      | none => .error (.unknownFragment name)
      | some f => do
        let target ← conditionType s parent (some f.condition.text)
        collect s table n (name :: visiting) target
          (conditional || !alwaysApplies s target parent) f.selections

/-- The occurrences of a key as one entry. -/
def entry (key : String) (os : List Occurrence) : Option Entry :=
  match os with
  | [] => none
  | o :: _ => some ⟨key, o.field, o.parent, os.flatMap Occurrence.selections, os.all Occurrence.conditional⟩

/-- The entries of a level, in the order in which their keys are first met. -/
def entries (s : Schema) (table : Table Fragment) (parent : NamedType) (ss : List Selection) :
    Except ShapeError (List Entry) := do
  let os ← collect s table (table.length + 1) [] parent false ss
  return (groupBy Occurrence.key os).filterMap fun g => entry g.1 g.2

end Level
end QueryTypes
