import QueryTypes.Request
import QueryTypes.Shape.Basic
import QueryTypes.Shape.Level
import QueryTypes.Table

/-! Builds the shapes of operations and fragments. A field with selections below it has an object
type of its own, named by the response keys that lead to it. A scalar without an entry of its own is
`any`, or is passed through under its own name for the user to define. -/

namespace QueryTypes

structure ScalarMap where
  known : Table String
  passthrough : Bool
  scalarPrefix : String
deriving Inhabited

namespace ScalarMap

def builtin : Table String := [
  ("String", "string"), ("ID", "string"), ("Int", "number"), ("Float", "number"),
  ("Boolean", "boolean")]

def ofOptions (o : Options) : ScalarMap := ⟨builtin, o.passthroughScalars, o.scalarPrefix⟩

def register (m : ScalarMap) (scalar type : String) : ScalarMap :=
  { m with known := m.known.set scalar type }

def has (m : ScalarMap) (scalar : String) : Bool := m.known.has scalar

def passes (m : ScalarMap) (scalar : String) : Bool := !m.has scalar && m.passthrough

def typeOf (m : ScalarMap) (scalar : String) : String :=
  match m.known.get? scalar with
  | some t => t
  | none => if m.passthrough then m.scalarPrefix ++ scalar else "any"

end ScalarMap

/-- What shapes depend on. -/
structure ShapeContext where
  schema : Schema
  fragments : Table Fragment
  scalars : ScalarMap

/-- The declared type and description of a field; the fields of input objects count too. -/
def NamedType.selectable (t : NamedType) (name : String) :
    Except ShapeError (TypeRef × Option String) :=
  match t.field? name, t.inputFields.find? (·.name == name) with
  | some f, _ => .ok (f.type, f.description)
  | none, some f => .ok (f.type, f.description)
  | none, none => .error (.unknownField name t.name)

namespace ShapeContext

/-- The type of a leaf of the schema: an enum is shared, everything else counts as a scalar. -/
def leaf (cx : ShapeContext) (name : String) : LeafType :=
  match cx.schema.type? name with
  | some t => if t.isEnum then .shared name else .scalar (cx.scalars.typeOf name)
  | none => .scalar (cx.scalars.typeOf name)

/-- The type of a variable or of a field of an input object. -/
def inputType (cx : ShapeContext) (t : TypeRef) : PropertyType :=
  match cx.schema.type? t.leaf with
  | some n => .layered t (if n.isInput then .shared n.name else cx.leaf n.name)
  | none => .layered t (cx.leaf t.leaf)

/-- The type names that an object of a type can have; of an abstract type sorted. -/
def typenames (cx : ShapeContext) (parent : NamedType) : List String :=
  if parent.isAbstract then Text.sorted ((cx.schema.possibleTypes parent).map NamedType.name)
  else [parent.name]

/-- The objects for selections on a type, the one for the whole level last. -/
def objects (cx : ShapeContext) :
    Nat → String → NamedType → List Selection → Except ShapeError (List ObjectShape)
  | 0, _, _, _ => .error .endless
  | n + 1, name, parent, ss => do
    let entries ← Level.entries cx.schema cx.fragments parent ss
    let parts ← entries.mapM fun e => do
      if e.field == "__typename" then
        return (⟨e.key, .typename (cx.typenames e.parent), e.conditional, none⟩, [])
      else
        let (type, description) ← e.parent.selectable e.field
        match (cx.schema.type? type.leaf).filter NamedType.isComposite with
        | some t =>
          let child := name ++ "_" ++ e.key
          let below ← objects cx n child t e.selections
          return (⟨e.key, .layered type (.object child), e.conditional, description⟩, below)
        | none =>
          return (⟨e.key, .layered type (cx.leaf type.leaf), e.conditional, description⟩, [])
    return parts.flatMap Prod.snd ++ [⟨name, parts.map Prod.fst, parent.description⟩]

/-- Levels inside each other are at most as many as there are nodes to select, in the selections and
in the fragments that they use. -/
def depth (cx : ShapeContext) (ss : List Selection) : Nat :=
  let used := (reached cx.fragments ss).filterMap cx.fragments.get?
  Selection.weights ss + Selection.weights (used.flatMap Fragment.selections) + 1

def parameterShape (cx : ShapeContext) (name : String) (o : Operation) :
    Except ShapeError (Option ObjectShape) := do
  if o.variableDefs.isEmpty then return none
  let properties ← o.variableDefs.mapM fun v => do
    if (cx.schema.type? v.type.leaf).isNone then
      throw (.unknownVariableType v.type.text v.name.text)
    return ⟨v.name.text, cx.inputType v.type, !v.type.isRequired, none⟩
  return some ⟨name ++ "Variables", properties, none⟩

def operation (cx : ShapeContext) (o : Operation) : Except ShapeError ModuleShape := do
  match cx.schema.rootType? o.kind, o.name with
  | none, _ => throw (.noRoot o.kind)
  | some _, none => throw .anonymous
  | some root, some name =>
    let objects ← cx.objects (cx.depth o.selections) name.text root o.selections
    let arguments ← cx.parameterShape name.text o
    return ⟨name.text, .operation o.kind, sourceFile o.origin, objects, arguments⟩

def fragment (cx : ShapeContext) (f : Fragment) : Except ShapeError ModuleShape := do
  match (cx.schema.type? f.condition.text).filter NamedType.isComposite with
  | none => throw (.fragmentCondition f.name.text f.condition.text)
  | some t =>
    let objects ← cx.objects (cx.depth f.selections) f.name.text t f.selections
    return ⟨f.name.text, .fragment, sourceFile f.origin, objects, none⟩

end ShapeContext
end QueryTypes
