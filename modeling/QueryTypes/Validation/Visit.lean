import QueryTypes.Schema.Builtin

/-! The reading order of operations and fragments: every place that a rule looks at, together with
what the schema says of it. -/

namespace QueryTypes

/-- What a literal is written for: the type that is asked for there, if it is known, and whether
there is a value without the literal. -/
structure Slot where
  type : Option TypeRef
  hasDefault : Bool
deriving Inhabited

/-- Where selections stand: the composite type that they select on, and the definition of the field
that they are inside of. -/
structure Scope where
  parent : Option NamedType
  field : Option Field
deriving Inhabited

/-- A place in a definition. A field has its own definition in its scope. A literal is settled if
it is part of one that does not have the form that its slot asks for. -/
inductive Visit
  | operation (o : Operation)
  | operationEnd (o : Operation)
  | fragment (f : Fragment)
  | input (v : VariableDefinition)
  | typeName (name : String) (origin : Option Origin)
  | block (parent : Option NamedType) (selections : List Selection)
  | field (scope : Scope) (head : FieldHead) (block : Option Origin) (open_ : Bool)
  | fieldEnd (scope : Scope) (head : FieldHead)
  | argument (scope : Scope) (field : String) (a : Argument)
  | spread (parent : Option NamedType) (name : Name) (directives : List Directive)
      (origin : Option Origin)
  | inline (parent : Option NamedType) (condition : Option Name) (directives : List Directive)
      (origin : Option Origin)
  | directive (d : Directive)
  | directiveEnd (d : Directive)
  | value (slot : Slot) (settled : Bool) (v : Value)
  | member (owner : Option NamedType) (settled : Bool) (before : List Name) (name : Name)
deriving Inhabited

namespace Schema

def composite? (s : Schema) (name : String) : Option NamedType :=
  (s.type? name).filter NamedType.isComposite

/-- The definition of a field on a composite type. Every composite type has the name of its type as
a field, and the root of queries the schema. -/
def fieldOf? (s : Schema) (parent : NamedType) (name : String) : Option Field :=
  let asksSchema := s.query == some parent.name
  if name = "__schema" ∧ asksSchema then some Builtin.schemaField
  else if name = "__type" ∧ asksSchema then some Builtin.typeField
  else if name = "__typename" then some Builtin.typenameField
  else parent.field? name

/-- The input object that a slot asks for, itself or in lists. -/
def inputObject? (s : Schema) (slot : Slot) : Option NamedType :=
  (slot.type.bind fun t => s.type? t.leaf).filter NamedType.isInput

end Schema

namespace Slot

def unknown : Slot := ⟨none, false⟩

def ofInputs (inputs : List InputValue) (name : String) : Slot :=
  match inputs.find? (·.name == name) with
  | some i => ⟨some i.type, i.default.isSome⟩
  | none => unknown

def isList (slot : Slot) : Bool := slot.type.any TypeRef.isList

/-- The slot of an item. A single value stands for the list of it. -/
def item (slot : Slot) : Slot :=
  ⟨slot.type.map fun t => if t.isList then t.item else t.optional, false⟩

end Slot

mutual
def Value.visits (s : Schema) (slot : Slot) (settled : Bool) : Value → List Visit
  | .list vs o =>
    .value slot settled (.list vs o) :: Value.itemVisits s slot.item (settled || !slot.isList) vs
  | .object fs o =>
    .value slot settled (.object fs o)
      :: Value.memberVisits s (s.inputObject? slot) (settled || (s.inputObject? slot).isNone) [] fs
  | v => [.value slot settled v]

def Value.itemVisits (s : Schema) (slot : Slot) (settled : Bool) : List Value → List Visit
  | [] => []
  | v :: r => v.visits s slot settled ++ Value.itemVisits s slot settled r

def Value.memberVisits (s : Schema) (owner : Option NamedType) (settled : Bool)
    (before : List Name) : List (Name × Value) → List Visit
  | [] => []
  | (n, v) :: r =>
    .member owner settled before n
      :: v.visits s (Slot.ofInputs ((owner.map NamedType.inputFields).getD []) n.text) settled
      ++ Value.memberVisits s owner settled (before ++ [n]) r
end

namespace Schema

/-- The arguments of an undeclared directive are read as those of the field that it stands at. -/
def directiveVisits (s : Schema) (field : Option Field) (ds : List Directive) : List Visit :=
  ds.flatMap fun d =>
    let inputs := match s.directive? d.name with
      | some t => t.args
      | none => (field.map Field.args).getD []
    .directive d
      :: d.arguments.flatMap (fun a => a.value.visits s (Slot.ofInputs inputs a.name.text) false)
      ++ [.directiveEnd d]

def argumentVisits (s : Schema) (scope : Scope) (head : FieldHead) : List Visit :=
  let inputs := (scope.field.map Field.args).getD []
  head.arguments.flatMap fun a =>
    .argument scope head.name a :: a.value.visits s (Slot.ofInputs inputs a.name.text) false

end Schema

/-- The block of selections before the selections in it. -/
def blockVisit (parent : Option NamedType) (ss : List Selection) : List Visit :=
  if ss.isEmpty then [] else [.block parent ss]

mutual
def Selection.visits (s : Schema) (scope : Scope) : Selection → List Visit
  | .field h b ss =>
    let own : Scope := ⟨scope.parent, scope.parent.bind fun p => s.fieldOf? p h.name⟩
    let below : Scope := ⟨own.field.bind fun d => s.composite? d.type.leaf, own.field⟩
    .field own h b (!ss.isEmpty) :: s.argumentVisits own h ++ s.directiveVisits own.field h.directives
      ++ blockVisit below.parent ss ++ Selection.allVisits s below ss ++ [.fieldEnd own h]
  | .spread n ds o => .spread scope.parent n ds o :: s.directiveVisits scope.field ds
  | .inline c ds ss o =>
    let below : Scope := match c with
      | none => scope
      | some n => ⟨s.composite? n.text, scope.field⟩
    .inline scope.parent c ds o :: c.toList.map (fun n => .typeName n.text n.origin)
      ++ s.directiveVisits scope.field ds ++ blockVisit below.parent ss
      ++ Selection.allVisits s below ss

def Selection.allVisits (s : Schema) (scope : Scope) : List Selection → List Visit
  | [] => []
  | sel :: r => sel.visits s scope ++ Selection.allVisits s scope r
end

namespace Schema

def inputVisits (s : Schema) (v : VariableDefinition) : List Visit :=
  let slot : Slot := ⟨if s.isInput v.type then some v.type else none, false⟩
  .input v :: .typeName v.type.leaf v.leafOrigin
    :: (v.default.toList.flatMap fun d => d.visits s slot false) ++ s.directiveVisits none v.directives

def operationVisits (s : Schema) (o : Operation) : List Visit :=
  let scope : Scope := ⟨(s.rootType? o.kind).filter NamedType.isObject, none⟩
  .operation o :: o.variableDefs.flatMap s.inputVisits ++ s.directiveVisits none o.directives
    ++ blockVisit scope.parent o.selections ++ Selection.allVisits s scope o.selections
    ++ [.operationEnd o]

def fragmentVisits (s : Schema) (f : Fragment) : List Visit :=
  let scope : Scope := ⟨s.composite? f.condition.text, none⟩
  .fragment f :: .typeName f.condition.text f.condition.origin :: s.directiveVisits none f.directives
    ++ blockVisit scope.parent f.selections ++ Selection.allVisits s scope f.selections

def documentVisits (s : Schema) (d : Document) : List Visit :=
  d.operations.flatMap s.operationVisits ++ d.fragments.flatMap s.fragmentVisits

end Schema
end QueryTypes
