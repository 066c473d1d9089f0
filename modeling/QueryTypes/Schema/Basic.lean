import QueryTypes.Document.Definition

/-! A schema: named types, the roots that operations start from, and directives. References
between types are by name. -/

namespace QueryTypes

/-- An argument or a field of an input object. A default is kept only if it fits the type. -/
structure InputValue where
  name : String
  description : Option String
  type : TypeRef
  default : Option Value
  deprecation : Option String
deriving Inhabited

structure Field where
  name : String
  description : Option String
  args : List InputValue
  type : TypeRef
  deprecation : Option String
deriving Inhabited

structure EnumValue where
  name : String
  description : Option String
  deprecation : Option String
deriving Inhabited

inductive TypeBody
  | scalar
  | object (interfaces : List String) (fields : List Field)
  | interface (interfaces : List String) (fields : List Field)
  | union (members : List String)
  | enum (values : List EnumValue)
  | input (fields : List InputValue)
deriving Inhabited

structure NamedType where
  name : String
  description : Option String
  body : TypeBody
deriving Inhabited

structure DirectiveType where
  name : String
  args : List InputValue
  repeatable : Bool
  locations : List String
deriving Inhabited

/-- Types have distinct names. -/
structure Schema where
  types : List NamedType
  query : Option String
  mutation : Option String
  subscription : Option String
  directives : List DirectiveType
deriving Inhabited

/-- A value has to be given where it is required and has no default. -/
def InputValue.isRequired (v : InputValue) : Bool := v.type.isRequired && v.default.isNone

namespace NamedType

def isScalar (t : NamedType) : Bool := match t.body with
  | .scalar => true
  | _ => false

def isObject (t : NamedType) : Bool := match t.body with
  | .object .. => true
  | _ => false

def isInterface (t : NamedType) : Bool := match t.body with
  | .interface .. => true
  | _ => false

def isUnion (t : NamedType) : Bool := match t.body with
  | .union .. => true
  | _ => false

def isEnum (t : NamedType) : Bool := match t.body with
  | .enum .. => true
  | _ => false

def isInput (t : NamedType) : Bool := match t.body with
  | .input .. => true
  | _ => false

/-- A type whose values are objects of one of several types. -/
def isAbstract (t : NamedType) : Bool := t.isInterface || t.isUnion

/-- A type with selections below it. -/
def isComposite (t : NamedType) : Bool := t.isObject || t.isAbstract

def isLeaf (t : NamedType) : Bool := t.isScalar || t.isEnum

/-- A type that arguments and variables can have. -/
def isInputType (t : NamedType) : Bool := t.isLeaf || t.isInput

def fields (t : NamedType) : List Field := match t.body with
  | .object _ fs | .interface _ fs => fs
  | _ => []

def field? (t : NamedType) (name : String) : Option Field := t.fields.find? (·.name == name)

def interfaces (t : NamedType) : List String := match t.body with
  | .object is _ | .interface is _ => is
  | _ => []

def members (t : NamedType) : List String := match t.body with
  | .union ms => ms
  | _ => []

def values (t : NamedType) : List EnumValue := match t.body with
  | .enum vs => vs
  | _ => []

def inputFields (t : NamedType) : List InputValue := match t.body with
  | .input fs => fs
  | _ => []

end NamedType

namespace Schema

def type? (s : Schema) (name : String) : Option NamedType := s.types.find? (·.name == name)

def directive? (s : Schema) (name : String) : Option DirectiveType :=
  s.directives.find? (·.name == name)

/-- The name of the type that operations of a kind start from. -/
def root (s : Schema) : OperationKind → Option String
  | .query => s.query
  | .mutation => s.mutation
  | .subscription => s.subscription

def rootType? (s : Schema) (k : OperationKind) : Option NamedType := (s.root k).bind s.type?

/-- The object types that a composite type stands for, in schema order for interfaces. -/
def possibleTypes (s : Schema) (t : NamedType) : List NamedType :=
  match t.body with
  | .object .. => [t]
  | .union ms => ms.filterMap s.type?
  | .interface .. => s.types.filter fun u => u.isObject && u.interfaces.contains t.name
  | _ => []

/-- Whether an abstract type covers another type by name. -/
def covers (s : Schema) (abstract sub : NamedType) : Bool :=
  match abstract.body with
  | .union ms => ms.contains sub.name
  | .interface .. =>
    s.types.any fun u => u.name == sub.name && u.isComposite && u.interfaces.contains abstract.name
  | _ => false

/-- Whether two composite types have an object type in common. -/
def overlaps (s : Schema) (a b : NamedType) : Bool :=
  if a.name == b.name then true
  else if a.isAbstract then
    if b.isAbstract then (s.possibleTypes a).any fun t => s.covers b t
    else s.covers a b
  else if b.isAbstract then s.covers b a
  else false

/-- Whether the reference is to a type that selections may have. -/
def isOutput (s : Schema) (t : TypeRef) : Bool :=
  ((s.type? t.leaf).map fun n => n.isLeaf || n.isComposite).getD false

def isInput (s : Schema) (t : TypeRef) : Bool :=
  ((s.type? t.leaf).map NamedType.isInputType).getD false

/-- Whether every value of one reference is a value of another one. -/
def isSubtype (s : Schema) : TypeRef → TypeRef → Bool
  | .named a ra, .named b rb =>
    (ra || !rb) && (a == b ||
      match s.type? a, s.type? b with
      | some x, some y => y.isAbstract && (x.isObject || x.isInterface) && s.covers y x
      | _, _ => false)
  | .list a ra, .list b rb => (ra || !rb) && s.isSubtype a b
  | _, _ => false

end Schema
end QueryTypes
