import QueryTypes.Document.Basic

/-! Shapes of generated code: objects with typed properties and enums, apart from how a language
writes them. -/

namespace QueryTypes

/-- What stands for the name inside the layers of a type. -/
inductive LeafType
  /-- the object type built for a field -/
  | object (name : String)
  /-- an enum or input object that all modules share -/
  | shared (name : String)
  /-- a type of the language itself -/
  | scalar (text : String)
deriving DecidableEq, Repr

def LeafType.text : LeafType → String
  | object n | shared n | scalar n => n

inductive PropertyType
  /-- the name of one of the given types; of any type when none is given -/
  | typename (names : List String)
  /-- the layers of a reference around another leaf -/
  | layered (type : TypeRef) (leaf : LeafType)
deriving DecidableEq, Repr

/-- The shared type that a property mentions. -/
def PropertyType.shared? : PropertyType → Option String
  | layered _ (.shared n) => some n
  | _ => none

structure Property where
  name : String
  type : PropertyType
  optional : Bool
  description : Option String
deriving DecidableEq, Repr

structure ObjectShape where
  name : String
  properties : List Property
  description : Option String
deriving DecidableEq, Repr

def ObjectShape.shared (o : ObjectShape) : List String :=
  o.properties.filterMap fun p => p.type.shared?

structure EnumShape where
  name : String
  values : List (String × Option String)
  description : Option String
deriving DecidableEq, Repr

/-- The types that all modules share. -/
structure SharedShapes where
  enums : List EnumShape
  inputs : List ObjectShape
deriving DecidableEq, Repr

def SharedShapes.isEmpty (s : SharedShapes) : Bool := s.enums.isEmpty && s.inputs.isEmpty

/-- What a module is generated for. -/
inductive ModuleKind
  | operation (kind : OperationKind)
  | fragment
deriving DecidableEq, Repr

/-- The shapes for one operation or fragment. An object comes before those that refer to it; the
one for the whole selection is the last. -/
structure ModuleShape where
  name : String
  kind : ModuleKind
  file : Option String
  objects : List ObjectShape
  arguments : Option ObjectShape
deriving DecidableEq, Repr

/-- The shared types that a module mentions, sorted. -/
def ModuleShape.imports (m : ModuleShape) : List String :=
  Text.sorted ((m.objects ++ m.arguments.toList).flatMap ObjectShape.shared).eraseDups

end QueryTypes
