import QueryTypes.Document.Basic

/-! Everything that can be defined at the top of a text: operations and fragments, and the
declarations that make up a schema. -/

namespace QueryTypes

structure InputDefinition where
  description : Option String
  name : String
  type : TypeRef
  default : Option Value
  directives : List Directive
deriving Inhabited

structure FieldDefinition where
  description : Option String
  name : String
  arguments : List InputDefinition
  type : TypeRef
  directives : List Directive
deriving Inhabited

structure EnumValueDefinition where
  description : Option String
  name : String
  directives : List Directive
deriving Inhabited

inductive TypeShape
  | scalar
  | object (interfaces : List String) (fields : List FieldDefinition)
  | interface (interfaces : List String) (fields : List FieldDefinition)
  | union (members : List String)
  | enum (values : List EnumValueDefinition)
  | input (fields : List InputDefinition)
deriving Inhabited

/-- A definition, or with `extends` an extension, of a named type. -/
structure TypeDefinition where
  description : Option String
  name : String
  directives : List Directive
  shape : TypeShape
  extends_ : Bool
deriving Inhabited

structure DirectiveDefinition where
  description : Option String
  name : String
  arguments : List InputDefinition
  repeatable : Bool
  locations : List String
deriving Inhabited

/-- The root types of a schema; with `extends` further ones. -/
structure SchemaDefinition where
  description : Option String
  directives : List Directive
  roots : List (OperationKind × String)
  extends_ : Bool
deriving Inhabited

inductive Definition
  | operation (o : Operation)
  | fragment (f : Fragment)
  | type (t : TypeDefinition)
  | directive (d : DirectiveDefinition)
  | schema (s : SchemaDefinition)
deriving Inhabited

def Definition.operation? : Definition → Option Operation
  | operation o => some o
  | _ => none

def Definition.fragment? : Definition → Option Fragment
  | fragment f => some f
  | _ => none

def Document.ofDefinitions (ds : List Definition) : Document :=
  ⟨ds.filterMap Definition.operation?, ds.filterMap Definition.fragment?⟩

end QueryTypes
