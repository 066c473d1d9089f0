import QueryTypes.Source.Basic
import QueryTypes.TypeRef

/-! Operations and fragments as they are written: selections with arguments and directives.
Pieces that a message may point at carry their origin; a piece that was not read from a text has
none. Meaning never depends on origins. -/

namespace QueryTypes

structure Name where
  text : String
  origin : Option Origin
deriving DecidableEq, Inhabited

inductive Value
  | ref (name : String) (origin : Option Origin)
  | int (digits : String) (origin : Option Origin)
  | float (digits : String) (origin : Option Origin)
  | string (text : String) (block : Bool) (origin : Option Origin)
  | boolean (b : Bool) (origin : Option Origin)
  | null (origin : Option Origin)
  | enum (name : String) (origin : Option Origin)
  | list (items : List Value) (origin : Option Origin)
  | object (fields : List (Name × Value)) (origin : Option Origin)
deriving Inhabited

def Value.origin : Value → Option Origin
  | ref _ o | int _ o | float _ o | string _ _ o | boolean _ o | null o | enum _ o
  | list _ o | object _ o => o

def Value.isNull : Value → Bool
  | null _ => true
  | _ => false

structure Argument where
  name : Name
  value : Value
deriving Inhabited

structure Directive where
  name : String
  arguments : List Argument
  origin : Option Origin
deriving Inhabited

/-- A field without what is selected below it. -/
structure FieldHead where
  aliasName : Option String
  name : String
  arguments : List Argument
  directives : List Directive
  origin : Option Origin
deriving Inhabited

/-- The key of the field in a response. -/
def FieldHead.key (f : FieldHead) : String := f.aliasName.getD f.name

/-- A field without a selection block has an empty list below it; a block is never empty. -/
inductive Selection
  | field (head : FieldHead) (block : Option Origin) (selections : List Selection)
  | spread (name : Name) (directives : List Directive) (origin : Option Origin)
  | inline (condition : Option Name) (directives : List Directive) (selections : List Selection)
      (origin : Option Origin)
deriving Inhabited

mutual
/-- The number of selections inside one another and beside one another. -/
def Selection.weight : Selection → Nat
  | .field _ _ ss => Selection.weights ss + 1
  | .spread .. => 1
  | .inline _ _ ss _ => Selection.weights ss + 1

def Selection.weights : List Selection → Nat
  | [] => 0
  | s :: r => s.weight + Selection.weights r
end

inductive OperationKind
  | query
  | mutation
  | subscription
deriving DecidableEq, Repr, Inhabited

def OperationKind.text : OperationKind → String
  | query => "query"
  | mutation => "mutation"
  | subscription => "subscription"

def OperationKind.ofText? : String → Option OperationKind
  | "query" => some query
  | "mutation" => some mutation
  | "subscription" => some subscription
  | _ => none

structure VariableDefinition where
  name : Name
  type : TypeRef
  typeOrigin : Option Origin
  leafOrigin : Option Origin
  default : Option Value
  directives : List Directive
  origin : Option Origin
deriving Inhabited

structure Operation where
  kind : OperationKind
  name : Option Name
  variableDefs : List VariableDefinition
  directives : List Directive
  selections : List Selection
  origin : Option Origin
deriving Inhabited

structure Fragment where
  name : Name
  condition : Name
  directives : List Directive
  selections : List Selection
  origin : Option Origin
deriving Inhabited

/-- Operations in order, then fragments in order. -/
structure Document where
  operations : List Operation
  fragments : List Fragment
deriving Inhabited

/-- The file that a definition was read from: none for a text without a name of its own. -/
def sourceFile (o : Option Origin) : Option String :=
  match o with
  | none => none
  | some o => if o.source.name = "" ∨ o.source.name = Source.unnamed then none else some o.source.name

end QueryTypes
