import QueryTypes.Request
import QueryTypes.Shape.Basic

/-! Type expressions of the generated languages. In both a list of a type that may be null differs
from a type that may be null around a list. -/

namespace QueryTypes

inductive Language
  | typescript
  | flow
deriving DecidableEq, Repr, Inhabited

namespace Language

def text : Language → String
  | typescript => "typescript"
  | flow => "flow"

def ofTarget? : Target → Option Language
  | .typescript => some typescript
  | .flow => some flow
  | .json | .swift | .scala => none

/-- The usual extension of a file. -/
def extension : Language → String
  | typescript => "ts"
  | flow => "js"

end Language

/-- How a language is written. -/
structure Style where
  language : Language
  readOnly : Bool
  exact : Bool
deriving DecidableEq, Repr

namespace Style

def ofOptions (l : Language) (o : Options) : Style := ⟨l, o.readOnly, o.exactObjects⟩

/-- An expression that also allows null. -/
def nullable (y : Style) (e : String) : String :=
  match y.language with
  | .typescript => e ++ " | null"
  | .flow => "?" ++ e

/-- Brackets behind an expression of several words would only belong to its last one. -/
def grouped (e : String) : String := if e.contains ' ' then "(" ++ e ++ ")" else e

def listOf (y : Style) (e : String) : String :=
  match y.language, y.readOnly with
  | .typescript, true => "ReadonlyArray<" ++ e ++ ">"
  | .typescript, false => grouped e ++ "[]"
  | .flow, true => "$ReadOnlyArray<" ++ e ++ ">"
  | .flow, false => "Array<" ++ e ++ ">"

/-- The layers of a reference around an expression for its name. -/
def layers (y : Style) (leaf : String) : TypeRef → String
  | .named _ required => if required then leaf else y.nullable leaf
  | .list item required =>
    let e := y.listOf (y.layers leaf item)
    if required then e else y.nullable e

def typename (names : List String) : String :=
  if names.isEmpty then "string"
  else Text.joinWith " | " (names.map fun n => "\"" ++ n ++ "\"")

def expression (y : Style) : PropertyType → String
  | .typename names => typename names
  | .layered t leaf => y.layers leaf.text t

end Style
end QueryTypes
