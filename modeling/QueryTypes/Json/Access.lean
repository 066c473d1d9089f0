import QueryTypes.Json.Value

/-! Fields of objects by key. A field that is missing is null, and one of another kind than asked
for counts as missing. -/

namespace QueryTypes.Json

def get (v : Json) (key : String) : Json := (v.field? key).getD .null

def asText? : Json → Option String
  | str s => some s
  | _ => none

def asItems : Json → List Json
  | arr xs => xs
  | _ => []

def asFields : Json → List (String × Json)
  | obj fs => fs
  | _ => []

/-- The texts in a list. -/
def asTexts (v : Json) : List String := v.asItems.filterMap asText?

def text? (v : Json) (key : String) : Option String := (v.get key).asText?

def text (v : Json) (key : String) : String := (v.text? key).getD ""

def texts (v : Json) (key : String) : List String := (v.get key).asTexts

def items (v : Json) (key : String) : List Json := (v.get key).asItems

def flag (v : Json) (key : String) (default : Bool) : Bool :=
  match v.get key with
  | bool b => b
  | _ => default

def count? (v : Json) (key : String) : Option Nat :=
  match v.get key with
  | int n => some n.toNat
  | _ => none

def ofTexts (xs : List String) : Json := arr (xs.map str)

def ofText? : Option String → Json
  | some s => str s
  | none => null

end QueryTypes.Json
