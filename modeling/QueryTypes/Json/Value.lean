import QueryTypes.Decimal.Number
import QueryTypes.Text.Quoted

/-! Data of the kind that JSON writes down. Objects keep the order of their fields. -/

namespace QueryTypes

inductive Json
  | null
  | bool (b : Bool)
  | int (n : Int)
  | float (x : Float)
  | str (s : String)
  | arr (items : List Json)
  | obj (fields : List (String × Json))
deriving Inhabited

namespace Json

def field? (key : String) : Json → Option Json
  | obj fields => fields.lookup key
  | _ => none

def isObj : Json → Bool
  | obj _ => true
  | _ => false

/-- Whether a value counts as present: null, false, zero and what is empty do not. -/
def holds : Json → Bool
  | null => false
  | bool b => b
  | int n => n != 0
  | float x => x != 0.0
  | str s => s != ""
  | arr xs => !xs.isEmpty
  | obj fs => !fs.isEmpty

/-- Sets a field; a key that is there keeps its place. -/
def setField (key : String) (v : Json) : List (String × Json) → List (String × Json)
  | [] => [(key, v)]
  | (k, w) :: r => if k = key then (k, v) :: r else (k, w) :: setField key v r

end Json
end QueryTypes
