/-! References to types: a name inside lists, where each layer may be required. A required layer
around a required layer cannot be written. -/

namespace QueryTypes

inductive TypeRef
  | named (name : String) (required : Bool)
  | list (item : TypeRef) (required : Bool)
deriving DecidableEq, Repr, Inhabited

namespace TypeRef

def isRequired : TypeRef → Bool
  | named _ r => r
  | list _ r => r

/-- The same reference with its outermost layer required or not. -/
def withRequired (r : Bool) : TypeRef → TypeRef
  | named n _ => named n r
  | list t _ => list t r

def optional (t : TypeRef) : TypeRef := t.withRequired false

def isList : TypeRef → Bool
  | named .. => false
  | list .. => true

/-- The name inside all layers. -/
def leaf : TypeRef → String
  | named n _ => n
  | list t _ => t.leaf

/-- The item of a list, or the reference itself when it is no list. -/
def item : TypeRef → TypeRef
  | list t _ => t
  | t => t

def text : TypeRef → String
  | named n r => n ++ (if r then "!" else "")
  | list t r => "[" ++ t.text ++ "]" ++ (if r then "!" else "")

@[simp] theorem isRequired_withRequired (r : Bool) (t : TypeRef) :
    (t.withRequired r).isRequired = r := by cases t <;> rfl

@[simp] theorem leaf_withRequired (r : Bool) (t : TypeRef) :
    (t.withRequired r).leaf = t.leaf := by cases t <;> rfl

end TypeRef
end QueryTypes
