import QueryTypes.Text.Suggestion
import QueryTypes.Validation.Visit

/-! Rules about fields: they exist on the type that they are selected on, and have a block below
them exactly when their type has fields. -/

namespace QueryTypes

/-- A message about a single place. -/
def Diagnostic.about (message : String) (origin : Option Origin) : Diagnostic :=
  ⟨message, origin.toList⟩

namespace Validation

/-- Whether a field has a block of selections exactly when its type needs one. -/
def blocksFit (s : Schema) : Visit → List Diagnostic
  | .field ⟨_, some d⟩ h block open_ =>
    let isLeaf := (s.type? d.type.leaf).any NamedType.isLeaf
    if isLeaf && open_ then
      [.about ("Field '" ++ h.name ++ "' must not have a selection since type '" ++ d.type.text
        ++ "' has no subfields.") block]
    else if !isLeaf && !open_ then
      [.about ("Field '" ++ h.name ++ "' of type '" ++ d.type.text
        ++ "' must have a selection of subfields. Did you mean '" ++ h.name ++ " \x7b ... \x7d'?")
        h.origin]
    else []
  | _ => []

def has (field : String) (t : NamedType) : Bool := (t.field? field).isSome

/-- The object types below an abstract type that have a field, and their interfaces that have it.
Those that are met most often come first, then interfaces before the types below them. -/
def narrowerTypes (s : Schema) (t : NamedType) (field : String) : List String :=
  if !t.isAbstract then []
  else
    let objects := (s.possibleTypes t).filter (has field)
    let interfaces := (objects.flatMap fun o => o.interfaces.filterMap s.type?).filter (has field)
    let met (u : NamedType) : Nat :=
      if u.isObject then 1 else (interfaces.filter (·.name == u.name)).length
    let before (a b : NamedType) : Bool :=
      if met a ≠ met b then met b < met a
      else if a.isInterface && s.covers a b then true
      else if b.isInterface && s.covers b a then false
      else !Text.keyBefore (Text.orderKey b.name) (Text.orderKey a.name)
    let candidates := ((objects ++ interfaces).map NamedType.name).eraseDups.filterMap s.type?
    (candidates.mergeSort before).map NamedType.name

/-- Where a field that a type lacks may be meant: on a narrower type, or under a similar name. -/
def fieldHint (s : Schema) (t : NamedType) (field : String) : String :=
  let narrower := Text.didYouMean "to use an inline fragment on " (narrowerTypes s t field)
  if narrower.isEmpty then Text.didYouMean "" (Text.suggestions field (t.fields.map Field.name))
  else narrower

def fieldsExist (s : Schema) : Visit → List Diagnostic
  | .field ⟨some t, none⟩ h _ _ =>
    [.about ("Cannot query field '" ++ h.name ++ "' on type '" ++ t.name ++ "'."
      ++ fieldHint s t h.name) h.origin]
  | _ => []

end Validation
end QueryTypes
