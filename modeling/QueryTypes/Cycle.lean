import QueryTypes.Text.Basic

/-! Ways that lead from a name back to itself, where labelled steps lead from name to name. -/

namespace QueryTypes

/-- The labels on a way from a name back to it. -/
structure Cycle (α : Type) where
  start : String
  labels : List α
deriving Inhabited

namespace Cycle

variable {α : Type}

/-- Names that were left before, and the ways back found so far. -/
structure Search (α : Type) where
  visited : List String
  found : List (Cycle α)
deriving Inhabited

/-- Goes on from a name, depth first; every name is left once. The path holds the names that are
being left with the labels of the steps taken from them. -/
def search (next : String → List (α × String)) :
    Nat → List (String × α) → Search α → String → Search α
  | 0, _, st, _ => st
  | n + 1, path, st, name =>
    if st.visited.contains name then st
    else (next name).foldl (fun st step =>
      let way := path ++ [(name, step.1)]
      if way.any (·.1 == step.2) then
        { st with found := st.found ++ [⟨step.2, (way.dropWhile (·.1 != step.2)).map Prod.snd⟩] }
      else search next n way st step.2) { st with visited := name :: st.visited }

/-- The ways back that can be met from a name, apart from steps of names visited before. -/
def fromName (next : String → List (α × String)) (names visited : List String) (name : String) :
    Search α :=
  search next (names.length + 1) [] ⟨visited, []⟩ name

end Cycle
end QueryTypes
