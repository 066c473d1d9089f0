import QueryTypes.Text.Basic

/-! What can be reached from some names by steps, where each step leads from a name to further
names and only known names count. -/

namespace QueryTypes.Closure

/-- Names found so far, and those of them whose steps are still to be taken. -/
structure Frontier where
  found : List String
  pending : List String

/-- Adds a known name that was not found before. -/
def Frontier.note (known : String → Bool) (fr : Frontier) (n : String) : Frontier :=
  if fr.found.contains n || !known n then fr else ⟨n :: fr.found, n :: fr.pending⟩

/-- Takes the steps of at most the given number of names. -/
def Frontier.close (known : String → Bool) (next : String → List String) :
    Nat → Frontier → List String
  | 0, fr => fr.found
  | n + 1, fr =>
    match fr.pending with
    | [] => fr.found
    | k :: rest =>
      Frontier.close known next n ((next k).foldl (Frontier.note known) ⟨fr.found, rest⟩)

/-- The names of `names` that the start names are or lead to. -/
def reach (names : List String) (next : String → List String) (start : List String) :
    List String :=
  let known (n : String) : Bool := names.contains n
  Frontier.close known next (names.length + 1) (start.foldl (Frontier.note known) ⟨[], []⟩)

end QueryTypes.Closure
