import QueryTypes.Closure
import QueryTypes.Document.Printer
import QueryTypes.Table

/-! Which fragments a definition uses, directly or through other fragments, and the text of a
definition together with them. -/

namespace QueryTypes

mutual
/-- The names spread anywhere in a selection, in reading order. -/
def Selection.spreads : Selection → List String
  | .field _ _ ss => Selection.allSpreads ss
  | .spread n _ _ => [n.text]
  | .inline _ _ ss _ => Selection.allSpreads ss

def Selection.allSpreads : List Selection → List String
  | [] => []
  | s :: r => s.spreads ++ Selection.allSpreads r
end

/-- The fragments of a document by name; of several with one name the last one counts. -/
def Document.fragmentTable (d : Document) : Table Fragment :=
  Table.ofList (d.fragments.map fun f => (f.name.text, f))

/-- The spreads of a fragment. -/
def spreadsOf (table : Table Fragment) (name : String) : List String :=
  ((table.get? name).map fun f => Selection.allSpreads f.selections).getD []

/-- The known fragments reached from selections through one or more spreads. -/
def reached (table : Table Fragment) (ss : List Selection) : List String :=
  Closure.reach table.keys (spreadsOf table) (Selection.allSpreads ss)

/-- The fragments that an operation uses, sorted by name. -/
def Operation.uses (table : Table Fragment) (o : Operation) : List String :=
  Text.sorted (reached table o.selections)

/-- The other fragments that a fragment uses, sorted by name. -/
def Fragment.uses (table : Table Fragment) (f : Fragment) : List String :=
  Text.sorted ((reached table f.selections).filter (· != f.name.text))

/-- A text followed by the texts of the named fragments. -/
def withFragments (table : Table Fragment) (text : String) (names : List String) : String :=
  Text.joinWith "\n" (text :: names.filterMap fun n => (table.get? n).map Printer.fragment)

/-- An operation with every fragment that it uses. -/
def Operation.fullText (table : Table Fragment) (o : Operation) : String :=
  withFragments table (Printer.operation o) (o.uses table)

end QueryTypes
