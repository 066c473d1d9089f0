import QueryTypes.Validation.Arguments
import QueryTypes.Validation.Merge
import QueryTypes.Validation.Subscription
import QueryTypes.Validation.Variables

/-! All rules together: what is wrong with a document for a schema, in reading order. Fragments
need not be used, and directives need not be declared. -/

namespace QueryTypes.Validation

/-- The number of complaints after which no more are looked for. -/
def limit : Nat := 100

def tooMany : Diagnostic :=
  ⟨"Too many validation errors, error limit reached. Validation aborted.", []⟩

def limited (ds : List Diagnostic) : List Diagnostic :=
  if limit < ds.length then ds.take limit ++ [tooMany] else ds

/-- What subscriptions select at their top, by the visit that each one starts with. -/
def subscriptions (s : Schema) (table : Table Fragment) (visits : List Visit) :
    Except Diagnostic (Findings Diagnostic) := do
  let found ← visits.zipIdx.mapM fun v =>
    match v.1 with
    | .operation o => do return (← subscriptionComplaints s table o).map fun d => (v.2, d)
    | _ => pure []
  return found.flatten

/-- The findings of each rule. -/
def findings (s : Schema) (d : Document) : Except Diagnostic (List (Findings Diagnostic)) := do
  let table := d.fragmentTable
  let visits := s.documentVisits d
  let each (rule : Visit → List Diagnostic) := Findings.ofVisits rule visits
  return [
    ← subscriptions s table visits,
    each (typesKnown s),
    each (conditionsComposite s),
    each (variablesAreInputs s),
    each (blocksFit s),
    each (fieldsExist s),
    each (fragmentsKnown table),
    each (spreadsPossible s table),
    Findings.ofHistory (noCycles table) [] visits,
    each variablesOnce,
    each (usesDeclared s table),
    each (variablesUsed s table),
    each (directivesOnce s),
    each (argumentsExist s),
    each argumentsOnce,
    each (valuesFit s),
    each (requiredArguments s),
    each (usesFit s table),
    Findings.ofHistory (Merge.fieldsMerge s table (Merge.depth d)) ⟨[], []⟩ visits,
    each membersOnce]

/-- What is wrong with a document. A condition at the top of a subscription that cannot be decided
stops the search. -/
def complaints (s : Schema) (d : Document) : Except Diagnostic (List Diagnostic) := do
  return limited (Findings.inOrder (← findings s d))

end QueryTypes.Validation
