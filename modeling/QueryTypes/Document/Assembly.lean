import QueryTypes.Document.Basic
import QueryTypes.Failure
import QueryTypes.Table

/-! The one document that code is generated for: all operations, then all fragments. -/

namespace QueryTypes

/-- The document of some operations and fragments, once they were found to be valid. -/
def assemble (validity : Except Failure Unit) (operations : Table Operation)
    (fragments : Table Fragment) : Except Failure Document := do
  validity
  if operations.isEmpty && fragments.isEmpty then throw .nothingToGenerate
  return ⟨operations.values, fragments.values⟩

end QueryTypes
