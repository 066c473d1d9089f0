import QueryTypes.Config.Basic
import QueryTypes.Schema.Endpoint

/-! Which of the configured sources the schema comes from. -/

namespace QueryTypes

/-- Files win over an endpoint; one of them has to be there. -/
def SchemaSource.origin (s : SchemaSource) : Except Failure SchemaOrigin :=
  match s.files, given s.endpoint with
  | f :: fs, _ => .ok (.files (f :: fs))
  | [], some url => .ok (.endpoint ⟨url, s.headers, .decimal s.timeout⟩)
  | [], none => .error (.configuration SchemaOrigin.missing)

end QueryTypes
