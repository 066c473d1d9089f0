import QueryTypes.Text.Quoted

/-! How work can fail: with an answer that names the cause, or by a breakdown. -/

namespace QueryTypes

/-- Breakdowns that are no answer of their own to a bad input. -/
inductive Fault
  | badValue (message : String)
  | missingKey (key : String)
  | missingAttribute (message : String)
  | wrongType (message : String)
  | outOfRange (message : String)
  | notSupported (message : String)
  | undefined (message : String)
  | unexpected (message : String)
  | invalidSchema (message : String)
  | undecided (message : String)
  | system (message : String)
  | undecodable
  | isDirectory
  | notDirectory
  | alreadyExists
  | notFound
  | busy
  | endless
deriving DecidableEq, Inhabited

/-- What a breakdown says of itself; of what the file system says nothing is repeated. -/
def Fault.detail? : Fault → Option String
  | badValue m | missingAttribute m | wrongType m | outOfRange m | notSupported m | undefined m
  | unexpected m | invalidSchema m | undecided m | system m => some m
  | missingKey k => some (Text.quoted k)
  | endless => some "maximum recursion depth exceeded"
  | undecodable | isDirectory | notDirectory | alreadyExists | notFound | busy => none

/-- Why a generation ended without its files. Each cause but a breakdown has its message. -/
inductive Failure
  | configuration (message : String)
  | schema (message : String)
  | noDefinitions (message : String)
  | validation (message : String) (problems : List String)
  | generation (message : String)
  | other (message : String)
  | breakdown (f : Fault)
deriving DecidableEq, Inhabited

namespace Failure

/-- The failure for documents without operations and fragments. -/
def nothingToGenerate : Failure :=
  .noDefinitions "No operations or fragments found to generate code for."

/-- The whole text of a failure; each problem has a line that starts with a dash. -/
def text : Failure → String
  | configuration m | schema m | noDefinitions m | generation m | other m => m
  | validation m [] => m
  | validation m ps => m ++ "\n" ++ Text.joinWith "\n" (ps.map fun p => "  - " ++ p)
  | breakdown f => f.detail?.getD ""

/-- Whether the failure names its cause. -/
def isExpected : Failure → Bool
  | breakdown _ => false
  | _ => true

end Failure
end QueryTypes
