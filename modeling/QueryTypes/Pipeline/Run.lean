import QueryTypes.Pipeline.Dispatch
import QueryTypes.Project.Session

/-! One generation from beginning to end: the schema is loaded, the documents are assembled, and
the result is handed on. A schema that was loaded is kept for the next generation. -/

namespace QueryTypes.Pipeline

/-- What a generation is for. -/
def purpose (r : Request) : String :=
  "Generating query files with '" ++ r.target.text ++ "' target"

section

variable {m : Type → Type} [Monad m] [MonadLiftT Job m] [MonadExceptOf Failure m]

/-- The schema that is kept, or one that is loaded now. -/
def schema (resolve : m Schema) : m Schema := do
  match (← liftM (get : Job Session)).kept with
  | some s => return s
  | none =>
    let s ← Session.resolveWith resolve
    liftM (modify fun session => { session with kept := some s } : Job Unit)
    return s

/-- Generates for a schema from the documents of the project, which are checked first. -/
def generate (backend : Generation → m Nat) (r : Request) (s : Schema) : m Nat := do
  let d ← liftM Session.assembled
  let n ← dispatch backend d s r
  liftM (Job.ofWork (Work.info "runner" (purpose r ++ " - wrote " ++ toString n ++ " files")))
  return n

/-- Generates once, with a way to load a schema and a backend, and gives the number of files
written. -/
def runWith (resolve : m Schema) (backend : Generation → m Nat) (r : Request) : m Nat := do
  liftM (Job.ofWork (Work.debug "runner" (purpose r)))
  generate backend r (← schema resolve)

end

def run (send : HttpRequest → Work HttpReply) (backend : Generation → Work Nat) (r : Request) :
    Job Nat :=
  runWith (Session.schemaFromOrigin send r.schemaTag) (fun g => Job.ofWork (backend g)) r

/-- A generation that keeps no schema, neither an earlier one nor a later one. -/
def runAfresh (send : HttpRequest → Work HttpReply) (backend : Generation → Work Nat) (r : Request) :
    Job Nat := do
  let kept := (← get).kept
  modify fun s => { s with kept := none }
  tryFinally (run send backend r) (modify fun s => { s with kept := kept })

end QueryTypes.Pipeline
