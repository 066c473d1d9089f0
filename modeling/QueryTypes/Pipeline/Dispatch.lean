import QueryTypes.Output.Generate

/-! Hands a document to what generates code. Expected failures pass unchanged; a breakdown becomes
a failure of the generation for the target. -/

namespace QueryTypes

def Request.generation (r : Request) (d : Document) (s : Schema) : Generation :=
  ⟨d, s, r.outputPath, r.only, r.target, r.besideSources, r.templateTag, r.options⟩

/-- A breakdown as a failure to generate for a target. -/
def Failure.during (t : Target) : Failure → Failure
  | .breakdown f =>
    .generation ("Generating '" ++ t.text ++ "' output failed"
      ++ ((f.detail?.map fun d => ": " ++ d).getD ""))
  | f => f

/-- Runs a generation once and gives the number of files. -/
def dispatch {m : Type → Type} [Monad m] [MonadExceptOf Failure m] (backend : Generation → m Nat)
    (d : Document) (s : Schema) (r : Request) : m Nat :=
  tryCatchThe Failure (backend (r.generation d s)) fun f => throwThe Failure (f.during r.target)

end QueryTypes
