import QueryTypes.Document.Typename
import QueryTypes.Output.Types
import QueryTypes.Output.Write

/-! Generates the code for a document and writes it. -/

namespace QueryTypes

/-- What to generate, and where. -/
structure Generation where
  document : Document
  schema : Schema
  output : String
  only : Option String
  target : Target
  beside : Bool
  templateTag : String
  options : Options

namespace Generation

/-- The document with `__typename` where the options ask for it. -/
def preparedDocument (g : Generation) : Document :=
  if g.options.addTypename then g.document.addTypename else g.document

def emission (g : Generation) (cwd : Location) : Emission :=
  ⟨g.preparedDocument, g.schema, g.output, g.beside, g.options, cwd⟩

/-- Whether a file is wanted when only the files of one source are. -/
def isWanted (cwd : Location) (only : Option String) (f : GeneratedFile) : Bool :=
  match given only, f.source with
  | some o, some s => Path.resolve cwd s == Path.resolve cwd (Path.ofText o)
  | _, _ => true

/-- The files of a generation, the map of operation ids last. -/
def files (emitters : Emitters) (g : Generation) (cwd : Location) : Except Failure (List GeneratedFile) := do
  match emitters.get? g.target with
  | none => throw (.generation ("No emitter is installed for the '" ++ g.target.text ++ "' target"))
  | some emitter =>
    let wanted := (← emitter.emit (g.emission cwd)).filter (isWanted cwd g.only)
    match given g.options.operationIdsPath, g.options.writeOperationIds with
    | some path, true =>
      let ids ← (Manifest.operationIds g.preparedDocument).mapError ShapeError.failure
      return wanted ++ [⟨Path.ofText path, Manifest.fileText ids, none⟩]
    | _, _ => return wanted

/-- Writes the files of a generation and counts them. -/
def run (emitters : Emitters) (refuses : Refusals) (g : Generation) : Work Nat := do
  let fs ← liftExcept (g.files emitters (← get).cwd)
  writeFiles refuses fs
  return fs.length
where
  liftExcept {α : Type} : Except Failure α → Work α
  | .ok a => pure a
  | .error f => throw f

end Generation
end QueryTypes
