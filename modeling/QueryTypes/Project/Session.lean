import QueryTypes.Config.Basic
import QueryTypes.Path.Uri
import QueryTypes.Project.Validity
import QueryTypes.Schema.Resolve

/-! A project at work: its files, read when they are first needed and again when they change, and
the schema that its documents are checked against. -/

namespace QueryTypes

/-- Files and schema are there once they were loaded. -/
structure Project where
  globs : GlobSet
  templateTag : String
  excludes : List String
  origin : Option SchemaOrigin
  files : Option (List ClientFile)
  schema : Option Schema
deriving Inhabited

def Project.ofClient (c : ClientConfig) (origin : Option SchemaOrigin) (root : Location) : Project :=
  ⟨GlobSet.ofPatterns root c.includes c.excludes, c.templateTag, c.excludes, origin, none, none⟩

/-- What the source of a project gives for a schema. -/
def Project.resolve (p : Project) (send : HttpRequest → Work HttpReply) (tag : Option String) :
    Work Schema :=
  match p.origin with
  | none => throw (.breakdown (.missingAttribute "there is no source for a schema"))
  | some o => o.resolve send tag

/-- A project, the world that it is in, and the schema kept from an earlier generation. -/
structure Session where
  world : World
  project : Project
  kept : Option Schema
deriving Inhabited

/-- Work in a session. What was done before a failure stays done. -/
abbrev Job := ExceptT Failure (StateM Session)

namespace Job

def ofWork {α : Type} (w : Work α) : Job α := do
  let s ← get
  let (r, world) := w.perform s.world
  set { s with world := world }
  match r with
  | .ok a => return a
  | .error f => throw f

def ofExcept {α : Type} : Except Failure α → Job α
  | .ok a => pure a
  | .error f => throw f

def perform {α : Type} (j : Job α) (s : Session) : Except Failure α × Session := j.run.run s

end Job

namespace Session

def logPart : String := "project"

def setFiles (files : Option (List ClientFile)) : Job Unit :=
  modify fun s => { s with project := { s.project with files := files } }

/-- Reads all files. Files count as loaded once all of them could be dealt with. -/
def load : Job Unit := do
  let p := (← get).project
  let tree := (← get).world.tree
  match ClientFile.places p.globs tree with
  | .error f =>
    setFiles (p.files.map fun _ => [])
    throw (.breakdown f)
  | .ok places =>
    let (files, fault) := ClientFile.readAll p.templateTag tree places
    match fault with
    | some f =>
      setFiles (p.files.map fun _ => files)
      throw (.breakdown f)
    | none =>
      setFiles (some files)
      Job.ofWork (Work.debug logPart ("Loaded " ++ toString files.length ++ " client documents from "
        ++ Location.text p.globs.root))

def files : Job (List ClientFile) := do
  match (← get).project.files with
  | some fs => return fs
  | none =>
    load
    return (← get).project.files.getD []

/-- Looks at a place again: a file that belongs to the project is read, any other one dropped. -/
def placeChanged (l : Location) : Job Unit := do
  let known ← files
  let p := (← get).project
  let tree := (← get).world.tree
  if tree.isFile l && p.globs.matchesLocation l then
    match ClientFile.read p.templateTag tree l with
    | .error f => throw (.breakdown f)
    | .ok f =>
      setFiles (some (f.put known))
      Job.ofWork (Work.debug logPart ("Reparsed " ++ Location.text l))
  else if known.any (·.place == l) then
    setFiles (some (ClientFile.drop l known))
    Job.ofWork (Work.debug logPart ("Dropped " ++ Location.text l))

/-- The same for a URI or a path. -/
def fileChanged (uri : String) : Job Unit := do
  let _ ← files
  let cwd := (← get).world.cwd
  match Uri.toPath? uri with
  | none => throw (.breakdown (.badValue "Invalid IPv6 URL"))
  | some p =>
    if p.segments.any fun s => s.toList.contains '\x00' then
      throw (.breakdown (.badValue "embedded null byte"))
    placeChanged (Path.resolve cwd p)

def operations : Job (Table Operation) := do return ClientFiles.operations (← files)

def fragments : Job (Table Fragment) := do return ClientFiles.fragments (← files)

def validate : Job Unit := do
  let fs ← files
  Job.ofExcept (ClientFiles.validity (← get).project.schema fs)

def assembled : Job Document := do
  let fs ← files
  Job.ofExcept (ClientFiles.assembled (← get).project.schema fs)

def schemaFromOrigin (send : HttpRequest → Work HttpReply) (tag : Option String) : Job Schema := do
  Job.ofWork ((← get).project.resolve send tag)

/-- Loads a schema and keeps it for validation. -/
def resolveWith {m : Type → Type} [Monad m] [MonadLiftT Job m] (resolve : m Schema) : m Schema := do
  let schema ← resolve
  liftM (modify fun s => { s with project := { s.project with schema := some schema } } : Job Unit)
  return schema

def resolveSchema (send : HttpRequest → Work HttpReply) (tag : Option String) : Job Schema :=
  resolveWith (schemaFromOrigin send tag)

end Session
end QueryTypes
