import QueryTypes.Request
import QueryTypes.Schema.Endpoint
import QueryTypes.Text.Quoted
import QueryTypes.Work

/-! Loads the schema from where it comes from. -/

namespace QueryTypes
namespace SchemaOrigin

/-- Schema files, of which there has to be one. -/
def ofFiles (paths : List String) : Except Failure SchemaOrigin :=
  if paths.isEmpty then .error (.configuration "At least one local schema file is required")
  else .ok (.files paths)

def place : SchemaOrigin → String
  | files _ => "local schema files"
  | endpoint e => "endpoint " ++ e.url

/-- Only registries have schemas by tag, so that a tag means nothing here. -/
def noteTag (o : SchemaOrigin) (tag : Option String) : Work Unit :=
  match given tag with
  | some t => Work.debug "schema" ("Ignoring schema tag " ++ Text.quoted t ++ " for " ++ o.place)
  | none => pure ()

/-- The schema of files, made by given readers. -/
def resolveFiles (readers : SchemaReaders) (paths : List String) (tag : Option String) :
    Work Schema := do
  (files paths).noteTag tag
  let w ← get
  match SchemaFiles.loadWith readers w.tree w.cwd paths with
  | .ok s => pure s
  | .error e => throw e.failure

/-- The schema that an endpoint replies. -/
def resolveEndpoint (e : Endpoint) (send : HttpRequest → Work HttpReply) (tag : Option String) :
    Work Schema := do
  (endpoint e).noteTag tag
  match ← e.load send with
  | .ok s => pure s
  | .error e => throw e.failure

def resolve (o : SchemaOrigin) (send : HttpRequest → Work HttpReply) (tag : Option String) :
    Work Schema :=
  match o with
  | files paths => resolveFiles .standard paths tag
  | endpoint e => resolveEndpoint e send tag

end SchemaOrigin
end QueryTypes
