import QueryTypes.Project.File
import QueryTypes.Document.Assembly
import QueryTypes.Schema.Integrity
import QueryTypes.Validation.Document

/-! What the files of a project define together, and whether they are fit to generate from: every
text can be read, operations have names, names are used once, and with a schema its rules hold. -/

namespace QueryTypes
namespace ClientFiles

def definitions (files : List ClientFile) : List Definition := files.flatMap ClientFile.definitions

/-- The named operations; of several with one name the first one counts. -/
def operations (files : List ClientFile) : Table Operation :=
  Table.ofListFirst ((definitions files).filterMap fun d =>
    d.operation?.bind fun o => o.name.map fun n => (n.text, o))

/-- The fragments; of several with one name the first one counts. -/
def fragments (files : List ClientFile) : Table Fragment :=
  Table.ofListFirst ((definitions files).filterMap fun d => d.fragment?.map fun f => (f.name.text, f))

def document (files : List ClientFile) : Document :=
  ⟨(operations files).values, (fragments files).values⟩

/-- The names met so far. -/
structure Seen where
  operations : List String
  fragments : List String
deriving Inhabited

def repeatedName (name kind : String) (origin : Option Origin) : Diagnostic :=
  .about ("There are multiple definitions for the '" ++ name ++ "' " ++ kind) origin

def checkDefinition (l : Location) (seen : Seen) : Definition → Seen × List Diagnostic
  | .operation o =>
    match o.name with
    | none => (seen, [.about ("Anonymous operations are not supported (" ++ Location.text l ++ ")") o.origin])
    | some n =>
      ({ seen with operations := n.text :: seen.operations },
        if seen.operations.contains n.text then [repeatedName n.text "operation" o.origin] else [])
  | .fragment f =>
    ({ seen with fragments := f.name.text :: seen.fragments },
      if seen.fragments.contains f.name.text then [repeatedName f.name.text "fragment" f.origin] else [])
  | _ => (seen, [])

def checkDefinitions (l : Location) (seen : Seen) : List Definition → Seen × List Diagnostic
  | [] => (seen, [])
  | d :: r =>
    let (seen, found) := checkDefinition l seen d
    let (seen, rest) := checkDefinitions l seen r
    (seen, found ++ rest)

/-- What is wrong without any schema, file by file: what could not be read in a file comes before
its definitions. -/
def ownProblems (seen : Seen) : List ClientFile → List Diagnostic
  | [] => []
  | f :: r =>
    let (seen, found) := checkDefinitions f.place seen f.definitions
    f.problems ++ found ++ ownProblems seen r

/-- What is wrong for a schema, which has to be sound itself. -/
def schemaProblems (s : Schema) (files : List ClientFile) : Except Failure (List Diagnostic) := do
  let broken := s.complaints
  if !broken.isEmpty then throw (.breakdown (.invalidSchema (Text.joinWith "\n\n" broken)))
  (Validation.complaints s (document files)).mapError fun d => .breakdown (.undecided d.text)

/-- The rules of a schema are looked at once nothing else is wrong. -/
def problems (s : Option Schema) (files : List ClientFile) : Except Failure (List Diagnostic) :=
  match ownProblems ⟨[], []⟩ files, s with
  | [], some s => schemaProblems s files
  | own, _ => .ok own

def validity (s : Option Schema) (files : List ClientFile) : Except Failure Unit := do
  let found ← problems s files
  if found.isEmpty then return ()
  throw (.validation "Validation of GraphQL query document failed" (found.map Diagnostic.text))

/-- The document to generate from. -/
def assembled (s : Option Schema) (files : List ClientFile) : Except Failure Document :=
  assemble (validity s files) (operations files) (fragments files)

end ClientFiles
end QueryTypes
