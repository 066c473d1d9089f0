import QueryTypes.Failure
import QueryTypes.Json.Reader
import QueryTypes.Schema.Introspection
import QueryTypes.Text.Utf8
import QueryTypes.Tree.Basic

/-! Schemas from files: declarations in one or several files, or one introspection result. -/

namespace QueryTypes

/-- Why no schema could be loaded. -/
inductive SchemaError
  | notFound (path : String)
  | noFiles (paths : List String)
  | mixed
  | unreadable (path detail : String)
  | notIntrospection (source : String)
  | badIntrospection (source detail : String)
  | badDeclarations (detail : String)
  | unreachable (url detail : String)
  | notJson (url : String)
  | refused (url : String) (messages : List String)
deriving DecidableEq, Inhabited

def SchemaError.message : SchemaError → String
  | notFound p => "Schema file not found: " ++ p
  | noFiles ps => "No schema files found in " ++ Text.joinWith ", " ps
  | mixed => "An introspection result cannot be combined with other schema files"
  | unreadable p d => "Could not read " ++ p ++ d
  | notIntrospection s => s ++ " does not contain an introspection result"
  | badIntrospection s d => "Invalid introspection result in " ++ s ++ ": " ++ d
  | badDeclarations d => "Error loading schema: " ++ d
  | unreachable u d => "Could not fetch schema from " ++ u ++ ": " ++ d
  | notJson u => "Endpoint " ++ u ++ " did not return JSON"
  | refused u ms => "Introspection failed for " ++ u ++ ": " ++ Text.joinWith "; " ms

/-- Loading fails with a cause or breaks down. -/
inductive LoadError
  | schema (e : SchemaError)
  | fault (f : Fault)
deriving DecidableEq, Inhabited

def LoadError.failure : LoadError → Failure
  | schema e => .schema e.message
  | fault f => .breakdown f

/-! ### What makes schemas -/

/-- Why a reader makes no schema: it says so in words, or it breaks down. -/
inductive Unmade
  | words (message : String)
  | breakdown (f : Fault)
deriving DecidableEq, Inhabited

def Unmade.loadError (said : String → SchemaError) : Unmade → LoadError
  | words m => .schema (said m)
  | breakdown f => .fault f

/-- What makes schemas of declarations, and of what a server tells about its own. -/
structure SchemaReaders where
  declarations : List Char → Except Unmade Schema
  introspection : Json → Except Unmade Schema

def BuildError.unmade : BuildError → Unmade
  | parse (.at d) => .words d.text
  | parse .cutShort => .breakdown (.outOfRange "string index out of range")
  | declarations cs => .words (Text.joinWith "\n\n" cs)
  | directive d => .words d.text

def IntrospectionFault.unmade : IntrospectionFault → Unmade
  | invalid m => .words m
  | missingField n => .breakdown (.missingKey n)
  | cutShort => .breakdown (.outOfRange cutShort.text)
  | e => .breakdown (.missingAttribute e.text)

def SchemaReaders.standard : SchemaReaders where
  declarations s := (Schema.ofText s).mapError BuildError.unmade
  introspection v := (Introspection.schema v).mapError IntrospectionFault.unmade

/-! ### Files -/

def declarationExtensions : List String := [".graphql", ".graphqls", ".gql"]

def hasEnding (s ending : String) : Bool := ending.toList.reverse.isPrefixOf s.toList.reverse

namespace SchemaFiles

/-- The files at and below the given paths: a file itself, of a directory the files with
declarations, sorted. -/
def collect (t : FileTree) (cwd : Location) (paths : List String) : Except SchemaError (List String) := do
  return (← paths.mapM one).flatten
where
  one (path : String) : Except SchemaError (List String) :=
    match t.findText? cwd path with
    | none => .error (.notFound path)
    | some l =>
      if t.isFile l then .ok [path]
      else
        let below := t.entries.filterMap fun e =>
          match e.2, Path.below? l e.1 with
          | .file _, some rest =>
            if declarationExtensions.any (hasEnding (e.1.getLast?.getD "")) then some (joinText path rest) else none
          | _, _ => none
        .ok (Text.sorted below)
  joinText (path : String) (rest : List String) : String :=
    (if hasEnding path "/" then path else path ++ "/") ++ Text.joinWith "/" rest

/-- The text of a file with its line ends unified. -/
def text (t : FileTree) (cwd : Location) (path : String) : Except LoadError (List Char) :=
  match (t.findText? cwd path).bind t.bytes? with
  | none => .error (.schema (.unreadable path ""))
  | some b =>
    match Text.decode? b with
    | none => .error (.fault .undecodable)
    | some s => .ok (Text.unifyLines s.toList)

/-- What was told, alone or as the data of a reply. -/
def told : Json → Json
  | .obj fs => (fs.lookup "data").getD (.obj fs)
  | v => v

/-- A schema from an introspection result, made by a given reader. -/
def ofIntrospectionWith (read : Json → Except Unmade Schema) (source : String) (v : Json) :
    Except LoadError Schema :=
  if ((told v).field? "__schema").isNone then .error (.schema (.notIntrospection source))
  else (read (told v)).mapError (Unmade.loadError (.badIntrospection source))

def ofIntrospection : String → Json → Except LoadError Schema :=
  ofIntrospectionWith SchemaReaders.standard.introspection

/-- A schema from declarations, made by a given reader. -/
def ofDeclarationsWith (read : List Char → Except Unmade Schema) (texts : List (List Char)) :
    Except LoadError Schema :=
  (read (Text.joinOn '\n' texts)).mapError (Unmade.loadError .badDeclarations)

/-- The schema in the text of an introspection result. -/
def ofResultText (readers : SchemaReaders) (path : String) (s : List Char) : Except LoadError Schema :=
  if s.head? = some '\uFEFF' then .error (.schema (.unreadable path
    ": Unexpected UTF-8 BOM (decode using utf-8-sig): line 1 column 1 (char 0)"))
  else match Json.read (String.ofList s) with
    | .ok v => ofIntrospectionWith readers.introspection path v
    | .error .malformed => .error (.schema (.unreadable path ""))
    | .error .tooManyDigits => .error (.fault (.badValue "too many digits in a whole number"))

/-- Loads a schema from files: an introspection result on its own, or declarations. -/
def loadWith (readers : SchemaReaders) (t : FileTree) (cwd : Location) (paths : List String) :
    Except LoadError Schema := do
  let files ← (collect t cwd paths).mapError .schema
  match files.find? (hasEnding · ".json") with
  | some path =>
    if 1 < files.length then throw (.schema .mixed)
    ofResultText readers path (← text t cwd path)
  | none =>
    if files.isEmpty then throw (.schema (.noFiles paths))
    ofDeclarationsWith readers.declarations (← files.mapM (text t cwd))

def load : FileTree → Location → List String → Except LoadError Schema :=
  loadWith SchemaReaders.standard

end SchemaFiles
end QueryTypes
