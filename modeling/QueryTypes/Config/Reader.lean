import QueryTypes.Config.Basic
import QueryTypes.Text.Blank
import QueryTypes.Text.Utf8
import QueryTypes.Text.Word
import QueryTypes.Tree.Basic
import QueryTypes.Yaml.Data

/-! Reads the configuration of a project. Of the file that is named and the usual file the first
one counts that holds something; without one there are defaults. -/

namespace QueryTypes

/-- The usual name of a configuration file. -/
def configFileName : String := "gql-clientgen.yaml"

inductive ConfigError
  | notFound (path : String)
  | badYaml (path : String)
  | badValues (path : String)
  | notMapping (path : String)
  | breakdown (f : Fault)
deriving DecidableEq, Inhabited

def ConfigError.failure : ConfigError → Failure
  | notFound p => .configuration ("Config file not found: " ++ p)
  | badYaml p => .configuration ("Invalid YAML in " ++ p)
  | badValues p => .configuration ("Invalid config in " ++ p)
  | notMapping p => .configuration ("Invalid config in " ++ p ++ ": expected a mapping")
  | breakdown f => .breakdown f

namespace ConfigFile

open Yaml (Data ReadError)

/-- Names in braces behind a dollar sign stand for values of the environment; a name without a
value stands for nothing. -/
def expand (env : Table String) : Nat → List Char → List Char
  | 0, s => s
  | n + 1, s =>
    match s with
    | [] => []
    | c :: r =>
      match Text.after? ['$', '\x7b'] s with
      | none => c :: expand env n r
      | some inside =>
        let name := inside.takeWhile Text.isWord
        match inside.drop name.length with
        | '\x7d' :: rest =>
          if name.isEmpty then c :: expand env n r
          else ((env.get? (String.ofList name)).getD "").toList ++ expand env n rest
        | _ => c :: expand env n r

def expandText (env : Table String) (s : String) : String :=
  String.ofList (expand env s.length s.toList)

/-- The names of the environment that a text may ask for. -/
def variableNames : List Char → List String
  | [] => []
  | c :: r =>
    match Text.after? ['$', '\x7b'] (c :: r) with
    | none => variableNames r
    | some inside => String.ofList (inside.takeWhile Text.isWord) :: variableNames r

mutual
/-- Expands every text but the keys of mappings. -/
def expandData (env : Table String) : Data → Except Fault Data
  | .str s => .ok (.str (expandText env s))
  | .list xs => do return .list (← expandItems env xs)
  | .map ps => do return .map (← expandPairs env ps)
  | .again => .error .endless
  | d => .ok d

def expandItems (env : Table String) : List Data → Except Fault (List Data)
  | [] => .ok []
  | x :: r => do
    let x ← expandData env x
    let r ← expandItems env r
    return x :: r

def expandPairs (env : Table String) : List (Data × Data) → Except Fault (List (Data × Data))
  | [] => .ok []
  | (k, v) :: r => do
    let v ← expandData env v
    let r ← expandPairs env r
    return (k, v) :: r
end

/-- A text, or bytes that are one. -/
def text? : Data → Option String
  | .str s => some s
  | .bytes b => Text.decode? ⟨b.toArray⟩
  | _ => none

def texts? : Data → Option (List String)
  | .list xs | .set xs => xs.mapM text?
  | _ => none

def textTable? : Data → Option (Table String)
  | .map ps =>
    let pair (p : Data × Data) : Option (String × String) := do return (← text? p.1, ← text? p.2)
    (ps.mapM pair).map Table.ofList
  | _ => none

/-- Text without low lines, if they stand alone between other characters. -/
def withoutLow? (s : List Char) : Option (List Char) :=
  if s.head? = some '_' ∨ s.getLast? = some '_' ∨ Text.occurs ['_', '_'] s then none
  else some (s.filter (· != '_'))

/-- A number, a truth value as one or zero, or the text of a number. -/
def seconds? : Data → Option Float
  | .float x => some x
  | .int n =>
    let x := Decimal.toFloat n.natAbs 0
    if x.isInf then none else some (if n < 0 then -x else x)
  | .bool b => some (if b then 1.0 else 0.0)
  | d => do
    let s ← text? d
    let cs := Text.trim s.toList
    match Decimal.read? cs with
    | some x => some x
    | none => (withoutLow? cs).bind Decimal.read?

def field? (ps : List (Data × Data)) (name : String) : Option Data :=
  (ps.find? fun p => match p.1 with
    | .str k => k == name
    | _ => false).map Prod.snd

/-- The value of a field, or the default of one that is left out. -/
def fieldOr {α : Type} (ps : List (Data × Data)) (name : String) (read : Data → Option α)
    (default : α) : Option α :=
  match field? ps name with
  | none => some default
  | some d => read d

def textOrNull? : Data → Option (Option String)
  | .null => some none
  | d => (text? d).map some

def schemaSource? : Data → Option SchemaSource
  | .map ps => do
    let std := SchemaSource.standard
    return {
      files := ← fieldOr ps "local_schema_files" texts? std.files
      endpoint := ← fieldOr ps "endpoint" textOrNull? std.endpoint
      headers := ← fieldOr ps "headers" textTable? std.headers
      timeout := ← fieldOr ps "timeout" seconds? std.timeout }
  | _ => none

def client? : Data → Option ClientConfig
  | .map ps => do
    let std := ClientConfig.standard
    let name := if (field? ps "schema").isSome then "schema" else "schema_source"
    return {
      includes := ← fieldOr ps "includes" texts? std.includes
      excludes := ← fieldOr ps "excludes" texts? std.excludes
      templateTag := ← fieldOr ps "tag_name" text? std.templateTag
      schema := ← fieldOr ps name schemaSource? std.schema }
  | _ => none

def config? (ps : List (Data × Data)) : Option Config := do
  return {
    client := ← fieldOr ps "client" client? Config.standard.client
    logLevel := ← fieldOr ps "log_level" text? Config.standard.logLevel }

def isText : Data → Bool
  | .str _ => true
  | _ => false

/-- The configuration in what was read of a file; none if the file holds nothing. -/
def ofData (env : Table String) (path : String) :
    Except ReadError Data → Except ConfigError (Option Config)
  | .error .malformed => .error (.badYaml path)
  | .error (.breakdown (.wrongType _)) => .error (.notMapping path)
  | .error (.breakdown f) => .error (.breakdown f)
  | .ok .null => .ok none
  | .ok d =>
    match expandData env d with
    | .error f => .error (.breakdown f)
    | .ok (.map ps) =>
      if !ps.all fun p => isText p.1 then .error (.notMapping path)
      else match config? ps with
        | some c => .ok (some c)
        | none => .error (.badValues path)
    | .ok _ => .error (.notMapping path)

/-- What reads YAML from the bytes of a file that was opened. -/
abbrev YamlReader := ByteArray → Except ReadError Data

/-- What a file holds, by a given reader; none for a file that is not there. -/
def read (yaml : YamlReader) (t : FileTree) (cwd : Location) (env : Table String) (path : Path) :
    Except ConfigError (Option Config) :=
  match (t.find? cwd path).bind t.node? with
  | none => .ok none
  | some .dir => .error (.breakdown .isDirectory)
  | some (.file b) => ofData env path.text (yaml b)

/-- What comes of a look for a path. -/
inductive Sight
  | there
  | missing
  | refused
deriving DecidableEq

/-- Looks for a path. One with a null character is not looked for, and one that is too long is
refused. -/
def look (t : FileTree) (cwd : Location) (p : String) : Sight :=
  if p.toList.contains '\x00' then .missing
  else if t.isTooLong cwd (Path.ofText p) then .refused
  else if (t.find? cwd (Path.ofText p)).isSome then .there
  else .missing

/-- Loads the configuration by a given reader of YAML. -/
def loadWith (yaml : YamlReader) (t : FileTree) (cwd : Location) (env : Table String)
    (named : Option String) : Except ConfigError Config := do
  let fromNamed ← match given named with
    | none => pure none
    | some p =>
      match look t cwd p with
      | .refused => throw (.breakdown (.system "File name too long"))
      | .missing => throw (.notFound p)
      | .there => read yaml t cwd env (Path.ofText p)
  match fromNamed with
  | some c => return c
  | none => return (← read yaml t cwd env (Path.ofText configFileName)).getD Config.standard

def load : FileTree → Location → Table String → Option String → Except ConfigError Config :=
  loadWith Data.ofBytes

/-! ### The configuration that a new project starts with -/

def starterLines : List String := [
  "# gql-clientgen.yaml",
  "",
  "client:",
  "  includes:",
  "    - \"src/**/*.\x7bts,tsx,js,jsx,graphql,gql\x7d\"",
  "  excludes:",
  "    - \"**/node_modules\"",
  "    - \"**/__tests__\"",
  "  tag_name: \"gql\"",
  "  schema:",
  "    # Either local files (SDL or introspection JSON) ...",
  "    local_schema_files:",
  "      - \"schema.graphql\"",
  "    # ... or a live endpoint queried with introspection",
  "    # endpoint: \"https://example.com/graphql\"",
  "    # headers:",
  "    #   Authorization: \"Bearer $\x7bGRAPHQL_TOKEN\x7d\"",
  "    timeout: 30",
  "",
  "log_level: \"info\"              # debug | info"]

def starter : String := String.join (starterLines.map fun l => l ++ "\n")

/-- Puts the starting configuration, over one that is there only by force. None is put in the place
of a directory. -/
def putStarter (force : Bool) (t : FileTree) (cwd : Location) : Except Failure FileTree :=
  let place := cwd ++ [configFileName]
  if t.has place && !force then
    .error (.other (configFileName ++ " already exists (use --force to overwrite)"))
  else if t.isDir place then .error (.breakdown .isDirectory)
  else .ok (t.set place (.file (Text.encode starter)))

end ConfigFile
end QueryTypes
