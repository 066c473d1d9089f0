import QueryTypes.Config.Basic
import QueryTypes.Text.Blank
import QueryTypes.Text.Quoted

/-! Arguments that take the place of configured values. -/

namespace QueryTypes

/-- A header argument that is no name with a value. -/
structure HeaderError where
  argument : String
deriving DecidableEq, Repr

def HeaderError.message (e : HeaderError) : String :=
  "Expected 'Name: value', got " ++ Text.quoted e.argument

/-- A name and a value, apart at the first colon. -/
def parseHeader (s : String) : Except HeaderError (String × String) :=
  match Text.cut? ':' s.toList with
  | none => .error ⟨s⟩
  | some (name, value) =>
    if (Text.trim name).isEmpty then .error ⟨s⟩
    else .ok (String.ofList (Text.trim name), String.ofList (Text.trim value))

/-- The items between commas, without blanks around them and without empty ones. -/
def commaList (s : String) : List String :=
  ((Text.split ',' s).map Text.trimmed).filter fun t => t != ""

/-- Values given as arguments. -/
structure Arguments where
  schemaFiles : Option String
  endpoint : Option String
  headers : List String
  includes : Option String
  excludes : Option String
  templateTag : Option String
deriving DecidableEq, Repr

def Arguments.none : Arguments := ⟨Option.none, Option.none, [], Option.none, Option.none, Option.none⟩

/-- Schema files and an endpoint exclude each other; files win. Headers are added, and of several
with one name the last one counts. -/
def SchemaSource.override (s : SchemaSource) (a : Arguments) : Except HeaderError SchemaSource := do
  let s := match given a.schemaFiles, given a.endpoint with
    | some files, _ => { s with files := commaList files, endpoint := none }
    | none, some url => { s with files := [], endpoint := some url }
    | none, none => s
  let headers ← a.headers.mapM parseHeader
  return { s with headers := headers.foldl (fun t h => t.set h.1 h.2) s.headers }

def ClientConfig.override (c : ClientConfig) (a : Arguments) : Except HeaderError ClientConfig := do
  return {
    includes := ((given a.includes).map commaList).getD c.includes
    excludes := ((given a.excludes).map commaList).getD c.excludes
    templateTag := (given a.templateTag).getD c.templateTag
    schema := ← c.schema.override a }

end QueryTypes
