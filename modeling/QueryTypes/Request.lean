import QueryTypes.Path.Basic

/-! What is asked for: the target language, where the output goes, and the options of the
generated code. -/

namespace QueryTypes

inductive Target
  | json
  | swift
  | typescript
  | flow
  | scala
deriving DecidableEq, Repr, Inhabited

namespace Target

def text : Target → String
  | json => "json"
  | swift => "swift"
  | typescript => "typescript"
  | flow => "flow"
  | scala => "scala"

def all : List Target := [json, swift, typescript, flow, scala]

def ofText? (s : String) : Option Target := all.find? fun t => t.text == s

/-- Whether the output goes next to each source file unless asked otherwise. -/
def besideSources : Target → Bool
  | typescript | flow => true
  | json | swift | scala => false

end Target

/-- The directory for generated files next to a source file. -/
def generatedDirectory : String := "__generated__"

/-- How the generated code looks. -/
structure Options where
  passthroughScalars : Bool
  scalarPrefix : String
  addTypename : Bool
  namespaceName : Option String
  operationIdsPath : Option String
  writeOperationIds : Bool
  mergeFragmentFields : Bool
  exactObjects : Bool
  readOnly : Bool
  sharedTypesFile : Option String
  fileExtension : Option String
  plainSwiftStrings : Bool
  omitDeprecated : Bool
deriving DecidableEq, Repr

def Options.standard : Options where
  passthroughScalars := false
  scalarPrefix := ""
  addTypename := true
  namespaceName := none
  operationIdsPath := none
  writeOperationIds := false
  mergeFragmentFields := false
  exactObjects := false
  readOnly := false
  sharedTypesFile := none
  fileExtension := none
  plainSwiftStrings := false
  omitDeprecated := false

instance : Inhabited Options := ⟨Options.standard⟩

/-- Flags and arguments as they were given. -/
structure Flags where
  target : String
  output : Option String
  flat : Bool
  only : Option String
  schemaTag : Option String
  templateTag : String
  addTypename : Bool
  passthroughScalars : Bool
  scalarPrefix : Option String
  mergeFragmentFields : Bool
  namespaceName : Option String
  omitDeprecated : Bool
  operationIdsPath : Option String
  plainSwiftStrings : Bool
  exactObjects : Bool
  flowReadOnly : Bool
  readOnly : Bool
  sharedTypesFile : Option String
  fileExtension : Option String
deriving DecidableEq, Repr

/-- The template tag that marks documents in scripts. -/
def defaultTag : String := "gql"

def Flags.standard (target : String) : Flags where
  target := target
  output := none
  flat := false
  only := none
  schemaTag := none
  templateTag := defaultTag
  addTypename := true
  passthroughScalars := false
  scalarPrefix := none
  mergeFragmentFields := false
  namespaceName := none
  omitDeprecated := false
  operationIdsPath := none
  plainSwiftStrings := false
  exactObjects := false
  flowReadOnly := false
  readOnly := false
  sharedTypesFile := none
  fileExtension := none

/-- A text counts as given when it is there and not empty. -/
def given (s : Option String) : Option String := s.filter fun t => t != ""

/-- A prefix implies that scalars are passed through, a path that operation ids are written. -/
def Options.ofFlags (f : Flags) : Options where
  passthroughScalars := f.passthroughScalars || (given f.scalarPrefix).isSome
  scalarPrefix := f.scalarPrefix.getD ""
  addTypename := f.addTypename
  namespaceName := f.namespaceName
  operationIdsPath := f.operationIdsPath
  writeOperationIds := (given f.operationIdsPath).isSome
  mergeFragmentFields := f.mergeFragmentFields
  exactObjects := f.exactObjects
  readOnly := f.readOnly || f.flowReadOnly
  sharedTypesFile := f.sharedTypesFile
  fileExtension := f.fileExtension
  plainSwiftStrings := f.plainSwiftStrings
  omitDeprecated := f.omitDeprecated

/-- Flags that fit together. -/
structure Request where
  target : Target
  output : Option String
  flat : Bool
  only : Option String
  options : Options
  schemaTag : Option String
  templateTag : String
deriving DecidableEq, Repr

/-- Where the generated files go. -/
def Request.outputPath (r : Request) : String := (given r.output).getD generatedDirectory

/-- Whether they go next to their sources. -/
def Request.besideSources (r : Request) : Bool := !r.flat

inductive RequestError
  | unknownTarget (name : String)
  | outputMissing
  | outputNotSingle
deriving DecidableEq, Repr

def RequestError.message : RequestError → String
  | unknownTarget n => "Unsupported target: " ++ n
  | outputMissing => "The output path must be specified in the arguments for Swift, Scala and JSON"
  | outputNotSingle =>
    "For TypeScript and Flow generators, \"output\" must be empty or a single directory name, "
      ++ "unless the \"outputFlat\" flag is set."

/-- Output next to sources goes into one directory, so it is a name without a slash. -/
def Request.ofFlags (f : Flags) : Except RequestError Request :=
  match Target.ofText? f.target with
  | none => .error (.unknownTarget f.target)
  | some target =>
    let output := given f.output
    if output.isNone && !target.besideSources then .error .outputMissing
    else if target.besideSources && !f.flat && output.any (·.contains '/') then .error .outputNotSingle
    else .ok ⟨target, output, f.flat, f.only, Options.ofFlags f, f.schemaTag, f.templateTag⟩

end QueryTypes
