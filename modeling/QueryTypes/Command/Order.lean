import QueryTypes.Command.Line
import QueryTypes.Config.Override
import QueryTypes.Request

/-! Commands, what can be wrong with the way they are called, and what a command line asks for. -/

namespace QueryTypes

inductive CommandName
  | program
  | init
  | generate
deriving DecidableEq, Repr, Inhabited

namespace CommandName

def path : CommandName → String
  | program => "gql-clientgen"
  | init => "gql-clientgen init"
  | generate => "gql-clientgen generate"

def usage : CommandName → String
  | program => path program ++ " [OPTIONS] COMMAND [ARGS]..."
  | init => path init ++ " [OPTIONS]"
  | generate => path generate ++ " [OPTIONS] [OUTPUT]"

end CommandName

inductive UsageProblem
  | line (e : LineError)
  | optionMissing (option : String)
  | notAFile (option path : String)
  | header (e : HeaderError)
  | unexpected (arguments : List String)
  | commandMissing
  | unknownCommand (name : String)
deriving DecidableEq, Repr

def UsageProblem.message : UsageProblem → String
  | line e => e.message
  | optionMissing o => "Missing option '" ++ o ++ "'."
  | notAFile o p => "Invalid value for '" ++ o ++ "': File " ++ Text.quoted p ++ " is a directory."
  | header e => "Invalid value for --header: " ++ e.message
  | unexpected [a] => "Got unexpected extra argument (" ++ a ++ ")"
  | unexpected as => "Got unexpected extra arguments (" ++ Text.joinWith " " as ++ ")"
  | commandMissing => "Missing command."
  | unknownCommand n => "No such command " ++ Text.quoted n ++ "."

/-- A problem with the call of a command. -/
structure UsageError where
  command : CommandName
  problem : UsageProblem
deriving DecidableEq, Repr

def UsageError.text (e : UsageError) : String :=
  "Usage: " ++ e.command.usage ++ "\nTry '" ++ e.command.path ++ " --help' for help.\n\nError: "
    ++ e.problem.message ++ "\n"

/-- A generation as it is ordered: what to generate, what takes the place of configured values, and
how to go about it. -/
structure GenerateOrder where
  flags : Flags
  arguments : Arguments
  config : Option String
  watch : Bool
  verbose : Bool
deriving DecidableEq, Repr

inductive Order
  | help (command : CommandName)
  | version
  | init (force : Bool)
  | generate (g : GenerateOrder)
deriving DecidableEq, Repr

namespace Order

def flag (key : String) (spellings : List String) : CommandOption := ⟨key, spellings, .gives "yes"⟩

def value (key : String) : CommandOption := ⟨key, ["--" ++ key], .takes⟩

def switch (key : String) : CommandOption := flag key ["--" ++ key]

def help_ : CommandOption := switch "help"

def programOptions : List CommandOption := [switch "version", help_]

def initOptions : List CommandOption := [flag "force" ["--force", "-f"], help_]

def generateOptions : List CommandOption := [
  value "target", switch "watch", value "config", value "localSchemaFile", value "endpoint",
  value "header", value "includes", value "excludes", value "tagName", value "tag",
  flag "addTypename" ["--addTypename"], ⟨"addTypename", ["--no-addTypename"], .gives "no"⟩,
  switch "passthroughCustomScalars", value "customScalarsPrefix",
  switch "mergeInFieldsFromFragmentSpreads", value "namespace", switch "omitDeprecatedEnumCases",
  value "operationIdsPath", value "only", switch "suppressSwiftMultilineStringLiterals",
  switch "useFlowExactObjects", switch "useFlowReadOnlyTypes", switch "useReadOnlyTypes",
  switch "outputFlat", value "globalTypesFile", value "tsFileExtension",
  flag "verbose" ["--verbose", "-v"], help_]

def flags (l : Line) (target : String) : Flags where
  target := target
  output := l.arguments.head?
  flat := l.has "outputFlat"
  only := l.last? "only"
  schemaTag := l.last? "tag"
  templateTag := (given (l.last? "tagName")).getD defaultTag
  addTypename := l.last? "addTypename" != some "no"
  passthroughScalars := l.has "passthroughCustomScalars"
  scalarPrefix := l.last? "customScalarsPrefix"
  mergeFragmentFields := l.has "mergeInFieldsFromFragmentSpreads"
  namespaceName := l.last? "namespace"
  omitDeprecated := l.has "omitDeprecatedEnumCases"
  operationIdsPath := l.last? "operationIdsPath"
  plainSwiftStrings := l.has "suppressSwiftMultilineStringLiterals"
  exactObjects := l.has "useFlowExactObjects"
  flowReadOnly := l.has "useFlowReadOnlyTypes"
  readOnly := l.has "useReadOnlyTypes"
  sharedTypesFile := l.last? "globalTypesFile"
  fileExtension := l.last? "tsFileExtension"

def arguments (l : Line) : Arguments where
  schemaFiles := l.last? "localSchemaFile"
  endpoint := l.last? "endpoint"
  headers := l.all "header"
  includes := l.last? "includes"
  excludes := l.last? "excludes"
  templateTag := l.last? "tagName"

def parse (c : CommandName) (options : List CommandOption) (mixed : Bool) (args : List String) :
    Except UsageError Line :=
  (Line.parse options mixed args).mapError fun e => ⟨c, .line e⟩

def ofInit (args : List String) : Except UsageError Order := do
  let l ← parse .init initOptions true args
  if l.has "help" then return .help .init
  if !l.arguments.isEmpty then throw ⟨.init, .unexpected l.arguments⟩
  return .init (l.has "force")

/-- Values are looked at before arguments, and what is missing comes after what is there. -/
def ofGenerate (isDir : String → Bool) (args : List String) : Except UsageError Order := do
  let l ← parse .generate generateOptions true args
  if l.has "help" then return .help .generate
  match l.last? "config" with
  | some p => if isDir p then throw ⟨.generate, .notAFile "--config" p⟩
  | none => pure ()
  match l.last? "target" with
  | none => throw ⟨.generate, .optionMissing "--target"⟩
  | some target =>
    if 1 < l.arguments.length then throw ⟨.generate, .unexpected (l.arguments.drop 1)⟩
    return .generate ⟨flags l target, arguments l, l.last? "config", l.has "watch", l.has "verbose"⟩

/-- The first one of the options that are answered at once. -/
def immediate? (l : Line) : Option Order :=
  match l.given with
  | [] => none
  | (key, _) :: _ => some (if key = "version" then .version else .help .program)

def ofArgs (isDir : String → Bool) (args : List String) : Except UsageError Order := do
  if args.isEmpty then return .help .program
  let l ← parse .program programOptions false args
  match immediate? l with
  | some o => return o
  | none =>
    match l.arguments with
    | [] => throw ⟨.program, .commandMissing⟩
    | "init" :: rest => ofInit rest
    | "generate" :: rest => ofGenerate isDir rest
    | name :: _ => throw ⟨.program, .unknownCommand name⟩

end Order
end QueryTypes
