import QueryTypes.Report
import QueryTypes.Schema.Builtin
import QueryTypes.Text.Suggestion

/-! The rules that declarations of a schema obey before types are made from them: names are unique
and known, directives stand where they may, extensions extend what is there. -/

namespace QueryTypes.Declaration

/-- What is met when definitions are read from front to back. -/
inductive Visit
  | schema (s : SchemaDefinition)
  | type (t : TypeDefinition)
  | directiveDefinition (d : DirectiveDefinition)
  | typeName (name : String) (declaring : Bool)
  | bearer (ds : List Directive) (args : List Argument)
  | directive (d : Directive) (place : String)
  | directiveEnd (d : Directive)
  | repeatedField (name : String)
deriving Inhabited

mutual
def valueVisits : Value → List Visit
  | .list vs _ => itemVisits vs
  | .object fs _ => fieldVisits [] fs
  | _ => []

def itemVisits : List Value → List Visit
  | [] => []
  | v :: r => valueVisits v ++ itemVisits r

def fieldVisits (seen : List String) : List (Name × Value) → List Visit
  | [] => []
  | (n, v) :: r =>
    (if seen.contains n.text then [.repeatedField n.text] else []) ++ valueVisits v
      ++ fieldVisits (n.text :: seen) r
end

def argumentVisits (as : List Argument) : List Visit := as.flatMap fun a => valueVisits a.value

def directiveVisits (place : String) (ds : List Directive) : List Visit :=
  ds.flatMap fun d => .directive d place :: argumentVisits d.arguments ++ [.directiveEnd d]

def inputVisits (place : String) (d : InputDefinition) : List Visit :=
  .bearer d.directives [] :: .typeName d.type.leaf true
    :: ((d.default.map valueVisits).getD [] ++ directiveVisits place d.directives)

def fieldDefinitionVisits (f : FieldDefinition) : List Visit :=
  .bearer f.directives [] :: f.arguments.flatMap (inputVisits "ARGUMENT_DEFINITION")
    ++ .typeName f.type.leaf true :: directiveVisits "FIELD_DEFINITION" f.directives

def enumValueVisits (v : EnumValueDefinition) : List Visit :=
  .bearer v.directives [] :: directiveVisits "ENUM_VALUE" v.directives

def namesVisits (names : List String) : List Visit := names.map fun n => .typeName n true

def typeVisits (t : TypeDefinition) : List Visit :=
  let ds (place : String) := directiveVisits place t.directives
  .type t :: match t.shape with
    | .scalar => ds "SCALAR"
    | .object is fs => namesVisits is ++ ds "OBJECT" ++ fs.flatMap fieldDefinitionVisits
    | .interface is fs => namesVisits is ++ ds "INTERFACE" ++ fs.flatMap fieldDefinitionVisits
    | .union ms => ds "UNION" ++ namesVisits ms
    | .enum vs => ds "ENUM" ++ vs.flatMap enumValueVisits
    | .input fs =>
      let place := if t.extends_ then "ARGUMENT_DEFINITION" else "INPUT_FIELD_DEFINITION"
      ds "INPUT_OBJECT" ++ fs.flatMap (inputVisits place)

mutual
def selectionVisits : Selection → List Visit
  | .field h _ ss =>
    .bearer h.directives h.arguments :: argumentVisits h.arguments
      ++ directiveVisits "FIELD" h.directives ++ selectionsVisits ss
  | .spread _ ds _ => .bearer ds [] :: directiveVisits "FRAGMENT_SPREAD" ds
  | .inline c ds ss _ =>
    .bearer ds [] :: (c.map fun n => Visit.typeName n.text false).toList
      ++ directiveVisits "INLINE_FRAGMENT" ds ++ selectionsVisits ss

def selectionsVisits : List Selection → List Visit
  | [] => []
  | s :: r => selectionVisits s ++ selectionsVisits r
end

def variableVisits (v : VariableDefinition) : List Visit :=
  .bearer v.directives [] :: .typeName v.type.leaf false
    :: ((v.default.map valueVisits).getD [] ++ directiveVisits "VARIABLE_DEFINITION" v.directives)

def definitionVisits : Definition → List Visit
  | .operation o =>
    .bearer o.directives [] :: o.variableDefs.flatMap variableVisits
      ++ directiveVisits o.kind.text.toUpper o.directives ++ selectionsVisits o.selections
  | .fragment f =>
    .bearer f.directives [] :: .typeName f.condition.text false
      :: (directiveVisits "FRAGMENT_DEFINITION" f.directives ++ selectionsVisits f.selections)
  | .type t => typeVisits t
  | .directive d =>
    .directiveDefinition d :: d.arguments.flatMap (inputVisits "ARGUMENT_DEFINITION")
  | .schema s =>
    .schema s :: directiveVisits "SCHEMA" s.directives ++ namesVisits (s.roots.map Prod.snd)

def visits (ds : List Definition) : List Visit := ds.flatMap definitionVisits

def typeDefinitions (ds : List Definition) : List TypeDefinition :=
  ds.filterMap fun
    | .type t => if t.extends_ then none else some t
    | _ => none

def directiveDefinitions (ds : List Definition) : List DirectiveDefinition :=
  ds.filterMap fun
    | .directive d => some d
    | _ => none

/-- Names met so far, and the complaints about those met again. -/
def noteNames (complaint : String → String) (seen names : List String) : List String × List String :=
  names.foldl (fun acc n =>
    if acc.1.contains n then (acc.1, acc.2 ++ [complaint n]) else (n :: acc.1, acc.2)) (seen, [])

/-- At most one definition of the schema itself. -/
def loneSchema (vs : List Visit) : Findings String :=
  Findings.ofHistory (fun (seen : Bool) v => match v with
    | .schema s =>
      if s.extends_ then (seen, [])
      else (true, if seen then ["Must provide only one schema definition."] else [])
    | _ => (seen, [])) false vs

def uniqueRoots (vs : List Visit) : Findings String :=
  Findings.ofHistory (fun seen v => match v with
    | .schema s =>
      noteNames (fun k => "There can be only one " ++ k ++ " type in schema.") seen
        (s.roots.map fun r => r.1.text)
    | _ => (seen, [])) [] vs

def uniqueTypes (vs : List Visit) : Findings String :=
  Findings.ofHistory (fun seen v => match v with
    | .type t =>
      if t.extends_ then (seen, [])
      else noteNames (fun n => "There can be only one type named '" ++ n ++ "'.") seen [t.name]
    | _ => (seen, [])) [] vs

/-- Members of types, remembered as the type's name and their own. -/
def uniqueMembers (members : TypeShape → List String) (complaint : String → String)
    (vs : List Visit) : Findings String :=
  Findings.ofHistory (fun seen v => match v with
    | .type t => noteNames complaint seen ((members t.shape).map fun m => t.name ++ "." ++ m)
    | _ => (seen, [])) [] vs

def uniqueEnumValues : List Visit → Findings String :=
  uniqueMembers
    (fun | .enum vs => vs.map EnumValueDefinition.name
         | _ => [])
    fun n => "Enum value '" ++ n ++ "' can only be defined once."

def uniqueFields : List Visit → Findings String :=
  uniqueMembers
    (fun | .object _ fs | .interface _ fs => fs.map FieldDefinition.name
         | .input fs => fs.map InputDefinition.name
         | _ => [])
    fun n => "Field '" ++ n ++ "' can only be defined once."

def repeatedArguments (owner : String) (args : List InputDefinition) : List String :=
  (repeatedKeys InputDefinition.name args).map fun g =>
    "Argument '" ++ owner ++ "(" ++ g.1 ++ ":)' can only be defined once."

def uniqueArguments (vs : List Visit) : Findings String :=
  Findings.ofVisits (fun
    | .directiveDefinition d => repeatedArguments ("@" ++ d.name) d.arguments
    | .type t => match t.shape with
      | .object _ fs | .interface _ fs =>
        fs.flatMap fun f => repeatedArguments (t.name ++ "." ++ f.name) f.arguments
      | _ => []
    | _ => []) vs

def uniqueDirectives (vs : List Visit) : Findings String :=
  Findings.ofHistory (fun seen v => match v with
    | .directiveDefinition d =>
      noteNames (fun n => "There can be only one directive named '@" ++ n ++ "'.") seen [d.name]
    | _ => (seen, [])) [] vs

def knownTypes (ds : List Definition) (vs : List Visit) : Findings String :=
  let declared := (typeDefinitions ds).map TypeDefinition.name
  Findings.ofVisits (fun
    | .typeName n declaring =>
      if declared.contains n || declaring && Builtin.standardNames.contains n then []
      else
        let options := if declaring then Builtin.standardNames ++ declared else declared
        ["Unknown type '" ++ n ++ "'." ++ Text.didYouMean "" (Text.suggestions n options)]
    | _ => []) vs

/-- What is known of a directive by name: the definitions of the text win over the built-in ones,
later ones over earlier ones. -/
def knownDirective? {α : Type} (ds : List Definition) (ofDefinition : DirectiveDefinition → α)
    (ofBuiltin : DirectiveType → α) (name : String) : Option α :=
  match (directiveDefinitions ds).reverse.find? (·.name == name) with
  | some d => some (ofDefinition d)
  | none => (Builtin.directives.find? (·.name == name)).map ofBuiltin

def directivePlaces (ds : List Definition) (vs : List Visit) : Findings String :=
  let places := knownDirective? ds DirectiveDefinition.locations DirectiveType.locations
  Findings.ofVisits (fun
    | .directive d place => match places d.name with
      | none => ["Unknown directive '@" ++ d.name ++ "'."]
      | some ps =>
        if ps.contains place then []
        else ["Directive '@" ++ d.name ++ "' may not be used on " ++ place ++ "."]
    | _ => []) vs

/-- Directives that may not be repeated, met at one place: for a type that is its definition and
its extensions together. -/
def uniquePerPlace (ds : List Definition) (vs : List Visit) : Findings String :=
  let single (n : String) : Bool :=
    (knownDirective? ds (fun d => !d.repeatable) (fun d => !d.repeatable) n).getD false
  let names (dirs : List Directive) : List String := (dirs.map Directive.name).filter single
  let complaint (place n : String) : String :=
    "The directive '@" ++ String.ofList (n.toList.drop place.length)
      ++ "' can only be used once at this location."
  Findings.ofHistory (fun seen v => match v with
    | .schema s => noteNames (complaint " ") seen ((names s.directives).map (" " ++ ·))
    | .type t => noteNames (complaint (t.name ++ " ")) seen ((names t.directives).map (t.name ++ " " ++ ·))
    | .bearer dirs _ => (seen, (noteNames (complaint "") [] (names dirs)).2)
    | _ => (seen, [])) [] vs

def kindText : TypeShape → String
  | .scalar => "scalar"
  | .object .. => "object"
  | .interface .. => "interface"
  | .union _ => "union"
  | .enum _ => "enum"
  | .input _ => "input object"

def extendable (ds : List Definition) (vs : List Visit) : Findings String :=
  let declared := typeDefinitions ds
  Findings.ofVisits (fun
    | .type t =>
      if !t.extends_ then []
      else match declared.reverse.find? (·.name == t.name) with
        | some base =>
          if kindText base.shape = kindText t.shape then []
          else ["Cannot extend non-" ++ kindText t.shape ++ " type '" ++ t.name ++ "'."]
        | none =>
          ["Cannot extend type '" ++ t.name ++ "' because it is not defined."
            ++ Text.didYouMean "" (Text.suggestions t.name (declared.map TypeDefinition.name))]
    | _ => []) vs

def knownArguments (ds : List Definition) (vs : List Visit) : Findings String :=
  let known := knownDirective? ds (fun d => d.arguments.map InputDefinition.name)
    (fun d => d.args.map InputValue.name)
  Findings.ofVisits (fun
    | .directive d _ => match known d.name with
      | none => []
      | some names =>
        (d.arguments.filter fun a => !names.contains a.name.text).map fun a =>
          "Unknown argument '" ++ a.name.text ++ "' on directive '@" ++ d.name ++ "'."
            ++ Text.didYouMean "" (Text.suggestions a.name.text names)
    | _ => []) vs

def argumentsOnce (as : List Argument) : List String :=
  (repeatedKeys (fun a : Argument => a.name.text) as).map fun g =>
    "There can be only one argument named '" ++ g.1 ++ "'."

def uniqueArgumentNames (vs : List Visit) : Findings String :=
  Findings.ofVisits (fun
    | .bearer _ as => argumentsOnce as
    | .directive d _ => argumentsOnce d.arguments
    | _ => []) vs

def uniqueInputFields (vs : List Visit) : Findings String :=
  Findings.ofVisits (fun
    | .repeatedField n => ["There can be only one input field named '" ++ n ++ "'."]
    | _ => []) vs

/-- Arguments of a directive that have to be given, with their types. -/
def requiredOf (d : DirectiveDefinition) : List (String × TypeRef) :=
  (d.arguments.filter fun a => a.type.isRequired && a.default.isNone).map fun a => (a.name, a.type)

def requiredArguments (ds : List Definition) (vs : List Visit) : Findings String :=
  let required := knownDirective? ds requiredOf
    (fun d => (d.args.filter InputValue.isRequired).map fun a => (a.name, a.type))
  Findings.ofVisits (fun
    | .directiveEnd d =>
      let given := d.arguments.map fun a => a.name.text
      (((required d.name).getD []).filter fun r => !given.contains r.1).map fun r =>
        "Directive '@" ++ d.name ++ "' argument '" ++ r.1 ++ "' of type '" ++ r.2.text
          ++ "' is required, but it was not provided."
    | _ => []) vs

/-- Everything that is wrong with declarations, in reading order. -/
def complaints (ds : List Definition) : List String :=
  let vs := visits ds
  Findings.inOrder [
    loneSchema vs, uniqueRoots vs, uniqueTypes vs, uniqueEnumValues vs, uniqueFields vs,
    uniqueArguments vs, uniqueDirectives vs, knownTypes ds vs, directivePlaces ds vs,
    uniquePerPlace ds vs, extendable ds vs, knownArguments ds vs, uniqueArgumentNames vs,
    uniqueInputFields vs, requiredArguments ds vs]

end QueryTypes.Declaration
