import QueryTypes.Document.Parser
import QueryTypes.Schema.Declaration
import QueryTypes.Schema.Literal

/-! Makes a schema from declarations. Extensions add to the type that they name; built-in types
keep their meaning whatever is declared under their names. -/

namespace QueryTypes

/-- Why declarations make no schema. -/
inductive BuildError
  | parse (e : SyntaxError)
  | declarations (complaints : List String)
  | directive (d : Diagnostic)
deriving Inhabited

namespace Build

/-- The text argument of a directive: absent, null or a text; other values are refused. -/
def textArgument (ds : List Directive) (directive argument : String) :
    Except Diagnostic (Option (Option (Option String))) :=
  match ds.find? (·.name == directive) with
  | none => .ok none
  | some d =>
    match d.arguments.reverse.find? (·.name.text == argument) with
    | none => .ok (some none)
    | some a =>
      match a.value with
      | .null _ => .ok (some (some none))
      | .string s _ _ => .ok (some (some (some s)))
      | v => .error ⟨"Argument '" ++ argument ++ "' has invalid value " ++ Printer.value v ++ ".",
          v.origin.toList⟩

/-- The reason of a deprecation, if there is one. -/
def deprecation (ds : List Directive) : Except Diagnostic (Option String) := do
  match ← textArgument ds "deprecated" "reason" with
  | none => return none
  | some none => return some "No longer supported"
  | some (some reason) => return reason

/-- A scalar may say where it is specified, but not leave that open. -/
def checkSpecified (ds : List Directive) : Except Diagnostic Unit := do
  match ← textArgument ds "specifiedBy" "url" with
  | some (some none) =>
    let nulls := (ds.find? (·.name == "specifiedBy")).bind fun d =>
      (d.arguments.reverse.find? (·.name.text == "url")).bind fun a => a.value.origin
    throw ⟨"Argument 'url' of non-null type 'String!' must not be null.", nulls.toList⟩
  | _ => return ()

def inputValue (d : InputDefinition) : Except Diagnostic InputValue := do
  return ⟨d.name, d.description, d.type, d.default, ← deprecation d.directives⟩

def field (d : FieldDefinition) : Except Diagnostic Field := do
  let args ← d.arguments.mapM inputValue
  return ⟨d.name, d.description, args, d.type, ← deprecation d.directives⟩

def enumValue (d : EnumValueDefinition) : Except Diagnostic EnumValue := do
  return ⟨d.name, d.description, ← deprecation d.directives⟩

/-- What a definition and its extensions hold together. -/
def merged (shapes : List TypeShape) : TypeShape → TypeShape
  | .scalar => .scalar
  | .object .. => .object (shapes.flatMap interfacesOf) (shapes.flatMap fieldsOf)
  | .interface .. => .interface (shapes.flatMap interfacesOf) (shapes.flatMap fieldsOf)
  | .union _ => .union (shapes.flatMap fun | .union ms => ms | _ => [])
  | .enum _ => .enum (shapes.flatMap fun | .enum vs => vs | _ => [])
  | .input _ => .input (shapes.flatMap fun | .input fs => fs | _ => [])
where
  interfacesOf : TypeShape → List String
  | .object is _ | .interface is _ => is
  | _ => []
  fieldsOf : TypeShape → List FieldDefinition
  | .object _ fs | .interface _ fs => fs
  | _ => []

def within {α : Type} (name what : String) (r : Except Diagnostic α) : Except Diagnostic α :=
  r.mapError fun d => ⟨name ++ " " ++ what ++ " cannot be resolved. " ++ d.text, []⟩

/-- The values of an enum and the place of a scalar's specification are looked at first. -/
def checkEarly (t : TypeDefinition) (shape : TypeShape) : Except Diagnostic Unit :=
  match shape with
  | .enum vs => do
    let _ ← vs.mapM enumValue
  | .scalar => checkSpecified t.directives
  | _ => .ok ()

def body (name : String) (shape : TypeShape) : Except Diagnostic TypeBody :=
  match shape with
  | .scalar => .ok .scalar
  | .object is fs => within name "fields" do return .object is (← fs.mapM field)
  | .interface is fs => within name "fields" do return .interface is (← fs.mapM field)
  | .union ms => .ok (.union ms)
  | .enum vs => do return .enum (← vs.mapM enumValue)
  | .input fs => within name "fields" do return .input (← fs.mapM inputValue)

/-- Keeps a default only if it fits. -/
def settle (types : List NamedType) (v : InputValue) : InputValue :=
  { v with default := v.default.filter fun d => fits types (types.length + 100) v.type d }

def settleField (types : List NamedType) (f : Field) : Field :=
  { f with args := f.args.map (settle types) }

def settleType (types : List NamedType) (t : NamedType) : NamedType :=
  { t with body := match t.body with
      | .object is fs => .object is (fs.map (settleField types))
      | .interface is fs => .interface is (fs.map (settleField types))
      | .input fs => .input (fs.map (settle types))
      | b => b }

/-- The names that a type refers to. -/
def references (t : NamedType) : List String :=
  t.fields.flatMap (fun f => f.type.leaf :: f.args.map fun a => a.type.leaf)
    ++ t.inputFields.map fun f => f.type.leaf

/-- The types of a schema with the built-in ones that it uses; those that describe schemas, and
the scalars that they use, are always there. -/
def complete (types : List NamedType) (directives : List DirectiveType) : List NamedType :=
  let described := types ++ Builtin.schemaTypes.filter fun b => !types.any fun t => t.name == b.name
  let used := described.flatMap references ++ directives.flatMap fun d => d.args.map fun a => a.type.leaf
  described ++ (Builtin.scalarNames.filter fun n =>
    used.contains n && !types.any fun t => t.name == n).map Builtin.scalar

def directive (d : DirectiveDefinition) : Except Diagnostic DirectiveType := do
  return ⟨d.name, ← d.arguments.mapM inputValue, d.repeatable, d.locations⟩

/-- The root of an operation kind: of several declarations the last one counts. Without a schema
definition a type named after the kind is the root. -/
def root (ds : List Definition) (names : List String) (kind : OperationKind) (usual : String) :
    Option String :=
  let parts (extends_ : Bool) := ds.filterMap fun
    | .schema s => if s.extends_ = extends_ then some s.roots else none
    | _ => none
  let ordered := ((parts false).getLast?.getD [] ++ (parts true).flatten)
  let declared := (ordered.reverse.find? (·.1 == kind)).map Prod.snd
  if (parts false).isEmpty && names.contains usual then some usual else declared

def schema (ds : List Definition) : Except Diagnostic Schema := do
  let defs := Declaration.typeDefinitions ds
  let extensions := ds.filterMap fun
    | .type t => if t.extends_ then some t else none
    | _ => none
  let shapeOf (t : TypeDefinition) : TypeShape :=
    merged (t.shape :: (extensions.filter (·.name == t.name)).map TypeDefinition.shape) t.shape
  let own := defs.filter fun t => (Builtin.standardType? t.name).isNone
  for t in own do
    checkEarly t (shapeOf t)
  let directives ← (Declaration.directiveDefinitions ds).mapM directive
  let types ← defs.mapM fun t =>
    match Builtin.standardType? t.name with
    | some b => pure b
    | none => do return (⟨t.name, t.description, ← body t.name (shapeOf t)⟩ : NamedType)
  let directives := directives ++ Builtin.directives.filter fun b =>
    !directives.any fun d => d.name == b.name
  let all := complete types directives
  return {
    types := all.map (settleType all)
    query := root ds (types.map NamedType.name) .query "Query"
    mutation := root ds (types.map NamedType.name) .mutation "Mutation"
    subscription := root ds (types.map NamedType.name) .subscription "Subscription"
    directives := directives.map fun d => { d with args := d.args.map (settle all) } }

end Build

def Schema.ofDefinitions (ds : List Definition) : Except BuildError Schema :=
  let complaints := Declaration.complaints ds
  if complaints.isEmpty then (Build.schema ds).mapError .directive
  else .error (.declarations complaints)

/-- The schema that a text declares. -/
def Schema.ofText (text : List Char) : Except BuildError Schema := do
  let ds ← (parseDefinitions ⟨Source.unnamed, text⟩ true).mapError .parse
  Schema.ofDefinitions ds

end QueryTypes
