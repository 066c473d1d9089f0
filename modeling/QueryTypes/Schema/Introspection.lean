import QueryTypes.Json.Shown
import QueryTypes.Schema.Build
import QueryTypes.Table

/-! Makes a schema from what a server tells about its own. Types are looked at first; what their
interfaces, members and fields refer to is resolved when all types are known. -/

namespace QueryTypes

inductive IntrospectionFault
  | invalid (message : String)
  | missingField (name : String)
  | notObject (kind : String)
  | cutShort
deriving DecidableEq, Inhabited

def IntrospectionFault.text : IntrospectionFault → String
  | invalid m => m
  | missingField n => Text.quoted n
  | notObject k => "'" ++ k ++ "' object has no attribute 'get'"
  | cutShort => "string index out of range"

namespace Introspection

abbrev Told := Except IntrospectionFault

def refuse {α : Type} (message : String) : Told α := .error (.invalid message)

/-- The items of a list. The items of a text are its characters, those of an object its keys. -/
def items (v : Json) : Told (List Json) :=
  match v with
  | .arr xs => .ok xs
  | .str s => .ok (s.toList.map fun c => .str c.toString)
  | .obj fs => .ok (fs.map fun f => .str f.1)
  | v => refuse ("'" ++ v.kindName ++ "' object is not iterable")

/-- A field that has to be there. -/
def need (v : Json) (name : String) : Told Json :=
  match v with
  | .obj fs => match fs.lookup name with
    | some w => .ok w
    | none => .error (.missingField name)
  | .str _ => refuse "string indices must be integers, not 'str'"
  | .arr _ => refuse "list indices must be integers or slices, not str"
  | v => refuse ("'" ++ v.kindName ++ "' object is not subscriptable")

/-- A field, or null where there is none. -/
def may (v : Json) (name : String) : Told Json :=
  match v with
  | .obj fs => .ok ((fs.lookup name).getD .null)
  | v => .error (.notObject v.kindName)

def isNull : Json → Bool
  | .null => true
  | _ => false

def text? : Json → Option String
  | .str s => some s
  | _ => none

/-- The text of a name that can be written in a query. -/
def name (v : Json) : Told String :=
  match v with
  | .null => refuse "Must provide name."
  | .str s =>
    if s = "" then refuse "Expected name to be a non-empty string."
    else if !s.toList.tail.all Token.isNameChar then
      refuse ("Names must only contain [_a-zA-Z0-9] but " ++ Text.quoted s ++ " does not.")
    else if !(s.toList.take 1).all Token.isNameStart then
      refuse ("Names must start with [_a-zA-Z] but " ++ Text.quoted s ++ " does not.")
    else .ok s
  | _ => refuse "Expected name to be a string."

/-- A field that has to be there for the type to be usable. -/
def complete (v : Json) (name what : String) : Told Json := do
  let w ← may v name
  if isNull w then refuse ("Introspection result missing " ++ what ++ ": " ++ v.brief 2 ++ ".")
  else return w

/-- A field that is a text where it is there; `what` says in complaints what it is. -/
def wording (v : Json) (field what : String) : Told (Option String) := do
  match ← may v field with
  | .null => return none
  | .str s => return some s
  | _ => refuse (what ++ " must be a string.")

/-- Lists and objects are no keys. -/
def key (v : Json) : Told Json :=
  match v with
  | .arr _ | .obj _ => refuse ("unhashable type: '" ++ v.kindName ++ "'")
  | v => .ok v

/-- Something that is told under a key, and is made when the key turns out to be a name. -/
def keyed {α : Type} (one : Json → Told (String → α)) (v : Json) : Told (Json × (String → α)) := do
  let k ← need v "name"
  let make ← one v
  return (← key k, make)

/-- Later items of a name win, in the earlier place. -/
def distinct {α : Type} (key : α → String) (xs : List α) : List α :=
  (Table.ofList (xs.map fun x => (key x, x))).values

/-- Keys are looked at when all items are told: they are texts, or there is the given complaint,
and then they are names. -/
def named {α : Type} (complaint : String) (nameOf : α → String) (xs : List (Json × (String → α))) :
    Told (List α) := do
  if !xs.all fun x => (text? x.1).isSome then refuse complaint
  return distinct nameOf (← xs.mapM fun x => return x.2 (← name x.1))

/-- A type as far as it is told before references are resolved. -/
structure Sketch where
  type : NamedType
  told : Json
deriving Inhabited

def enumValue (v : Json) : Told (String → EnumValue) := do
  let description ← wording v "description" "The description of the enum value"
  let reason ← wording v "deprecationReason" "The deprecation reason for the enum value"
  return fun n => ⟨n, description, reason⟩

/-- Values whose names do not stand for other literals. -/
def enumBody (values : List (Json × (String → EnumValue))) : Told TypeBody := do
  let vs ← named "Expected name to be a string." EnumValue.name values
  match vs.find? fun v => ["true", "false", "null"].contains v.name with
  | some v => refuse ("Enum values cannot be named: " ++ v.name ++ ".")
  | none => return .enum vs

/-- The name and the description of a type, and then its body. -/
def described (v key : Json) (body : Told TypeBody) : Told Sketch := do
  let n ← name key
  let description ← wording v "description" "The description"
  return ⟨⟨n, description, ← body⟩, v⟩

/-- The place of a specification is a text where it is there. -/
def scalarBody (v k : Json) : Told TypeBody := do
  match ← may v "specifiedByURL" with
  | .null | .str _ => return .scalar
  | w =>
    refuse ((text? k).getD "" ++ " must provide 'specified_by_url' as a string, but got: "
      ++ w.brief 2 ++ ".")

def sketch (v : Json) : Told Sketch := do
  let k ← need v "name"
  match (v.field? "kind").bind text? with
  | some "SCALAR" => described v k (scalarBody v k)
  | some "OBJECT" => described v k (pure (.object [] []))
  | some "INTERFACE" => described v k (pure (.interface [] []))
  | some "UNION" => do
    let _ ← complete v "possibleTypes" "possibleTypes"
    described v k (pure (.union []))
  | some "ENUM" => do
    let vs ← (← items (← complete v "enumValues" "enumValues")).mapM (keyed enumValue)
    described v k (enumBody vs)
  | some "INPUT_OBJECT" => do
    let _ ← complete v "inputFields" "inputFields"
    described v k (pure (.input []))
  | _ => refuse ("Invalid or incomplete introspection result. Ensure that a full introspection "
      ++ "query is used in order to build a client schema: " ++ v.brief 2 ++ ".")

def namedType (types : List NamedType) (v : Json) : Told NamedType := do
  let n ← may v "name"
  if !n.holds then refuse ("Unknown type reference: " ++ v.brief 2 ++ ".")
  match (text? (← key n)).bind fun n => types.find? (·.name == n) with
  | some t => return t
  | none =>
    refuse ("Invalid or incomplete schema, unknown type: " ++ (text? n).getD n.shown
      ++ ". Ensure that a full introspection query is used in order to build a client schema.")

def objectType (types : List NamedType) (v : Json) : Told String := do
  let t ← namedType types v
  if t.isObject then return t.name
  else refuse ("Expected " ++ t.name ++ " to be a GraphQL Object type.")

def interfaceType (types : List NamedType) (v : Json) : Told String := do
  let t ← namedType types v
  if t.isInterface then return t.name
  else refuse ("Expected " ++ t.name ++ " to be a GraphQL Interface type.")

/-- A reference of at most the given depth. -/
def typeRef (types : List NamedType) : Nat → Json → Told TypeRef
  | 0, _ => refuse "Decorated type deeper than introspection query."
  | n + 1, v => do
    let kind := text? (← may v "kind")
    if kind = some "LIST" ∨ kind = some "NON_NULL" then
      let inner ← may v "ofType"
      if !inner.holds then refuse "Decorated type deeper than introspection query."
      let t ← typeRef types n inner
      if kind = some "LIST" then return .list t false
      else if t.isRequired then refuse ("Expected " ++ t.text ++ " to be a GraphQL nullable type.")
      else return t.withRequired true
    else return .named (← namedType types v).name false

/-- The text of a reference is longer than the reference is deep. -/
def refOf (types : List NamedType) (v : Json) : Told TypeRef :=
  typeRef types (v.shown.length + 1) v

def leafIs (types : List NamedType) (p : NamedType → Bool) (t : TypeRef) : Bool :=
  ((types.find? (·.name == t.leaf)).map p).getD false

/-- A default value. Its text is read; a text that ends where more has to come breaks down. -/
def default? (v : Json) : Told (Option Value) := do
  match ← may v "defaultValue" with
  | .null => return none
  | .str s =>
    match parseValue ⟨Source.unnamed, s.toList⟩ with
    | .ok d => return some d
    | .error (.at d) => refuse d.text
    | .error .cutShort => .error .cutShort
  | _ => refuse "body must be a string."

/-- An argument or an input field; `plural` and `singular` say which in complaints. -/
def inputValue (types : List NamedType) (plural singular : String) (v : Json) :
    Told (String → InputValue) := do
  let t ← refOf types (← need v "type")
  if !leafIs types NamedType.isInputType t then
    refuse ("Introspection must provide input type for " ++ plural ++ ", but received: " ++ t.text ++ ".")
  let default ← default? v
  let description ← wording v "description" (singular ++ " description")
  let reason ← wording v "deprecationReason" (singular ++ " deprecation reason")
  return fun n => ⟨n, description, t, default, reason⟩

def argument (types : List NamedType) (v : Json) : Told (Json × (String → InputValue)) :=
  keyed (inputValue types "arguments" "Argument") v

def field (types : List NamedType) (v : Json) : Told (String → Field) := do
  let t ← refOf types (← need v "type")
  if !leafIs types (fun t => t.isLeaf || t.isComposite) t then
    refuse ("Introspection must provide output type for fields, but received: " ++ t.text ++ ".")
  let args ← (← items (← complete v "args" "field args")).mapM (argument types)
  let args ← named "Field args must be a dict with argument names as keys." InputValue.name args
  let description ← wording v "description" "The description"
  let reason ← wording v "deprecationReason" "The deprecation reason"
  return fun n => ⟨n, description, args, t, reason⟩

/-- Whatever goes wrong in a part of a type is told as a fault of that part. -/
def within {α : Type} (type part : String) (r : Told α) : Told α :=
  r.mapError fun e => .invalid (type ++ " " ++ part ++ " cannot be resolved. " ++ e.text)

def interfaces (types : List NamedType) (s : Sketch) : Told (List String) :=
  within s.type.name "interfaces" do
    let v ← may s.told "interfaces"
    if isNull v then
      if s.type.isInterface then return []
      else refuse ("Introspection result missing interfaces: " ++ s.told.brief 2 ++ ".")
    else (← items v).mapM (interfaceType types)

/-- What is told of fields that are no fields under names. -/
def badFields (s : Sketch) : String :=
  s.type.name ++ " fields must be specified as a dict with field names as keys."

def fields (types : List NamedType) (s : Sketch) : Told (List Field) := do
  let told ← within s.type.name "fields" do
    (← items (← complete s.told "fields" "fields")).mapM (keyed (field types))
  named (badFields s) Field.name told

def inputFields (types : List NamedType) (s : Sketch) : Told (List InputValue) := do
  let told ← within s.type.name "fields" do
    (← items (← may s.told "inputFields")).mapM (keyed (inputValue types "input fields" "Input field"))
  named (badFields s) InputValue.name told

def resolve (types : List NamedType) (s : Sketch) : Told NamedType := do
  if (Builtin.standardType? s.type.name).isSome then return s.type
  let body ← match s.type.body with
    | .object .. => do pure (.object (← interfaces types s) (← fields types s))
    | .interface .. => do pure (.interface (← interfaces types s) (← fields types s))
    | .union _ =>
      within s.type.name "types" do
        return .union (← (← items (← may s.told "possibleTypes")).mapM (objectType types))
    | .input _ => do pure (.input (← inputFields types s))
    | b => pure b
  return { s.type with body := body }

def isLocation (v : Json) : Bool := (text? v).any Parser.locations.contains

/-- A directive of whose parts all have been told. -/
def declared (v k : Json) (places : List Json) (args : List (Json × (String → InputValue))) :
    Told DirectiveType := do
  let n ← name k
  if !places.all isLocation then
    refuse (n ++ " locations must be specified as a collection of DirectiveLocation enum values.")
  let args ← named (n ++ " args must be a dict with argument names as keys.") InputValue.name args
  match (v.field? "isRepeatable").getD (.bool false) with
  | .bool repeatable =>
    let _ ← wording v "description" (n ++ " description")
    return ⟨n, args, repeatable, places.filterMap text?⟩
  | _ => refuse (n ++ " is_repeatable flag must be True or False.")

def directive (types : List NamedType) (v : Json) : Told DirectiveType := do
  let args ← complete v "args" "directive args"
  let places ← complete v "locations" "directive locations"
  let k ← need v "name"
  let places ← items places
  let args ← (← items args).mapM (argument types)
  declared v k places args

def root (types : List NamedType) (v : Json) (field : String) : Told (Option String) := do
  let r ← may v field
  if isNull r then return none else return some (← objectType types r)

/-- Standard types replace what is told under their names. -/
def standardized (s : Sketch) : Sketch :=
  match Builtin.standardType? s.type.name with
  | some t => { s with type := t }
  | none => s

def schema (result : Json) : Told Schema := do
  match (result.field? "__schema").getD .null with
  | .obj fs =>
    let v := Json.obj fs
    let told ← (← items (← need v "types")).mapM sketch
    let sketches := (distinct (fun s => s.type.name) told).map standardized
    let types := sketches.map Sketch.type
    let query ← root types v "queryType"
    let mutation ← root types v "mutationType"
    let subscription ← root types v "subscriptionType"
    let ds ← may v "directives"
    let directives ← if ds.holds then do (← items ds).mapM (directive types) else pure []
    let _ ← wording v "description" "Schema description"
    let resolved ← sketches.mapM (resolve types)
    let all := Build.complete resolved directives
    return {
      types := all.map (Build.settleType all)
      query := query
      mutation := mutation
      subscription := subscription
      directives := directives.map fun d => { d with args := d.args.map (Build.settle all) } }
  | _ =>
    refuse ("Invalid or incomplete introspection result. Ensure that you are passing the 'data' "
      ++ "attribute of an introspection response and no 'errors' were returned alongside: "
      ++ result.brief 2 ++ ".")

end Introspection
end QueryTypes
