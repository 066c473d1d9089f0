import QueryTypes.Cycle
import QueryTypes.Schema.Builtin

/-! Whether a schema holds together: roots are objects, types have parts, references are to types
that fit, objects provide what their interfaces promise, and input objects are finite. -/

namespace QueryTypes
namespace Integrity

def nameComplaints (name : String) : List String :=
  if "__".isPrefixOf name then
    ["Name '" ++ name ++ "' must not begin with '__', which is reserved by GraphQL introspection."]
  else []

def rootComplaints (s : Schema) : List String :=
  let misfit (k : OperationKind) : Option String :=
    (s.root k).filter fun n => !(s.type? n).any NamedType.isObject
  (if s.query.isNone then ["Query root type must be provided."] else [])
    ++ (misfit .query).toList.map (fun n =>
      "Query root type must be Object type, it cannot be " ++ n ++ ".")
    ++ (misfit .mutation).toList.map (fun n =>
      "Mutation root type must be Object type if provided, it cannot be " ++ n ++ ".")
    ++ (misfit .subscription).toList.map (fun n =>
      "Subscription root type must be Object type if provided, it cannot be " ++ n ++ ".")

/-- Complaints about arguments; a place writes the name of an argument with what it belongs to. -/
def argumentComplaints (s : Schema) (place : String → String) (args : List InputValue) :
    List String :=
  args.flatMap fun a =>
    nameComplaints a.name
      ++ (if s.isInput a.type then []
        else ["The type of " ++ place a.name ++ " must be Input Type but got: " ++ a.type.text ++ "."])
      ++ (if a.isRequired && a.deprecation.isSome then
        ["Required argument " ++ place a.name ++ " cannot be deprecated."] else [])

def directiveComplaints (s : Schema) : List String :=
  s.directives.flatMap fun d =>
    nameComplaints d.name ++ argumentComplaints s (fun a => "@" ++ d.name ++ "(" ++ a ++ ":)") d.args

def fieldComplaints (s : Schema) (t : NamedType) : List String :=
  (if t.fields.isEmpty then ["Type " ++ t.name ++ " must define one or more fields."] else [])
    ++ t.fields.flatMap fun f =>
      nameComplaints f.name
        ++ (if s.isOutput f.type then []
          else ["The type of " ++ t.name ++ "." ++ f.name ++ " must be Output Type but got: "
            ++ f.type.text ++ "."])
        ++ argumentComplaints s (fun a => t.name ++ "." ++ f.name ++ "(" ++ a ++ ":)") f.args

/-- What an interface asks of the arguments of a field of its implementation. -/
def argumentPromises (t i : NamedType) (own promised : Field) : List String :=
  let ofType := t.name ++ "." ++ own.name
  let ofInterface := i.name ++ "." ++ own.name
  (promised.args.flatMap fun p =>
    let argument := ofInterface ++ "(" ++ p.name ++ ":)"
    match own.args.find? (·.name == p.name) with
    | none => ["Interface field argument " ++ argument ++ " expected but " ++ ofType
        ++ " does not provide it."]
    | some a =>
      if a.type = p.type then []
      else ["Interface field argument " ++ argument ++ " expects type " ++ p.type.text ++ " but "
        ++ ofType ++ "(" ++ p.name ++ ":) is type " ++ a.type.text ++ "."])
    ++ (own.args.filter fun a => a.isRequired && !promised.args.any fun p => p.name == a.name).map fun a =>
      "Object field " ++ ofType ++ " includes required argument " ++ a.name
        ++ " that is missing from the Interface field " ++ ofInterface ++ "."

def fieldPromises (s : Schema) (t i : NamedType) : List String :=
  i.fields.flatMap fun promised =>
    match t.field? promised.name with
    | none => ["Interface field " ++ i.name ++ "." ++ promised.name ++ " expected but " ++ t.name
        ++ " does not provide it."]
    | some own =>
      (if s.isSubtype own.type promised.type then []
        else ["Interface field " ++ i.name ++ "." ++ promised.name ++ " expects type "
          ++ promised.type.text ++ " but " ++ t.name ++ "." ++ own.name ++ " is type "
          ++ own.type.text ++ "."])
        ++ argumentPromises t i own promised

/-- A type implements whatever its interfaces implement. -/
def ancestorPromises (t i : NamedType) : List String :=
  (i.interfaces.filter fun a => !t.interfaces.contains a).map fun a =>
    if a = t.name then
      "Type " ++ t.name ++ " cannot implement " ++ i.name
        ++ " because it would create a circular reference."
    else "Type " ++ t.name ++ " must implement " ++ a ++ " because it is implemented by "
      ++ i.name ++ "."

def interfaceComplaints (s : Schema) (t : NamedType) : List String :=
  go [] t.interfaces
where
  go (seen : List String) : List String → List String
  | [] => []
  | n :: r =>
    match (s.type? n).filter NamedType.isInterface with
    | none => ("Type " ++ t.name ++ " must only implement Interface types, it cannot implement " ++ n
        ++ ".") :: go seen r
    | some i =>
      (if n = t.name then ["Type " ++ t.name
        ++ " cannot implement itself because it would create a circular reference."] else [])
        ++ if seen.contains n then
          ("Type " ++ t.name ++ " can only implement " ++ n ++ " once.") :: go seen r
        else ancestorPromises t i ++ fieldPromises s t i ++ go (seen ++ [n]) r

def memberComplaints (s : Schema) (t : NamedType) : List String :=
  (if t.members.isEmpty then ["Union type " ++ t.name ++ " must define one or more member types."]
    else []) ++ go [] t.members
where
  go (seen : List String) : List String → List String
  | [] => []
  | n :: r =>
    if !(s.type? n).any NamedType.isObject then
      ("Union type " ++ t.name ++ " can only include Object types, it cannot include " ++ n ++ ".")
        :: go seen r
    else if seen.contains n then
      ("Union type " ++ t.name ++ " can only include type " ++ n ++ " once.") :: go seen r
    else go (seen ++ [n]) r

def valueComplaints (t : NamedType) : List String :=
  (if t.values.isEmpty then ["Enum type " ++ t.name ++ " must define one or more values."] else [])
    ++ t.values.flatMap fun v => nameComplaints v.name

def inputComplaints (s : Schema) (t : NamedType) : List String :=
  (if t.inputFields.isEmpty then
    ["Input Object type " ++ t.name ++ " must define one or more fields."] else [])
    ++ t.inputFields.flatMap fun f =>
      nameComplaints f.name
        ++ (if s.isInput f.type then []
          else ["The type of " ++ t.name ++ "." ++ f.name ++ " must be Input Type but got: "
            ++ f.type.text ++ "."])
        ++ (if f.isRequired && f.deprecation.isSome then
          ["Required input field " ++ t.name ++ "." ++ f.name ++ " cannot be deprecated."] else [])

/-- The fields of an input object that always hold another input object. -/
def requiredParts (s : Schema) (name : String) : List (String × String) :=
  (((s.type? name).map NamedType.inputFields).getD []).filterMap fun f =>
    match f.type with
    | .named n true => if (s.type? n).any NamedType.isInput then some (f.name, n) else none
    | _ => none

def endless (c : Cycle String) : String :=
  "Cannot reference Input Object '" ++ c.start
    ++ "' within itself through a series of non-null fields: '" ++ Text.joinWith "." c.labels ++ "'."

/-- The complaints about types in order; each input object is followed once. -/
def typeComplaints (s : Schema) (visited : List String) : List NamedType → List String
  | [] => []
  | t :: r =>
    let name := if Builtin.schemaTypeNames.contains t.name then [] else nameComplaints t.name
    match t.body with
    | .scalar => name ++ typeComplaints s visited r
    | .object .. | .interface .. =>
      name ++ fieldComplaints s t ++ interfaceComplaints s t ++ typeComplaints s visited r
    | .union _ => name ++ memberComplaints s t ++ typeComplaints s visited r
    | .enum _ => name ++ valueComplaints t ++ typeComplaints s visited r
    | .input _ =>
      let ways := Cycle.fromName (requiredParts s) (s.types.map NamedType.name) visited t.name
      name ++ inputComplaints s t ++ ways.found.map endless ++ typeComplaints s ways.visited r

end Integrity

/-- What keeps a schema from being used. -/
def Schema.complaints (s : Schema) : List String :=
  Integrity.rootComplaints s ++ Integrity.directiveComplaints s
    ++ Integrity.typeComplaints s [] s.types

end QueryTypes
