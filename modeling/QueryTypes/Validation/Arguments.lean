import QueryTypes.Report
import QueryTypes.Schema.Literal
import QueryTypes.Validation.Fields

/-! Rules about arguments, directives and literals: arguments are declared, given once, and given
where they are required; a directive that may not be repeated stands once at a place; each literal
fits the slot that it is written for, and an input object names each of its fields once. -/

namespace QueryTypes.Validation

def argumentHint (name : String) (inputs : List InputValue) : String :=
  Text.didYouMean "" (Text.suggestions name (inputs.map InputValue.name))

def declares (inputs : List InputValue) (name : String) : Bool := inputs.any (·.name == name)

def argumentsExist (s : Schema) : Visit → List Diagnostic
  | .argument ⟨some t, some d⟩ field a =>
    if declares d.args a.name.text then []
    else [.about ("Unknown argument '" ++ a.name.text ++ "' on field '" ++ t.name ++ "." ++ field
      ++ "'." ++ argumentHint a.name.text d.args) a.name.origin]
  | .directive d =>
    match s.directive? d.name with
    | none => []
    | some t =>
      (d.arguments.filter fun a => !declares t.args a.name.text).map fun a =>
        .about ("Unknown argument '" ++ a.name.text ++ "' on directive '@" ++ d.name ++ "'."
          ++ argumentHint a.name.text t.args) a.name.origin
  | _ => []

def repeatedArguments (args : List Argument) : List Diagnostic :=
  (repeatedKeys (fun a => a.name.text) args).map fun g =>
    ⟨"There can be only one argument named '" ++ g.1 ++ "'.", g.2.filterMap fun a => a.name.origin⟩

def argumentsOnce : Visit → List Diagnostic
  | .field _ h _ _ => repeatedArguments h.arguments
  | .directive d => repeatedArguments d.arguments
  | _ => []

/-- The required arguments that are not given. -/
def missing (inputs : List InputValue) (args : List Argument) : List InputValue :=
  inputs.filter fun i => i.isRequired && !args.any fun a => a.name.text == i.name

def requiredArguments (s : Schema) : Visit → List Diagnostic
  | .fieldEnd ⟨_, some d⟩ h => (missing d.args h.arguments).map fun i =>
      .about ("Field '" ++ h.name ++ "' argument '" ++ i.name ++ "' of type '" ++ i.type.text
        ++ "' is required, but it was not provided.") h.origin
  | .directiveEnd d =>
    match s.directive? d.name with
    | none => []
    | some t => (missing t.args d.arguments).map fun i =>
      .about ("Directive '@" ++ d.name ++ "' argument '" ++ i.name ++ "' of type '" ++ i.type.text
        ++ "' is required, but it was not provided.") d.origin
  | _ => []

/-- The directives that stand at a place. -/
def directivesAt : Visit → List Directive
  | .operation o => o.directives
  | .fragment f => f.directives
  | .input v => v.directives
  | .field _ h _ _ => h.directives
  | .spread _ _ ds _ | .inline _ _ ds _ => ds
  | _ => []

/-- Each later one of several directives of a name is reported with the first one. -/
def directivesOnce (s : Schema) (v : Visit) : List Diagnostic :=
  go [] ((directivesAt v).filter fun d => (s.directive? d.name).any fun t => !t.repeatable)
where
  go (seen : List Directive) : List Directive → List Diagnostic
  | [] => []
  | d :: r =>
    match seen.find? (·.name == d.name) with
    | some first =>
      ⟨"The directive '@" ++ d.name ++ "' can only be used once at this location.",
        first.origin.toList ++ d.origin.toList⟩ :: go seen r
    | none => go (seen ++ [d]) r

/-- The complaint about a literal that is judged as a whole, against a type. -/
def literalComplaint (s : Schema) (t : TypeRef) (v : Value) : List Diagnostic :=
  let mismatch := "Expected value of type '" ++ t.text ++ "', found " ++ Printer.value v ++ "."
  match (s.type? t.leaf).filter NamedType.isLeaf with
  | none => [.about mismatch v.origin]
  | some leaf => (leafComplaint leaf v).toList.map fun m => .about m v.origin

/-- The required fields of an input object that are not given. -/
def missingFields (t : NamedType) (given : List (Name × Value)) (origin : Option Origin) :
    List Diagnostic :=
  (t.inputFields.filter fun f => f.isRequired && !given.any fun g => g.1.text == f.name).map fun f =>
    .about ("Field '" ++ t.name ++ "." ++ f.name ++ "' of required type '" ++ f.type.text
      ++ "' was not provided.") origin

def valuesFit (s : Schema) : Visit → List Diagnostic
  | .value slot false v =>
    match v with
    | .ref .. => []
    | .null o =>
      match slot.type with
      | some t =>
        if t.isRequired then [.about ("Expected value of type '" ++ t.text ++ "', found null.") o]
        else []
      | none => []
    | .list .. =>
      if slot.isList then []
      else slot.item.type.toList.flatMap fun t => literalComplaint s t v
    | .object fs o =>
      match s.inputObject? slot with
      | some t => missingFields t fs o
      | none => slot.type.toList.flatMap fun t => literalComplaint s t v
    | _ => slot.type.toList.flatMap fun t => literalComplaint s t v
  | .member (some t) false _ n =>
    if t.inputFields.any (·.name == n.text) then []
    else [.about ("Field '" ++ n.text ++ "' is not defined by type '" ++ t.name ++ "'."
      ++ Text.didYouMean "" (Text.suggestions n.text (t.inputFields.map InputValue.name))) n.origin]
  | _ => []

def membersOnce : Visit → List Diagnostic
  | .member _ _ before n =>
    match before.find? (·.text == n.text) with
    | some first => [⟨"There can be only one input field named '" ++ n.text ++ "'.",
        first.origin.toList ++ n.origin.toList⟩]
    | none => []
  | _ => []

end QueryTypes.Validation
