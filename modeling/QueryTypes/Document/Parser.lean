import QueryTypes.Document.Definition
import QueryTypes.Token.Lexer

/-! Reads definitions from text. A token that cannot be read is reported when the one before it
has been used, so the leftmost fault of a text is the one reported. -/

namespace QueryTypes

inductive SyntaxError
  | at (d : Diagnostic)
  /-- the text ends inside an escape -/
  | cutShort
deriving Inhabited

namespace Parser

/-- The text that is read, and whether what is read remembers where it stood. -/
structure Reading where
  source : Source
  located : Bool

abbrev Parse := ReaderT Reading (StateT (List Token) (Except SyntaxError))

def failAt {α : Type} (offset : Nat) (message : String) : Parse α := do
  throw (.at ⟨"Syntax Error: " ++ message, [⟨(← read).source, offset⟩]⟩)

def current : Parse Token := do
  match ← get with
  | t :: _ => pure t
  | [] => pure ⟨.endOfText, (← read).source.body.length⟩

/-- Fails when the current token is none. -/
def check : Parse Unit := do
  let t ← current
  match t.kind with
  | .invalid m => failAt t.start m
  | .cutShort => throw .cutShort
  | _ => pure ()

def advance : Parse Unit := do
  modify (·.drop 1)
  check

def origin : Parse (Option Origin) := do
  let r ← read
  let t ← current
  return if r.located then some ⟨r.source, t.start⟩ else none

def unexpectedToken {α : Type} (t : Token) : Parse α :=
  failAt t.start ("Unexpected " ++ t.kind.describe ++ ".")

def unexpected {α : Type} : Parse α := do unexpectedToken (← current)

def peekIs (k : TokenKind) : Parse Bool := do return (← current).kind == k

def peekMark (c : Char) : Parse Bool := peekIs (.punctuator c)

def expectedBut {α : Type} (what : String) : Parse α := do
  let t ← current
  failAt t.start ("Expected " ++ what ++ ", found " ++ t.kind.describe ++ ".")

def mark (c : Char) : Parse Unit := do
  if ← peekMark c then advance else expectedBut ("'" ++ c.toString ++ "'")

def mark? (c : Char) : Parse Bool := do
  if ← peekMark c then
    advance
    pure true
  else pure false

def keyword (w : String) : Parse Unit := do
  if ← peekIs (.name w) then advance else expectedBut ("'" ++ w ++ "'")

def keyword? (w : String) : Parse Bool := do
  if ← peekIs (.name w) then
    advance
    pure true
  else pure false

def name : Parse Name := do
  let o ← origin
  match (← current).kind with
  | .name t =>
    advance
    return ⟨t, o⟩
  | _ => expectedBut "Name"

/-- Items up to a closing mark; the first one must be there. -/
def itemsUntil {α : Type} (close : Char) (p : Parse α) : Nat → Parse (List α)
  | 0 => unexpected
  | n + 1 => do
    let a ← p
    if ← mark? close then return [a] else return a :: (← itemsUntil close p n)

def many {α : Type} (fuel : Nat) (open_ close : Char) (p : Parse α) : Parse (List α) := do
  mark open_
  itemsUntil close p fuel

/-- Nothing, or at least one item between marks. -/
def optionalMany {α : Type} (fuel : Nat) (open_ close : Char) (p : Parse α) : Parse (List α) := do
  if ← peekMark open_ then many fuel open_ close p else return []

/-- Items between separators, of which one may stand in front. -/
def separated {α : Type} (fuel : Nat) (sep : Char) (p : Parse α) : Parse (List α) := do
  let _ ← mark? sep
  go fuel
where
  go : Nat → Parse (List α)
  | 0 => unexpected
  | n + 1 => do
    let a ← p
    if ← mark? sep then return a :: (← go n) else return [a]

/-- A reference with the origins of its first character and of its name. -/
structure LocatedType where
  type : TypeRef
  origin : Option Origin
  leafOrigin : Option Origin
deriving Inhabited

def typeRef : Nat → Parse LocatedType
  | 0 => unexpected
  | n + 1 => do
    let o ← origin
    if ← mark? '[' then
      let t ← typeRef n
      mark ']'
      let required ← mark? '!'
      return ⟨.list t.type required, o, t.leafOrigin⟩
    else
      let t ← name
      let required ← mark? '!'
      return ⟨.named t.text required, o, o⟩

def variable_ : Parse (Name × Option Origin) := do
  let o ← origin
  mark '$'
  return (← name, o)

mutual
def value (constant : Bool) : Nat → Parse Value
  | 0 => unexpected
  | n + 1 => do
    let t ← current
    let o ← origin
    match t.kind with
    | .punctuator '[' => do
      mark '['
      if ← mark? ']' then return .list [] o
      return .list (← valueItems constant n) o
    | .punctuator '\x7b' => do
      mark '\x7b'
      if ← mark? '\x7d' then return .object [] o
      return .object (← valueFields constant n) o
    | .int d =>
      advance
      return .int d o
    | .float d =>
      advance
      return .float d o
    | .string s block =>
      advance
      return .string s block o
    | .name w =>
      advance
      return match w with
        | "true" => .boolean true o
        | "false" => .boolean false o
        | "null" => .null o
        | w => .enum w o
    | .punctuator '$' =>
      if constant then
        mark '$'
        match (← current).kind with
        | .name w => failAt t.start ("Unexpected variable '$" ++ w ++ "' in constant value.")
        | _ => unexpectedToken t
      else
        let (v, o) ← variable_
        return .ref v.text o
    | _ => unexpected

def valueItems (constant : Bool) : Nat → Parse (List Value)
  | 0 => unexpected
  | n + 1 => do
    let v ← value constant n
    if ← mark? ']' then return [v] else return v :: (← valueItems constant n)

def valueFields (constant : Bool) : Nat → Parse (List (Name × Value))
  | 0 => unexpected
  | n + 1 => do
    let k ← name
    mark ':'
    let v ← value constant n
    if ← mark? '\x7d' then return [(k, v)] else return (k, v) :: (← valueFields constant n)
end

def argument (constant : Bool) (fuel : Nat) : Parse Argument := do
  let k ← name
  mark ':'
  return ⟨k, ← value constant fuel⟩

def arguments (constant : Bool) (fuel : Nat) : Parse (List Argument) :=
  optionalMany fuel '(' ')' (argument constant fuel)

def directives (constant : Bool) (fuel : Nat) : Nat → Parse (List Directive)
  | 0 => unexpected
  | n + 1 => do
    if ← peekMark '@' then
      let o ← origin
      mark '@'
      let k ← name
      let args ← arguments constant fuel
      return ⟨k.text, args, o⟩ :: (← directives constant fuel n)
    else return []

def fragmentName : Parse Name := do
  if ← peekIs (.name "on") then unexpected else name

mutual
def selectionBlock : Nat → Parse (List Selection)
  | 0 => unexpected
  | n + 1 => do
    mark '\x7b'
    selectionItems n

def selectionItems : Nat → Parse (List Selection)
  | 0 => unexpected
  | n + 1 => do
    let s ← selection n
    if ← mark? '\x7d' then return [s] else return s :: (← selectionItems n)

def selection : Nat → Parse Selection
  | 0 => unexpected
  | n + 1 => do
    let o ← origin
    if ← peekIs .spread then
      advance
      let conditional ← keyword? "on"
      let isName := match (← current).kind with
        | .name _ => true
        | _ => false
      if !conditional && isName then
        let k ← fragmentName
        return .spread k (← directives false n n) o
      else
        let condition ← if conditional then some <$> name else pure none
        let ds ← directives false n n
        return .inline condition ds (← selectionBlock n) o
    else
      let first ← name
      let (aliasName, k) ← if ← mark? ':' then
          let k ← name
          pure (some first.text, k)
        else pure (none, first)
      let args ← arguments false n
      let ds ← directives false n n
      let head : FieldHead := ⟨aliasName, k.text, args, ds, o⟩
      if ← peekMark '\x7b' then
        let block ← origin
        return .field head block (← selectionBlock n)
      else return .field head none []
end

def variableDefinition (fuel : Nat) : Parse VariableDefinition := do
  let (k, o) ← variable_
  mark ':'
  let t ← typeRef fuel
  let default ← if ← mark? '=' then some <$> value true fuel else pure none
  let ds ← directives true fuel fuel
  return ⟨k, t.type, t.origin, t.leafOrigin, default, ds, o⟩

def operationKind : Parse OperationKind := do
  let t ← current
  match t.kind with
  | .name w =>
    advance
    match OperationKind.ofText? w with
    | some k => pure k
    | none => unexpectedToken t
  | _ => expectedBut "Name"

def operation (fuel : Nat) : Parse Operation := do
  let o ← origin
  if ← peekMark '\x7b' then
    return ⟨.query, none, [], [], ← selectionBlock fuel, o⟩
  let kind ← operationKind
  let k ← match (← current).kind with
    | .name _ => some <$> name
    | _ => pure none
  let vars ← optionalMany fuel '(' ')' (variableDefinition fuel)
  let ds ← directives false fuel fuel
  return ⟨kind, k, vars, ds, ← selectionBlock fuel, o⟩

def fragment (fuel : Nat) : Parse Fragment := do
  let o ← origin
  keyword "fragment"
  let k ← fragmentName
  keyword "on"
  let condition ← name
  let ds ← directives false fuel fuel
  return ⟨k, condition, ds, ← selectionBlock fuel, o⟩

def description : Parse (Option String) := do
  match (← current).kind with
  | .string s _ =>
    advance
    return some s
  | _ => return none

def inputDefinition (fuel : Nat) : Parse InputDefinition := do
  let d ← description
  let k ← name
  mark ':'
  let t ← typeRef fuel
  let default ← if ← mark? '=' then some <$> value true fuel else pure none
  return ⟨d, k.text, t.type, default, ← directives true fuel fuel⟩

def fieldDefinition (fuel : Nat) : Parse FieldDefinition := do
  let d ← description
  let k ← name
  let args ← optionalMany fuel '(' ')' (inputDefinition fuel)
  mark ':'
  let t ← typeRef fuel
  return ⟨d, k.text, args, t.type, ← directives true fuel fuel⟩

def enumValueDefinition (fuel : Nat) : Parse EnumValueDefinition := do
  let d ← description
  let t ← current
  match t.kind with
  | .name "true" | .name "false" | .name "null" =>
    failAt t.start (t.kind.describe ++ " is reserved and cannot be used for an enum value.")
  | _ =>
    let k ← name
    return ⟨d, k.text, ← directives true fuel fuel⟩

def typeName : Parse String := do return (← name).text

def interfaces (fuel : Nat) : Parse (List String) := do
  if ← keyword? "implements" then separated fuel '&' typeName else return []

def fieldDefinitions (fuel : Nat) : Parse (List FieldDefinition) :=
  optionalMany fuel '\x7b' '\x7d' (fieldDefinition fuel)

def rootDefinition : Parse (OperationKind × String) := do
  let kind ← operationKind
  mark ':'
  return (kind, ← typeName)

def locations : List String := [
  "QUERY", "MUTATION", "SUBSCRIPTION", "FIELD", "FRAGMENT_DEFINITION", "FRAGMENT_SPREAD",
  "INLINE_FRAGMENT", "VARIABLE_DEFINITION", "SCHEMA", "SCALAR", "OBJECT", "FIELD_DEFINITION",
  "ARGUMENT_DEFINITION", "INTERFACE", "UNION", "ENUM", "ENUM_VALUE", "INPUT_OBJECT",
  "INPUT_FIELD_DEFINITION"]

def location : Parse String := do
  let t ← current
  let k ← name
  if locations.contains k.text then return k.text else unexpectedToken t

/-- The words that open a declaration of a schema. -/
def declarationWords : List String := [
  "schema", "scalar", "type", "interface", "union", "enum", "input", "directive"]

/-- The part of a type declaration after its opening word and name, with directives. -/
def typeShape (fuel : Nat) (word : String) : Parse (List Directive × TypeShape) := do
  match word with
  | "type" =>
    let is ← interfaces fuel
    let ds ← directives true fuel fuel
    return (ds, .object is (← fieldDefinitions fuel))
  | "interface" =>
    let is ← interfaces fuel
    let ds ← directives true fuel fuel
    return (ds, .interface is (← fieldDefinitions fuel))
  | "union" =>
    let ds ← directives true fuel fuel
    let members ← if ← mark? '=' then separated fuel '|' typeName else pure []
    return (ds, .union members)
  | "enum" =>
    let ds ← directives true fuel fuel
    return (ds, .enum (← optionalMany fuel '\x7b' '\x7d' (enumValueDefinition fuel)))
  | "input" =>
    let ds ← directives true fuel fuel
    return (ds, .input (← optionalMany fuel '\x7b' '\x7d' (inputDefinition fuel)))
  | _ => return (← directives true fuel fuel, .scalar)

def directiveDefinition (fuel : Nat) (d : Option String) : Parse DirectiveDefinition := do
  keyword "directive"
  mark '@'
  let k ← name
  let args ← optionalMany fuel '(' ')' (inputDefinition fuel)
  let repeatable ← keyword? "repeatable"
  keyword "on"
  return ⟨d, k.text, args, repeatable, ← separated fuel '|' location⟩

def declaration (fuel : Nat) (word : String) : Parse Definition := do
  let d ← description
  match word with
  | "schema" =>
    keyword "schema"
    let ds ← directives true fuel fuel
    return .schema ⟨d, ds, ← many fuel '\x7b' '\x7d' rootDefinition, false⟩
  | "directive" => return .directive (← directiveDefinition fuel d)
  | word =>
    keyword word
    let k ← name
    let (ds, shape) ← typeShape fuel word
    return .type ⟨d, k.text, ds, shape, false⟩

def TypeShape.isEmpty : TypeShape → Bool
  | .scalar => true
  | .object is fs | .interface is fs => is.isEmpty && fs.isEmpty
  | .union ms => ms.isEmpty
  | .enum vs => vs.isEmpty
  | .input fs => fs.isEmpty

/-- An extension has to add something. -/
def extension (fuel : Nat) (word : String) : Parse Definition := do
  keyword "extend"
  keyword word
  if word = "schema" then
    let ds ← directives true fuel fuel
    let roots ← optionalMany fuel '\x7b' '\x7d' rootDefinition
    if ds.isEmpty && roots.isEmpty then unexpected
    return .schema ⟨none, ds, roots, true⟩
  else
    let k ← name
    let (ds, shape) ← typeShape fuel word
    if ds.isEmpty && TypeShape.isEmpty shape then unexpected
    return .type ⟨none, k.text, ds, shape, true⟩

/-- The token after the current one. -/
def lookahead : Parse Token := do
  match ← get with
  | _ :: t :: _ =>
    match t.kind with
    | .invalid m => failAt t.start m
    | .cutShort => throw .cutShort
    | _ => pure t
  | _ => current

def definition (fuel : Nat) : Parse Definition := do
  if ← peekMark '\x7b' then return .operation (← operation fuel)
  let t ← current
  let described := match t.kind with
    | .string .. => true
    | _ => false
  let key ← if described then lookahead else pure t
  match key.kind with
  | .name w =>
    if declarationWords.contains w then declaration fuel w
    else if described then
      failAt t.start "Unexpected description, descriptions are supported only on type definitions."
    else if (OperationKind.ofText? w).isSome then return .operation (← operation fuel)
    else if w = "fragment" then return .fragment (← fragment fuel)
    else if w = "extend" then
      let next ← lookahead
      match next.kind with
      | .name w =>
        if w ≠ "directive" ∧ declarationWords.contains w then extension fuel w
        else unexpectedToken next
      | _ => unexpectedToken next
    else unexpectedToken key
  | _ => unexpectedToken key

def definitions (fuel : Nat) : Nat → Parse (List Definition)
  | 0 => return []
  | n + 1 => do
    let d ← definition fuel
    if ← peekIs .endOfText then return [d] else return d :: (← definitions fuel n)

end Parser

/-- The definitions of a text, of which there must be one. -/
def parseDefinitions (s : Source) (located : Bool) : Except SyntaxError (List Definition) :=
  let tokens := Token.ofText s.body
  let fuel := 2 * tokens.length + 2
  Prod.fst <$> ((do
    Parser.check
    Parser.definitions fuel fuel : Parser.Parse (List Definition)) ⟨s, located⟩ tokens)

/-- A single reference to a type. -/
def parseTypeRef (s : Source) : Except SyntaxError TypeRef :=
  let tokens := Token.ofText s.body
  let fuel := 2 * tokens.length + 2
  Prod.fst <$> ((do
    Parser.check
    let t ← Parser.typeRef fuel
    if ← Parser.peekIs .endOfText then return t.type
    else Parser.expectedBut "<EOF>" : Parser.Parse TypeRef) ⟨s, true⟩ tokens)

/-- A single constant value. -/
def parseValue (s : Source) : Except SyntaxError Value :=
  let tokens := Token.ofText s.body
  let fuel := 2 * tokens.length + 2
  Prod.fst <$> ((do
    Parser.check
    let v ← Parser.value false fuel
    if ← Parser.peekIs .endOfText then return v
    else Parser.expectedBut "<EOF>" : Parser.Parse Value) ⟨s, true⟩ tokens)

end QueryTypes
