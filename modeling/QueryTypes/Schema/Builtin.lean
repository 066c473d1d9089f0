import QueryTypes.Schema.Basic

/-! What every schema has: five scalars, four directives, and the types that describe a schema to
its clients. -/

namespace QueryTypes.Builtin

def scalarNames : List String := ["String", "Int", "Float", "Boolean", "ID"]

def scalar (name : String) : NamedType := ⟨name, none, .scalar⟩

def plain (name : String) (type : TypeRef) : Field := ⟨name, none, [], type, none⟩

def told (name text : String) (type : TypeRef) : Field := ⟨name, some text, [], type, none⟩

def opt (n : String) : TypeRef := .named n false

def req (n : String) : TypeRef := .named n true

def listOf (n : String) : TypeRef := .list (req n) false

def requiredListOf (n : String) : TypeRef := .list (req n) true

/-- The argument that also asks for what is deprecated. -/
def includeDeprecated : InputValue :=
  ⟨"includeDeprecated", none, opt "Boolean", some (.boolean false none), none⟩

def deprecable (name : String) (type : TypeRef) : Field :=
  ⟨name, none, [includeDeprecated], type, none⟩

def value (name text : String) : EnumValue := ⟨name, some text, none⟩

def schemaType : NamedType := ⟨"__Schema",
  some ("A GraphQL Schema defines the capabilities of a GraphQL server. It exposes all available " ++
    "types and directives on the server, as well as the entry points for query, mutation, and " ++
    "subscription operations."),
  .object [] [
    plain "description" (opt "String"),
    told "types" "A list of all types supported by this server." (requiredListOf "__Type"),
    told "queryType" "The type that query operations will be rooted at." (req "__Type"),
    told "mutationType" ("If this server supports mutation, the type that mutation operations " ++
    "will be rooted at.") (opt "__Type"),
    told "subscriptionType" ("If this server support subscription, the type that subscription " ++
    "operations will be rooted at.") (opt "__Type"),
    told "directives" "A list of all directives supported by this server."
      (requiredListOf "__Directive")]⟩

def directiveType : NamedType := ⟨"__Directive",
  some ("A Directive provides a way to describe alternate runtime execution and type validation " ++
    "behavior in a GraphQL document.\n\nIn some cases, you need to provide options to alter " ++
    "GraphQL's execution behavior in ways field arguments will not suffice, such as " ++
    "conditionally including or skipping a field. Directives provide this by describing " ++
    "additional information to the executor."),
  .object [] [
    plain "name" (req "String"), plain "description" (opt "String"),
    plain "isRepeatable" (req "Boolean"), plain "locations" (requiredListOf "__DirectiveLocation"),
    deprecable "args" (requiredListOf "__InputValue")]⟩

def directiveLocationType : NamedType := ⟨"__DirectiveLocation",
  some ("A Directive can be adjacent to many parts of the GraphQL language, a __DirectiveLocation " ++
    "describes one such possible adjacencies."),
  .enum [
    value "QUERY" "Location adjacent to a query operation.",
    value "MUTATION" "Location adjacent to a mutation operation.",
    value "SUBSCRIPTION" "Location adjacent to a subscription operation.",
    value "FIELD" "Location adjacent to a field.",
    value "FRAGMENT_DEFINITION" "Location adjacent to a fragment definition.",
    value "FRAGMENT_SPREAD" "Location adjacent to a fragment spread.",
    value "INLINE_FRAGMENT" "Location adjacent to an inline fragment.",
    value "VARIABLE_DEFINITION" "Location adjacent to a variable definition.",
    value "SCHEMA" "Location adjacent to a schema definition.",
    value "SCALAR" "Location adjacent to a scalar definition.",
    value "OBJECT" "Location adjacent to an object type definition.",
    value "FIELD_DEFINITION" "Location adjacent to a field definition.",
    value "ARGUMENT_DEFINITION" "Location adjacent to an argument definition.",
    value "INTERFACE" "Location adjacent to an interface definition.",
    value "UNION" "Location adjacent to a union definition.",
    value "ENUM" "Location adjacent to an enum definition.",
    value "ENUM_VALUE" "Location adjacent to an enum value definition.",
    value "INPUT_OBJECT" "Location adjacent to an input object type definition.",
    value "INPUT_FIELD_DEFINITION" "Location adjacent to an input object field definition."]⟩

def typeType : NamedType := ⟨"__Type",
  some ("The fundamental unit of any GraphQL Schema is the type. There are many kinds of types in " ++
    "GraphQL as represented by the `__TypeKind` enum.\n\nDepending on the kind of a type, " ++
    "certain fields describe information about that type. Scalar types provide no information " ++
    "beyond a name, description and optional `specifiedByURL`, while Enum types provide their " ++
    "values. Object and Interface types provide the fields they describe. Abstract types, " ++
    "Union and Interface, provide the Object types possible at runtime. List and NonNull types " ++
    "compose other types."),
  .object [] [
    plain "kind" (req "__TypeKind"), plain "name" (opt "String"),
    plain "description" (opt "String"), plain "specifiedByURL" (opt "String"),
    deprecable "fields" (listOf "__Field"), plain "interfaces" (listOf "__Type"),
    plain "possibleTypes" (listOf "__Type"), deprecable "enumValues" (listOf "__EnumValue"),
    deprecable "inputFields" (listOf "__InputValue"), plain "ofType" (opt "__Type")]⟩

def fieldType : NamedType := ⟨"__Field",
  some ("Object and Interface types are described by a list of Fields, each of which has a name, " ++
    "potentially a list of arguments, and a return type."),
  .object [] [
    plain "name" (req "String"), plain "description" (opt "String"),
    deprecable "args" (requiredListOf "__InputValue"), plain "type" (req "__Type"),
    plain "isDeprecated" (req "Boolean"), plain "deprecationReason" (opt "String")]⟩

def inputValueType : NamedType := ⟨"__InputValue",
  some ("Arguments provided to Fields or Directives and the input fields of an InputObject are " ++
    "represented as Input Values which describe their type and optionally a default value."),
  .object [] [
    plain "name" (req "String"), plain "description" (opt "String"), plain "type" (req "__Type"),
    told "defaultValue" ("A GraphQL-formatted string representing the default value for this " ++
    "input value.") (opt "String"),
    plain "isDeprecated" (req "Boolean"), plain "deprecationReason" (opt "String")]⟩

def enumValueType : NamedType := ⟨"__EnumValue",
  some ("One possible value for a given Enum. Enum values are unique values, not a placeholder " ++
    "for a string or numeric value. However an Enum value is returned in a JSON response as a " ++
    "string."),
  .object [] [
    plain "name" (req "String"), plain "description" (opt "String"),
    plain "isDeprecated" (req "Boolean"), plain "deprecationReason" (opt "String")]⟩

def typeKindType : NamedType := ⟨"__TypeKind",
  some "An enum describing what kind of type a given `__Type` is.",
  .enum [
    value "SCALAR" "Indicates this type is a scalar.",
    value "OBJECT" "Indicates this type is an object. `fields` and `interfaces` are valid fields.",
    value "INTERFACE" ("Indicates this type is an interface. `fields`, `interfaces`, and `possibleTypes` are " ++
    "valid fields."),
    value "UNION" "Indicates this type is a union. `possibleTypes` is a valid field.",
    value "ENUM" "Indicates this type is an enum. `enumValues` is a valid field.",
    value "INPUT_OBJECT" "Indicates this type is an input object. `inputFields` is a valid field.",
    value "LIST" "Indicates this type is a list. `ofType` is a valid field.",
    value "NON_NULL" "Indicates this type is a non-null. `ofType` is a valid field."]⟩

/-- The types that describe a schema. -/
def schemaTypes : List NamedType := [
  schemaType, directiveType, directiveLocationType, typeType, fieldType, inputValueType,
  enumValueType, typeKindType]

def schemaTypeNames : List String := schemaTypes.map NamedType.name

/-- Names that a declaration may use without declaring them. -/
def standardNames : List String := scalarNames ++ schemaTypeNames

/-- The types that hold whatever a declaration of one of their names says. -/
def standardType? (name : String) : Option NamedType :=
  if scalarNames.contains name then some (scalar name) else schemaTypes.find? (·.name == name)

def directives : List DirectiveType := [
  ⟨"include", [⟨"if", none, req "Boolean", none, none⟩], false,
    ["FIELD", "FRAGMENT_SPREAD", "INLINE_FRAGMENT"]⟩,
  ⟨"skip", [⟨"if", none, req "Boolean", none, none⟩], false,
    ["FIELD", "FRAGMENT_SPREAD", "INLINE_FRAGMENT"]⟩,
  ⟨"deprecated", [⟨"reason", none, opt "String",
    some (.string "No longer supported" false none), none⟩], false,
    ["FIELD_DEFINITION", "ARGUMENT_DEFINITION", "INPUT_FIELD_DEFINITION", "ENUM_VALUE"]⟩,
  ⟨"specifiedBy", [⟨"url", none, req "String", none, none⟩], false, ["SCALAR"]⟩]

/-- The fields of the query root that describe the schema. -/
def schemaField : Field := told "__schema" "Access the current type schema of this server." (req "__Schema")

def typeField : Field :=
  ⟨"__type", some "Request the type information of a single type.",
    [⟨"name", none, req "String", none, none⟩], opt "__Type", none⟩

/-- The field of every composite type that names the type of an object. -/
def typenameField : Field :=
  told "__typename" "The name of the current Object type at runtime." (req "String")

end QueryTypes.Builtin
