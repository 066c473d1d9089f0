import QueryTypes.Json.Value
import QueryTypes.Schema.Local
import QueryTypes.Table

/-! A schema from an endpoint: one request that asks for everything about the schema. -/

namespace QueryTypes

/-! ### Requests and replies as values -/

structure HttpRequest where
  method : String
  url : String
  headers : List (String × String)
  body : Json
deriving Inhabited

/-- What comes back: a response of any status, or news that nothing came. -/
inductive HttpReply
  | response (status : Nat) (headers : List (String × String)) (body : String)
  | failed (message : String)
deriving Inhabited

namespace Http

def lowerName (s : String) : String := String.ofList (s.toList.map Char.toLower)

def isAscii (s : String) : Bool := s.toList.all fun c => c.toNat < 128

/-- Headers as they are sent: names without case, the values of one name joined by commas. -/
def sentHeaders (hs : List (String × String)) : List (String × String) :=
  ((hs.map fun h => lowerName h.1).eraseDups).map fun n =>
    (n, Text.joinWith ", " ((hs.filter fun h => lowerName h.1 == n).map Prod.snd))

def header? (name : String) (hs : List (String × String)) : Option String :=
  (sentHeaders hs).lookup (lowerName name)

/-- The standard phrases of status codes. -/
def phrases : List (Nat × String) := [
  (100, "Continue"), (101, "Switching Protocols"), (102, "Processing"), (103, "Early Hints"),
  (200, "OK"), (201, "Created"), (202, "Accepted"), (203, "Non-Authoritative Information"),
  (204, "No Content"), (205, "Reset Content"), (206, "Partial Content"), (207, "Multi-Status"),
  (208, "Already Reported"), (226, "IM Used"), (300, "Multiple Choices"),
  (301, "Moved Permanently"), (302, "Found"), (303, "See Other"), (304, "Not Modified"),
  (305, "Use Proxy"), (307, "Temporary Redirect"), (308, "Permanent Redirect"),
  (400, "Bad Request"), (401, "Unauthorized"), (402, "Payment Required"), (403, "Forbidden"),
  (404, "Not Found"), (405, "Method Not Allowed"), (406, "Not Acceptable"),
  (407, "Proxy Authentication Required"), (408, "Request Timeout"), (409, "Conflict"),
  (410, "Gone"), (411, "Length Required"), (412, "Precondition Failed"),
  (413, "Request Entity Too Large"), (414, "Request-URI Too Long"),
  (415, "Unsupported Media Type"), (416, "Requested Range Not Satisfiable"),
  (417, "Expectation Failed"), (418, "I'm a teapot"), (421, "Misdirected Request"),
  (422, "Unprocessable Entity"), (423, "Locked"), (424, "Failed Dependency"), (425, "Too Early"),
  (426, "Upgrade Required"), (428, "Precondition Required"), (429, "Too Many Requests"),
  (431, "Request Header Fields Too Large"), (451, "Unavailable For Legal Reasons"),
  (500, "Internal Server Error"), (501, "Not Implemented"), (502, "Bad Gateway"),
  (503, "Service Unavailable"), (504, "Gateway Timeout"), (505, "HTTP Version Not Supported"),
  (506, "Variant Also Negotiates"), (507, "Insufficient Storage"), (508, "Loop Detected"),
  (510, "Not Extended"), (511, "Network Authentication Required")]

def phrase (status : Nat) : String := (phrases.lookup status).getD ""

def isSuccess (status : Nat) : Bool := status / 100 == 2

def isRedirect (status : Nat) : Bool := [301, 302, 303, 307, 308].contains status

/-- What a status that is no success means. -/
def statusMessage (status : Nat) (url : String) (headers : List (String × String)) : String :=
  let class_ := match status / 100 with
    | 1 => "Informational response"
    | 3 => "Redirect response"
    | 4 => "Client error"
    | 5 => "Server error"
    | _ => "Invalid status code"
  let number := toString status
  let location := match isRedirect status, header? "location" headers with
    | true, some l => "\nRedirect location: '" ++ l ++ "'"
    | _, _ => ""
  class_ ++ " '" ++ number ++ " " ++ phrase status ++ "' for url '" ++ url ++ "'" ++ location
    ++ "\nFor more information check: https://developer.mozilla.org/en-US/docs/Web/HTTP/Status/" ++ number

end Http

/-! ### Endpoints -/

/-- A time in seconds, as it was given. -/
inductive Seconds
  | whole (n : Int)
  | decimal (x : Float)
deriving Inhabited

def Seconds.text : Seconds → String
  | whole n => toString n
  | decimal x => Decimal.text x

structure Endpoint where
  url : String
  headers : Table String
  timeout : Seconds
deriving Inhabited

namespace Endpoint

/-- References are followed through nine layers. -/
def typeReference : Nat → String
  | 0 => "kind name"
  | n + 1 => "kind name ofType \x7b " ++ typeReference n ++ " \x7d"

def inputValue : String :=
  "name description type \x7b " ++ typeReference 9 ++ " \x7d defaultValue"

/-- Asks for the types, with their descriptions, and the directives of a schema. -/
def question : String :=
  "query IntrospectionQuery \x7b __schema \x7b queryType \x7b name \x7d mutationType \x7b name \x7d "
    ++ "subscriptionType \x7b name \x7d types \x7b kind name description "
    ++ "fields(includeDeprecated: true) \x7b name description args \x7b " ++ inputValue ++ " \x7d "
    ++ "type \x7b " ++ typeReference 9 ++ " \x7d isDeprecated deprecationReason \x7d "
    ++ "inputFields \x7b " ++ inputValue ++ " \x7d interfaces \x7b " ++ typeReference 9 ++ " \x7d "
    ++ "enumValues(includeDeprecated: true) \x7b name description isDeprecated deprecationReason \x7d "
    ++ "possibleTypes \x7b " ++ typeReference 9 ++ " \x7d \x7d "
    ++ "directives \x7b name description locations args \x7b " ++ inputValue ++ " \x7d \x7d \x7d \x7d"

/-- The type of the body comes first; a configured header of the same name replaces it. -/
def requestHeaders (e : Endpoint) : Table String :=
  e.headers.foldl (fun t h => t.set h.1 h.2) [("Content-Type", "application/json")]

def request (e : Endpoint) : HttpRequest :=
  ⟨"POST", e.url, e.requestHeaders, .obj [("query", .str question)]⟩

/-- Headers are sent in ASCII only. -/
def canSend (e : Endpoint) : Bool :=
  e.requestHeaders.all fun h => Http.isAscii h.1 && Http.isAscii h.2

/-- What an error in a result says. -/
def errorText : Json → Except Fault (Option String)
  | .obj fs =>
    match fs.lookup "message" with
    | none => .ok (some (Json.shown (.obj fs)))
    | some (.str m) => .ok (some m)
    | some _ => .ok none
  | v => .error (.missingAttribute ("'" ++ v.kindName ++ "' object has no attribute 'get'"))

/-- The messages of the errors in a result. -/
def errorTexts (errors : Json) : Except Fault (List String) := do
  let items ← match errors with
    | .arr xs => pure xs
    | .obj fs => pure (fs.map fun f => Json.str f.1)
    | .str s => pure (s.toList.map fun c => Json.str (String.singleton c))
    | v => throw (.wrongType ("'" ++ v.kindName ++ "' object is not iterable"))
  let texts ← items.mapM errorText
  texts.mapM fun
    | some t => pure t
    | none => throw (.wrongType "sequence item: expected str instance")

/-- The schema in a result, unless the result has errors. -/
def ofResult (url : String) (v : Json) : Except LoadError Schema := do
  let errors := (v.field? "errors").getD .null
  if errors.holds then
    let texts ← (errorTexts errors).mapError .fault
    throw (.schema (.refused url texts))
  SchemaFiles.ofIntrospection url v

/-- A text without the mark that some writers put in front. -/
def withoutMark (s : String) : String :=
  match s.toList with
  | '\uFEFF' :: r => String.ofList r
  | _ => s

def ofReply (e : Endpoint) : HttpReply → Except LoadError Schema
  | .failed m => .error (.schema (.unreachable e.url m))
  | .response status headers body =>
    if !Http.isSuccess status then
      .error (.schema (.unreachable e.url (Http.statusMessage status e.url headers)))
    else match Json.parse? (withoutMark body) with
      | none => .error (.schema (.notJson e.url))
      | some v => ofResult e.url v

/-- Sends the request and reads the reply. -/
def load {m : Type → Type} [Monad m] (e : Endpoint) (send : HttpRequest → m HttpReply) :
    m (Except LoadError Schema) := do
  if e.canSend then return e.ofReply (← send e.request)
  else return .error (.schema (.notJson e.url))

end Endpoint

/-- What a configuration says the schema comes from. -/
inductive SchemaOrigin
  | files (paths : List String)
  | endpoint (e : Endpoint)
deriving Inhabited

/-- What is said when no schema is configured. -/
def SchemaOrigin.missing : String :=
  "No schema source configured: pass --localSchemaFile or --endpoint, "
    ++ "or set client.schema in the config file"

end QueryTypes
