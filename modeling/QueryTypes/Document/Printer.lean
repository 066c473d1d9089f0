import QueryTypes.Document.Basic

/-! The canonical text of definitions. Origins play no part in it. -/

namespace QueryTypes
namespace Printer

/-- Wraps a text unless it is empty. -/
def wrap (before s after : String) : String :=
  if s.isEmpty then "" else before ++ s ++ after

/-- Joins the texts that are not empty. -/
def join (sep : String) (xs : List String) : String :=
  Text.joinWith sep (xs.filter fun s => !s.isEmpty)

/-- Moves every line two columns to the right. -/
def indent (s : String) : String :=
  wrap "  " (String.ofList (Text.replace ['\n'] ['\n', ' ', ' '] s.toList)) ""

def block (items : List String) : String :=
  wrap "\x7b\n" (indent (join "\n" items)) "\n\x7d"

def escaped (c : Char) : List Char :=
  if c = '"' then ['\\', '"']
  else if c = '\\' then ['\\', '\\']
  else if c = '\n' then ['\\', 'n']
  else if c = '\r' then ['\\', 'r']
  else if c = '\t' then ['\\', 't']
  else if c = '\x08' then ['\\', 'b']
  else if c = '\x0c' then ['\\', 'f']
  else if c.toNat < 32 ∨ 127 ≤ c.toNat ∧ c.toNat < 160 then
    '\\' :: 'u' :: (Text.hex 4 c.toNat).map Char.toUpper
  else [c]

def quotedString (s : String) : String :=
  String.ofList ('"' :: s.toList.flatMap escaped ++ ['"'])

def startsBlank : List Char → Bool
  | c :: _ => c == ' ' || c == '\t'
  | [] => false

/-- A block string has its quotes on lines of their own when that is needed to read the same
text back, or when the text is long. -/
def blockString (value : String) : String :=
  let cs := value.toList
  let body := Text.replace ['"', '"', '"'] ['\\', '"', '"', '"'] cs
  let ls := Text.endedLines body
  let single := ls.length ≤ 1
  let indented := !single && (ls.drop 1).all fun l => l.isEmpty || startsBlank l
  let endsTriple := ['"', '"', '"', '\\'].isPrefixOf body.reverse
  let endsQuote := cs.getLast? == some '"' && !endsTriple
  let loose := endsQuote || cs.getLast? == some '\\'
  let several := !single || 70 < cs.length || loose || indented || endsTriple
  let before := if several && !(single && startsBlank cs) || indented then "\n" else ""
  let after := if several || loose then "\n" else ""
  "\"\"\"" ++ before ++ String.ofList body ++ after ++ "\"\"\""

mutual
def value : Value → String
  | .ref n _ => "$" ++ n
  | .int d _ | .float d _ => d
  | .string s b _ => if b then blockString s else quotedString s
  | .boolean b _ => if b then "true" else "false"
  | .null _ => "null"
  | .enum n _ => n
  | .list vs _ => "[" ++ join ", " (values vs) ++ "]"
  | .object fs _ => "\x7b" ++ join ", " (fields fs) ++ "\x7d"

def values : List Value → List String
  | [] => []
  | v :: r => value v :: values r

def fields : List (Name × Value) → List String
  | [] => []
  | (n, v) :: r => (n.text ++ ": " ++ value v) :: fields r
end

def argument (a : Argument) : String := a.name.text ++ ": " ++ value a.value

def directive (d : Directive) : String :=
  "@" ++ d.name ++ wrap "(" (join ", " (d.arguments.map argument)) ")"

def directives (ds : List Directive) : String := join " " (ds.map directive)

/-- Arguments have a line each when the field would take more than 80 columns with them. -/
def fieldHead (f : FieldHead) : String :=
  let start := (match f.aliasName with
    | some a => a ++ ": "
    | none => "") ++ f.name
  let args := f.arguments.map argument
  let line := start ++ wrap "(" (join ", " args) ")"
  if 80 < line.length then start ++ wrap "(\n" (indent (join "\n" args)) "\n)" else line

mutual
def selection : Selection → String
  | .field h _ ss => join " " [fieldHead h, directives h.directives, block (selections ss)]
  | .spread n ds _ => "..." ++ n.text ++ wrap " " (directives ds) ""
  | .inline c ds ss _ =>
    join " " ["...", wrap "on " ((c.map Name.text).getD "") "", directives ds, block (selections ss)]

def selections : List Selection → List String
  | [] => []
  | s :: r => selection s :: selections r
end

def variableDefinition (v : VariableDefinition) : String :=
  "$" ++ v.name.text ++ ": " ++ v.type.text ++ wrap " = " ((v.default.map value).getD "") ""
    ++ wrap " " (directives v.directives) ""

/-- A query without name, variables and directives is its block alone. -/
def operation (o : Operation) : String :=
  let vars := wrap "(" (join ", " (o.variableDefs.map variableDefinition)) ")"
  let head := join " " [o.kind.text, (o.name.map Name.text).getD "" ++ vars, directives o.directives]
  (if head = "query" then "" else head ++ " ") ++ block (selections o.selections)

def fragment (f : Fragment) : String :=
  "fragment " ++ f.name.text ++ " on " ++ f.condition.text ++ " "
    ++ wrap "" (directives f.directives) " " ++ block (selections f.selections)

def document (d : Document) : String :=
  join "\n\n" (d.operations.map operation ++ d.fragments.map fragment)

end Printer
end QueryTypes
