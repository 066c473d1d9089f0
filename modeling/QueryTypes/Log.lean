import QueryTypes.Text.Basic

/-! Lines of a log: how urgent they are, which part of the program wrote them, and their text. -/

namespace QueryTypes

inductive LogLevel
  | debug
  | info
  | warning
  | error
  | critical
deriving DecidableEq, Repr, Inhabited

namespace LogLevel

def text : LogLevel → String
  | debug => "DEBUG"
  | info => "INFO"
  | warning => "WARNING"
  | error => "ERROR"
  | critical => "CRITICAL"

def rank : LogLevel → Nat
  | debug => 10
  | info => 20
  | warning => 30
  | error => 40
  | critical => 50

end LogLevel

structure LogLine where
  level : LogLevel
  part : String
  text : String
deriving DecidableEq, Repr, Inhabited

namespace LogLine

/-- The name that all parts of the program log under. -/
def program : String := "gql_clientgen"

/-- The name of the logger of a part; the program itself is the part without a name. -/
def logger (part : String) : String := if part.isEmpty then program else program ++ "." ++ part

/-- A line with the name of its logger. -/
def full (l : LogLine) : String := l.level.text ++ " " ++ logger l.part ++ ": " ++ l.text

end LogLine
end QueryTypes
