import QueryTypes.Log

/-! How a log is shown: on the console with the name of the program, in a file with the part that a
line comes from. -/

namespace QueryTypes

/-- Without a setup only warnings and errors are shown, and without any mark. -/
inductive LogSetup
  | bare
  | usual
  | verbose
deriving DecidableEq, Repr, Inhabited

namespace LogSetup

def threshold : LogSetup → LogLevel
  | bare => .warning
  | usual => .info
  | verbose => .debug

def shows (s : LogSetup) (l : LogLine) : Bool := s.threshold.rank ≤ l.level.rank

/-- A line of the console. -/
def consoleText (s : LogSetup) (l : LogLine) : String :=
  match s with
  | bare => l.text
  | _ => "[gql-clientgen] " ++ l.level.text ++ " " ++ l.text

def onConsole (s : LogSetup) (log : List LogLine) : List String :=
  (log.filter s.shows).map s.consoleText

/-- The lines of a log file; only a setup opens one. -/
def inFile? (s : LogSetup) (log : List LogLine) : Option (List String) :=
  match s with
  | bare => none
  | _ => some ((log.filter s.shows).map LogLine.full)

end LogSetup
end QueryTypes
