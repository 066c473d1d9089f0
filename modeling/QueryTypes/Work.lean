import QueryTypes.Failure
import QueryTypes.Log
import QueryTypes.Tree.Basic

/-! Work on a file tree that leaves log lines. What was done before a failure stays done. -/

namespace QueryTypes

/-- The files, the directory that relative paths start from, and the log so far. -/
structure World where
  tree : FileTree
  cwd : Location
  log : List LogLine
deriving Inhabited

abbrev Work := ExceptT Failure (StateM World)

namespace Work

def log (level : LogLevel) (part text : String) : Work Unit :=
  modify fun w => { w with log := w.log ++ [⟨level, part, text⟩] }

def debug (part text : String) : Work Unit := log .debug part text

def info (part text : String) : Work Unit := log .info part text

def breakdown {α : Type} (f : Fault) : Work α := throw (.breakdown f)

/-- The outcome of some work, and the world after it. -/
def perform {α : Type} (w : Work α) (start : World) : Except Failure α × World := w.run.run start

end Work
end QueryTypes
