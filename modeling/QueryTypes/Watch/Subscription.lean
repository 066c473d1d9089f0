import QueryTypes.Config.Basic
import QueryTypes.Glob.Set
import QueryTypes.Request
import QueryTypes.Work

/-! What is watched, which paths count as generated, how watching ends, and changes of files, as they
come in batches from the directories that are watched. -/

namespace QueryTypes

/-- What the standard input of the program is. -/
inductive StandardInput
  | terminal
  | pipe
  | absent
deriving DecidableEq, Repr, Inhabited

inductive ExitStrategy
  | anyKey
  | untilKilled
deriving DecidableEq, Repr, Inhabited

structure WatchState where
  patterns : List String
  markers : List String
  terminal : Bool
deriving DecidableEq, Repr, Inhabited

namespace WatchState

def sortedSet (xs : List String) : List String := Text.sorted xs.eraseDups

/-- Paths with the name of the output in them are taken for generated ones. -/
def ofRequest (r : Request) (patterns : List String) (terminal : Bool) : WatchState :=
  ⟨sortedSet patterns, sortedSet (generatedDirectory :: r.output.toList), terminal⟩

/-- A terminal that nothing is said about is there when the standard input is one. -/
def terminalOr (known : Option Bool) (input : StandardInput) : Bool :=
  known.getD (input == .terminal)

/-- Whether a change of a path leads to a generation: no marker stands anywhere in it. -/
def triggers (s : WatchState) (path : String) : Bool :=
  !s.markers.any fun m => Text.occurs m.toList path.toList

/-- At a terminal any key ends watching. -/
def strategy (s : WatchState) : ExitStrategy := if s.terminal then .anyKey else .untilKilled

end WatchState

structure Change where
  kind : String
  path : String
deriving DecidableEq, Repr, Inhabited

/-- What a source of changes gives next. A source can fail; otherwise it may end. -/
inductive SourceEvent
  | change (c : Change)
  | failed (f : Failure)
deriving Inhabited

/-- The files whose changes are of interest, and the time in milliseconds in which changes are
taken together. -/
structure Subscription where
  globs : GlobSet
  pause : Nat
deriving Inhabited

namespace Subscription

def ofState (s : WatchState) (excludes : List String) (root : Location) : Subscription :=
  ⟨GlobSet.ofPatterns root (WatchState.sortedSet s.patterns) excludes, 200⟩

def directories (s : Subscription) (t : FileTree) : List Location := s.globs.watchRoots t

def start (s : Subscription) : Work Unit := do
  let t := (← get).tree
  Work.debug "watch" ("Watching directories: "
    ++ Text.joinWith ", " ((s.directories t).map Location.text))

def accepts (s : Subscription) (cwd : Location) (c : Change) : Bool :=
  s.globs.matchesLocation (Path.resolve cwd (Path.ofText c.path))

/-- The changes of interest in a batch, by path. -/
def ordered (s : Subscription) (cwd : Location) (batch : List Change) : List Change :=
  (batch.eraseDups.filter (s.accepts cwd)).mergeSort fun a b => !decide (b.path < a.path)

/-- The changes that are delivered when the source is closed after some number of them. A batch
that has begun is delivered to its end. -/
def deliver (s : Subscription) (cwd : Location) (limit : Option Nat) : List (List Change) → List Change
  | [] => []
  | b :: r =>
    let cs := s.ordered cwd b
    match limit with
    | none => cs ++ deliver s cwd none r
    | some n =>
      if cs.isEmpty then deliver s cwd limit r
      else if n ≤ cs.length then cs
      else cs ++ deliver s cwd (some (n - cs.length)) r

end Subscription
end QueryTypes
