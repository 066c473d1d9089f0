import QueryTypes.Watch.Watcher

/-! A whole run of a watcher, from the first generation to the end: at a terminal it ends with the
first key, elsewhere with the source of changes. In every order of signals it ends with a
shutdown, also when closing the subscription fails. -/

namespace QueryTypes

/-- How a run ends. -/
inductive Ending
  | sourceEnded
  | leave
  | failed (f : Failure)
deriving DecidableEq, Inhabited

namespace Ending

/-- The status that the program exits with; without one the run just returns. -/
def status? : Ending → Option Nat
  | leave => some 0
  | _ => none

def failure? : Ending → Option Failure
  | failed f => some f
  | _ => none

end Ending

/-- How far a run has come. A source that has given its last change waits for the run to take
notice of it. -/
inductive Stage
  | first
  | watching
  | drained (e : Ending)
  | leaving (e : Ending)
  | ended (e : Ending)
  | broken (f : Failure)
deriving DecidableEq, Inhabited

namespace Stage

/-- A run that begins to leave. One that could not close its subscription is over at once. -/
def left (e : Ending) : Option Failure → Stage
  | none => leaving e
  | some f => broken f

/-- How the run has ended. What closing the subscription failed with goes before anything else. -/
def ending? : Stage → Option Ending
  | ended e => some e
  | broken f => some (.failed f)
  | _ => none

end Stage

/-- What a run is told. -/
inductive Signal
  | change (c : Change)
  | sourceEnded
  | sourceFailed (f : Failure)
  | turn
  | generated (outcome : Option Failure)
  | key (outcome : Option Failure)
  | proceed
deriving Inhabited

structure WatchRun where
  watcher : Watcher
  stage : Stage
deriving Inhabited

namespace WatchRun

variable {σ : Type} (s : Surroundings σ)

def start (w : Watcher) : StateM σ WatchRun := return ⟨← w.start s, .first⟩

/-- Begins to leave. -/
def leave (r : WatchRun) (e : Ending) : StateM σ WatchRun := do
  let (failure, w) ← r.watcher.beginShutdown s
  return ⟨w, .left e failure⟩

def started (r : WatchRun) (outcome : Option Failure) : StateM σ WatchRun := do
  match ← r.watcher.started s outcome with
  | (some f, w) => leave s { r with watcher := w } (.failed f)
  | (none, w) =>
    match w.state.strategy with
    | .anyKey => s.say "Press any key to stop.\n"
    | .untilKilled => pure ()
    return ⟨w, .watching⟩

/-- The source gives nothing any more. -/
def drain (r : WatchRun) (e : Ending) : WatchRun := { r with stage := .drained e }

/-- A key was pressed, or could not be read. -/
def key (r : WatchRun) : Option Failure → StateM σ WatchRun
  | some f => r.leave s (.failed f)
  | none => leave s { r with watcher := { r.watcher with phase := .awaitingExit } } .leave

/-- The run goes on where nothing keeps it. -/
def proceed (r : WatchRun) : StateM σ WatchRun :=
  match r.stage, r.watcher.state.strategy with
  | .drained e, .untilKilled => r.leave s e
  | .leaving e, _ => return ⟨← r.watcher.finishShutdown s, .ended e⟩
  | _, _ => return r

/-- Keys are read while there is something to leave. -/
def isAwaitingKey (r : WatchRun) : Bool :=
  match r.stage, r.watcher.state.strategy with
  | .watching, .anyKey | .drained _, .anyKey => true
  | _, _ => false

def step (r : WatchRun) : Signal → StateM σ WatchRun
  | .turn => return { r with watcher := ← r.watcher.turn s }
  | .generated outcome =>
    match r.stage with
    | .first => r.started s outcome
    | _ => return { r with watcher := ← r.watcher.generated s outcome }
  | .change c =>
    match r.stage with
    | .watching => return { r with watcher := (← r.watcher.change s c).2 }
    | _ => return r
  | .sourceEnded =>
    match r.stage with
    | .watching => return r.drain .sourceEnded
    | _ => return r
  | .sourceFailed f =>
    match r.stage with
    | .watching => do
      Watcher.sourceFailed s
      return r.drain (.failed f)
    | _ => return r
  | .key outcome => if r.isAwaitingKey then r.key s outcome else return r
  | .proceed => r.proceed s

/-- Signals one after the other. -/
def steps (r : WatchRun) (signals : List Signal) : StateM σ WatchRun :=
  signals.foldlM (step s) r

end WatchRun
end QueryTypes
