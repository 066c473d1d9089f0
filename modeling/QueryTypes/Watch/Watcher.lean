import QueryTypes.Log
import QueryTypes.Path.Uri
import QueryTypes.Watch.Subscription

/-! The watcher collects changed paths and regenerates for them, one generation at a time. Each
function here is one step: between two steps anything else may happen. What a step asks of the
outside goes through `Surroundings`; how a generation ended is told to the watcher by a later
step. -/

namespace QueryTypes

/-- What a watcher acts on. A generation that was started ends at some time of its own. A path can
lead in a circle of links, and a subscription can fail to be made or to be closed. -/
structure Surroundings (σ : Type) where
  resolve : String → StateM σ (Except Fault Location)
  reread : String → StateM σ (Option Failure)
  generate : StateM σ Unit
  subscribe : WatchState → StateM σ (Option Failure)
  unsubscribe : StateM σ (Option Failure)
  note : LogLine → StateM σ Unit
  say : String → StateM σ Unit

namespace Surroundings

variable {σ : Type} (s : Surroundings σ)

def debug (text : String) : StateM σ Unit := s.note ⟨.debug, "watch", text⟩

def info (text : String) : StateM σ Unit := s.note ⟨.info, "watch", text⟩

def error (text : String) : StateM σ Unit := s.note ⟨.error, "watch", text⟩

end Surroundings

/-- Where a path leads in a tree without links. -/
def Path.resolved (cwd : Location) (path : String) : Except Fault Location :=
  if path.toList.contains '\x00' then .error (.badValue "embedded null byte")
  else .ok (resolve cwd (ofText path))

inductive WatchPhase
  | idle
  | generating
  | awaitingExit
  | closed
deriving DecidableEq, Repr, Inhabited

namespace WatchPhase

def text : WatchPhase → String
  | idle => "idle"
  | generating => "generating"
  | awaitingExit => "awaiting_exit"
  | closed => "closed"

end WatchPhase

/-- The task that works off changed paths: it is due until it gets its turn, and busy as long as a
generation that it started is in flight. -/
inductive Regeneration
  | none
  | due
  | busy
deriving DecidableEq, Repr, Inhabited

/-- A shutdown begins, which is final, and is over some time later. One that cannot close the
subscription stays where it is. -/
inductive Shutdown
  | none
  | begun
  | finished
  | broken
deriving DecidableEq, Repr, Inhabited

/-- The changed paths that no generation has begun for are pending, each once. -/
structure Watcher where
  state : WatchState
  phase : WatchPhase
  pending : List String
  regeneration : Regeneration
  subscribed : Bool
  shutdown : Shutdown
deriving DecidableEq, Repr, Inhabited

namespace Watcher

variable {σ : Type} (s : Surroundings σ)

def ofState (state : WatchState) : Watcher := ⟨state, .idle, [], .none, false, .none⟩

def closed (w : Watcher) : Bool := w.shutdown != .none

/-- Begins with a generation for everything. -/
def start (w : Watcher) : StateM σ Watcher := do
  s.generate
  return { w with phase := .generating }

/-- The failure of a first generation that watching cannot begin after. Another failure may go
away with the next change. -/
def fatal? : Option Failure → Option Failure
  | some (.configuration m) => some (.configuration m)
  | some (.breakdown f) => some (.breakdown f)
  | _ => none

def watchAnyway : Option Failure → StateM σ Unit
  | some f => s.error ("Initial generation failed, watching anyway: " ++ f.text)
  | none => pure ()

/-- Subscribes to changes after the first generation. -/
def subscribe (w : Watcher) (outcome : Option Failure) : StateM σ (Option Failure × Watcher) := do
  watchAnyway s outcome
  match ← s.subscribe w.state with
  | some f => return (some f, { w with phase := .idle })
  | none =>
    s.info ("Watching for changes in " ++ Text.joinWith ", " w.state.patterns)
    return (none, { w with phase := .idle, subscribed := true })

/-- The first generation has ended. A failure is given if watching does not begin. -/
def started (w : Watcher) (outcome : Option Failure) : StateM σ (Option Failure × Watcher) :=
  match fatal? outcome with
  | some f => return (some f, w)
  | none => w.subscribe s outcome

/-- Adds a path to the pending ones, unless it is one of them. -/
def enqueue (w : Watcher) (path : String) : Watcher :=
  if w.pending.contains path then w else { w with pending := w.pending ++ [path] }

/-- Notes a change, and whether a generation follows from it. -/
def change (w : Watcher) (c : Change) : StateM σ (Bool × Watcher) := do
  if w.closed then return (false, w)
  if !w.state.triggers c.path then
    s.debug ("Ignoring " ++ c.kind ++ " event for generated path " ++ c.path)
    return (false, w)
  let w := w.enqueue c.path
  match w.regeneration with
  | .none => return (true, { w with regeneration := .due })
  | _ =>
    s.debug ("Generation in progress, queued " ++ c.path)
    return (true, w)

/-- Tells the project of a changed path, if it leads somewhere. -/
def reread (path : String) : StateM σ (Option Failure) := do
  match ← s.resolve path with
  | .error f => return some (.breakdown f)
  | .ok place => s.reread (Uri.ofLocation place)

/-- Tells of paths in their order, up to the first one that fails. -/
def rereadAll : List String → StateM σ (Option Failure)
  | [] => return none
  | p :: r => do
    match ← reread s p with
    | some f => return some f
    | none => rereadAll r

def report (f : Failure) : StateM σ Unit :=
  if f.isExpected then s.error ("Generation failed: " ++ f.text)
  else s.error "Unexpected failure while regenerating"

/-- Takes all pending paths and starts a generation for them. Without any, and after the shutdown
has begun, the task is done. -/
def takeBatch (w : Watcher) : StateM σ Watcher := do
  if w.closed || w.pending.isEmpty then return { w with regeneration := .none }
  s.info "Change detected, generating types..."
  match ← rereadAll s w.pending with
  | some f =>
    report s f
    return { w with phase := .idle, pending := [], regeneration := .none }
  | none =>
    s.generate
    return { w with phase := .generating, pending := [], regeneration := .busy }

/-- The task gets its first turn. -/
def turn (w : Watcher) : StateM σ Watcher :=
  match w.regeneration with
  | .due => w.takeBatch s
  | _ => return w

/-- A generation has ended that the task has started. -/
def generated (w : Watcher) (outcome : Option Failure) : StateM σ Watcher := do
  match w.regeneration with
  | .busy =>
    match outcome with
    | some f => report s f
    | none => pure ()
    takeBatch s { w with phase := if w.closed then w.phase else .idle }
  | _ => return w

/-- The source of changes has failed. -/
def sourceFailed : StateM σ Unit :=
  s.error "Watching for changes failed, no further changes will be picked up"

/-- Closes the subscription, if there is one. -/
def unsubscribe (w : Watcher) : StateM σ (Option Failure) :=
  if w.subscribed then s.unsubscribe else pure none

/-- Begins a shutdown, once. A failure is given if the subscription cannot be closed. -/
def beginShutdown (w : Watcher) : StateM σ (Option Failure × Watcher) := do
  if w.closed then return (none, w)
  let failure ← w.unsubscribe s
  return (failure, { w with pending := [], shutdown := if failure.isNone then .begun else .broken })

def finishShutdown (w : Watcher) : StateM σ Watcher :=
  match w.shutdown with
  | .begun => do
    s.debug "Stopped watching"
    return { w with phase := .closed, shutdown := .finished }
  | _ => return w

end Watcher
end QueryTypes
