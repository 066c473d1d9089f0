import QueryTypes.Watch.Run

/-! A watcher in surroundings that follow a script and keep a record. How generations and rereading
end is given by their numbers; some generations wait to be released; and events of the source wait
in a queue until somebody looks. -/

namespace QueryTypes

structure Script where
  outcomes : Nat → Option Failure
  rereads : Nat → Option Failure
  gated : List Nat
  offered : List (Option SourceEvent)
  key : Option Failure
deriving Inhabited

/-- What was done so far, and what may happen next. An empty place in the queue is the end of the
source. -/
structure Scripted where
  script : Script
  watcher : Watcher
  started : Nat
  reread : Nat
  changed : List String
  opened : Nat
  closings : Nat
  log : List LogLine
  said : String
  left : List Nat
  queue : List (Option SourceEvent)
  listening : Bool
  broken : Option Failure
  released : List Nat
deriving Inhabited

namespace Scripted

def ofScript (script : Script) (state : WatchState) : Scripted :=
  ⟨script, .ofState state, 0, 0, [], 0, 0, [], "", [], [], false, none, []⟩

def surroundings (cwd : Location) : Surroundings Scripted where
  resolve path := pure (Path.resolved cwd path)
  reread uri := modifyGet fun t =>
    let t' := { t with reread := t.reread + 1 }
    match t.script.rereads t.reread with
    | none => (none, { t' with changed := t.changed ++ [uri] })
    | some f => (some f, t')
  generate := modify fun t => { t with started := t.started + 1 }
  subscribe _ := modifyGet fun t => (none,
    { t with opened := t.opened + 1, queue := t.script.offered, listening := true, broken := none })
  unsubscribe := modifyGet fun t => (none, { t with closings := t.closings + 1 })
  note l := modify fun t => { t with log := t.log ++ [l] }
  say s := modify fun t => { t with said := t.said ++ s }

variable (s : Surroundings Scripted)

def withWatcher (f : Watcher → StateM Scripted Watcher) : StateM Scripted Unit := do
  let w ← f (← get).watcher
  modify fun t => { t with watcher := w }

/-- How the generation ends that was started last. -/
def outcome : StateM Scripted (Option Failure) := do
  let t ← get
  return t.script.outcomes (t.started - 1)

def change (c : Change) : StateM Scripted Bool := do
  let (accepted, w) ← (← get).watcher.change s c
  modify fun t => { t with watcher := w }
  return accepted

/-- Takes events up to the end of the source. -/
def take : List (Option SourceEvent) → StateM Scripted Unit
  | [] => pure ()
  | none :: r => modify fun t => { t with listening := false, queue := r }
  | some (.failed f) :: r => do
    Watcher.sourceFailed s
    modify fun t => { t with listening := false, queue := r, broken := some f }
  | some (.change c) :: r => do
    let _ ← change s c
    take r

def pump : StateM Scripted Unit := do
  if (← get).listening then
    let queue := (← get).queue
    modify fun t => { t with queue := [] }
    take s queue

def isBlocked (t : Scripted) : Bool :=
  t.script.gated.contains t.started && !t.released.contains t.started

/-- Lets at most so many generations end, up to one that waits. -/
def endGenerations : Nat → StateM Scripted Unit
  | 0 => pure ()
  | n + 1 => do
    let t ← get
    if t.watcher.regeneration = .busy ∧ !t.isBlocked then
      let o ← outcome
      withWatcher fun w => w.generated s o
      endGenerations n

/-- Lets happen what is due. One generation may follow another one, and no more do without further
changes. -/
def settle : StateM Scripted Unit := do
  if (← get).watcher.regeneration ≠ .none then
    pump s
    withWatcher fun w => w.turn s
    endGenerations s 2

def start : StateM Scripted (Option Failure) := do
  withWatcher fun w => w.start s
  let (failure, w) ← (← get).watcher.started s (← outcome)
  modify fun t => { t with watcher := w }
  return failure

def release : StateM Scripted Unit := modify fun t => { t with released := t.started :: t.released }

def feed (events : List (Option SourceEvent)) : StateM Scripted Unit := do
  modify fun t => { t with queue := t.queue ++ events }
  pump s
  settle s

/-- Waits for the end of the source, which may be a failure. -/
def wait : StateM Scripted (Option Failure) := do
  pump s
  withWatcher fun w => w.turn s
  return (← get).broken

def shutdown : StateM Scripted Unit := do
  withWatcher fun w => Prod.snd <$> w.beginShutdown s
  modify fun t => { t with listening := false }
  if 0 < (← get).opened then withWatcher fun w => w.turn s
  withWatcher fun w => w.finishShutdown s

def signalOf : Option SourceEvent → Signal
  | none => .sourceEnded
  | some (.failed f) => .sourceFailed f
  | some (.change c) => .change c

/-- A whole run on the events that are offered. -/
def run : StateM Scripted (Option Failure) := do
  let r ← WatchRun.start s (← get).watcher
  let r ← r.step s (.generated (← outcome))
  let t ← get
  let r ← r.steps s (t.queue.map signalOf ++ [.turn, .key t.script.key, .proceed, .proceed])
  modify fun t => { t with watcher := r.watcher, queue := [], listening := false }
  endGenerations s 2
  match r.stage.ending? with
  | some e =>
    modify fun t => { t with left := t.left ++ e.status?.toList }
    return e.failure?
  | none => return none

end Scripted
end QueryTypes
