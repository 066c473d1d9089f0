import QueryTypes.Pipeline.Run
import QueryTypes.Watch.Run

/-! Watches a project. Generations run to their end when they are started; their outcomes reach
the watcher later. -/

namespace QueryTypes

/-- A subscription that was made: what for, and how often it was closed. -/
structure MadeSubscription where
  state : WatchState
  closings : Nat
deriving DecidableEq, Repr, Inhabited

/-- A session that is watched, with the outcome of a generation that the watcher does not know yet,
the subscriptions and what was said to the user. -/
structure WatchedSession where
  session : Session
  outcome : Option (Option Failure)
  subscriptions : List MadeSubscription
  said : String
deriving Inhabited

namespace WatchedSession

def ofSession (s : Session) : WatchedSession := ⟨s, none, [], ""⟩

def close : List MadeSubscription → List MadeSubscription
  | [] => []
  | [m] => [{ m with closings := m.closings + 1 }]
  | m :: r => m :: close r

/-- Work in the session of which only the failure is of interest. -/
def outcomeOf {α : Type} (j : Job α) : StateM WatchedSession (Option Failure) := do
  let w ← get
  let (r, session) := j.perform w.session
  set { w with session := session }
  match r with
  | .ok _ => return none
  | .error f => return some f

/-- Rereading a path goes to the project, a generation to the pipeline. -/
def surroundings (cwd : Location) (generation : Job Nat) : Surroundings WatchedSession where
  resolve path := pure (Path.resolved cwd path)
  reread uri := outcomeOf (Session.fileChanged uri)
  generate := do
    let o ← outcomeOf generation
    modify fun w => { w with outcome := some o }
  subscribe state := modifyGet fun w =>
    (none, { w with subscriptions := w.subscriptions ++ [⟨state, 0⟩] })
  unsubscribe := modifyGet fun w => (none, { w with subscriptions := close w.subscriptions })
  note line := do
    let _ ← outcomeOf (Job.ofWork (Work.log line.level line.part line.text))
    return ()
  say text := modify fun w => { w with said := w.said ++ text }

/-- Tells a run how its generation ended, when one has ended. -/
def settle (s : Surroundings WatchedSession) (r : WatchRun) : StateM WatchedSession WatchRun := do
  match (← get).outcome with
  | none => return r
  | some o =>
    modify fun w => { w with outcome := none }
    r.step s (.generated o)

/-- What a source gives, as signals to a run. -/
def signals : List SourceEvent → List Signal
  | [] => [.sourceEnded]
  | .change c :: r => .change c :: signals r
  | .failed f :: _ => [.sourceFailed f]

/-- A run on a source that gives its events at once. The changes are worked off together, and a
generation for them is left to end by itself. -/
def follow (s : Surroundings WatchedSession) (state : WatchState) (opening : Work Unit)
    (events : List SourceEvent) : StateM WatchedSession WatchRun := do
  let r ← settle s (← WatchRun.start s (Watcher.ofState state))
  let _ ← if r.stage = .watching then outcomeOf (Job.ofWork opening) else pure none
  let r ← r.steps s (signals events ++ [.turn, .proceed, .proceed])
  settle s r

end WatchedSession

/-- Watches for a request; the result says how watching ended. -/
def Session.watch (send : HttpRequest → Work HttpReply) (backend : Generation → Work Nat)
    (r : Request) (state : WatchState) (opening : Work Unit) (events : List SourceEvent)
    (s : Session) : Option Ending × WatchedSession :=
  let around := WatchedSession.surroundings s.world.cwd (Pipeline.run send backend r)
  let (run, after) := (WatchedSession.follow around state opening events).run (.ofSession s)
  (run.stage.ending?, after)

end QueryTypes
