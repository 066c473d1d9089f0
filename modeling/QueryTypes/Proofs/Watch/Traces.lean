import QueryTypes.Proofs.Watch.Steps
import QueryTypes.Watch.Run

/-!
# Traces of a run

What a run asks of the project, of the pipeline and of its subscription is written down in order,
and with it where a generation ended. Writing it down changes nothing about the run.
-/

namespace QueryTypes

/-- The calls that a run makes, where a generation ended, and what closing its subscription failed
with. -/
inductive WatchCall
  | told (uri : String)
  | began
  | ended
  | subscribed
  | unsubscribed (outcome : Option Failure)
deriving DecidableEq

namespace WatchCall

/-- A subscription that could not be made is none. -/
def ofSubscription : Option Failure → List WatchCall
  | none => [.subscribed]
  | some _ => []

def closing? : WatchCall → Option (Option Failure)
  | .unsubscribed outcome => some outcome
  | _ => none

/-- How closing a subscription went, each time. -/
def closings (calls : List WatchCall) : List (Option Failure) := calls.filterMap closing?

end WatchCall

namespace Surroundings

variable {σ : Type} (s : Surroundings σ)

/-- The same surroundings, which write down what they are called for. -/
def traced : Surroundings (σ × List WatchCall) where
  resolve path := fun (x, calls) => (((s.resolve path).run x).1, ((s.resolve path).run x).2, calls)
  reread uri := fun (x, calls) =>
    let (outcome, x) := (s.reread uri).run x
    (outcome, x, calls ++ [.told uri])
  generate := fun (x, calls) => ((), (s.generate.run x).2, calls ++ [.began])
  subscribe state := fun (x, calls) =>
    let (outcome, x) := (s.subscribe state).run x
    (outcome, x, calls ++ WatchCall.ofSubscription outcome)
  unsubscribe := fun (x, calls) =>
    let (outcome, x) := s.unsubscribe.run x
    (outcome, x, calls ++ [.unsubscribed outcome])
  note line := fun (x, calls) => ((), ((s.note line).run x).2, calls)
  say text := fun (x, calls) => ((), ((s.say text).run x).2, calls)

end Surroundings

namespace WatchRun

variable {σ : Type} (s : Surroundings σ)

/-- A generation was started and has not ended. -/
def InFlight (r : WatchRun) : Prop := r.stage = .first ∨ r.watcher.regeneration = .busy

instance (r : WatchRun) : Decidable r.InFlight :=
  inferInstanceAs (Decidable (r.stage = .first ∨ r.watcher.regeneration = .busy))

def markEnd (r : WatchRun) : Signal → StateM (σ × List WatchCall) Unit
  | .generated _ => modify fun (x, calls) => (x, if r.InFlight then calls ++ [.ended] else calls)
  | _ => pure ()

def tracedStep (r : WatchRun) (signal : Signal) : StateM (σ × List WatchCall) WatchRun := do
  r.markEnd signal
  r.step s.traced signal

def tracedSteps (r : WatchRun) (signals : List Signal) : StateM (σ × List WatchCall) WatchRun :=
  signals.foldlM (tracedStep s) r

def traced (state : WatchState) (signals : List Signal) :
    StateM (σ × List WatchCall) WatchRun := do
  tracedSteps s (← start s.traced (.ofState state)) signals

end WatchRun

/-- A computation that is written down gives what the same computation gives without that. -/
def Erases {σ α : Type} (m' : StateM (σ × List WatchCall) α) (m : StateM σ α) : Prop :=
  ∀ y, ((m'.run y).1, (m'.run y).2.1) = m.run y.1

namespace Erases

variable {σ α β : Type} {s : Surroundings σ}

theorem pure (a : α) : Erases (pure a : StateM (σ × List WatchCall) α) (pure a) := fun _ => rfl

theorem bind {m' : StateM (σ × List WatchCall) α} {m : StateM σ α}
    {f' : α → StateM (σ × List WatchCall) β} {f : α → StateM σ β} (hm : Erases m' m)
    (hf : ∀ a, Erases (f' a) (f a)) : Erases (m' >>= f') (m >>= f) := by
  intro y
  rw [Calls.run_bind, Calls.run_bind, ← hm y]
  exact hf _ _

theorem note (l : LogLine) : Erases (s.traced.note l) (s.note l) := fun _ => rfl

theorem say (text : String) : Erases (s.traced.say text) (s.say text) := fun _ => rfl

theorem report (f : Failure) : Erases (Watcher.report s.traced f) (Watcher.report s f) := by
  unfold Watcher.report
  split <;> exact note _

theorem reread (path : String) : Erases (Watcher.reread s.traced path) (Watcher.reread s path) := by
  refine bind (fun _ => rfl) fun place => ?_
  cases place with
  | error f => exact pure _
  | ok l => exact fun _ => rfl

theorem rereadAll (paths : List String) :
    Erases (Watcher.rereadAll s.traced paths) (Watcher.rereadAll s paths) := by
  induction paths with
  | nil => exact pure _
  | cons p paths ih =>
    refine bind (reread p) fun outcome => ?_
    cases outcome with
    | some f => exact pure _
    | none => exact ih

theorem takeBatch (w : Watcher) : Erases (w.takeBatch s.traced) (w.takeBatch s) := by
  unfold Watcher.takeBatch
  split
  · exact pure _
  · refine bind (note _) fun _ => bind (rereadAll _) fun outcome => ?_
    cases outcome with
    | some f => exact bind (report f) fun _ => pure _
    | none => exact bind (fun _ => rfl) fun _ => pure _

theorem turn (w : Watcher) : Erases (w.turn s.traced) (w.turn s) := by
  unfold Watcher.turn
  split
  · exact takeBatch w
  · exact pure _

theorem generated (w : Watcher) (outcome : Option Failure) :
    Erases (w.generated s.traced outcome) (w.generated s outcome) := by
  unfold Watcher.generated
  split
  · cases outcome with
    | none => exact takeBatch _
    | some f => exact bind (report f) fun _ => takeBatch _
  · exact pure _

theorem change (w : Watcher) (c : Change) : Erases (w.change s.traced c) (w.change s c) := by
  unfold Watcher.change
  split
  · exact pure _
  · split
    · exact bind (note _) fun _ => pure _
    · dsimp only
      split
      · exact pure _
      · exact bind (note _) fun _ => pure _

theorem leave (r : WatchRun) (e : Ending) : Erases (r.leave s.traced e) (r.leave s e) := by
  have hunsubscribe : Erases (r.watcher.unsubscribe s.traced) (r.watcher.unsubscribe s) := by
    unfold Watcher.unsubscribe
    split
    · exact fun _ => rfl
    · exact pure _
  refine bind ?_ fun _ => pure _
  unfold Watcher.beginShutdown
  split
  · exact pure _
  · exact bind hunsubscribe fun _ => pure _

theorem started (r : WatchRun) (outcome : Option Failure) :
    Erases (r.started s.traced outcome) (r.started s outcome) := by
  refine bind ?_ fun z => ?_
  · unfold Watcher.started
    split
    · exact pure _
    · refine bind ?_ fun _ => bind (fun _ => rfl) fun failed => ?_
      · cases outcome with
        | none => exact pure _
        | some f => exact note _
      · cases failed with
        | some f => exact pure _
        | none => exact bind (note _) fun _ => pure _
  · obtain ⟨failure, w⟩ := z
    cases failure with
    | some f => exact leave _ _
    | none =>
      dsimp only
      split
      · exact bind (say _) fun _ => pure _
      · exact pure _

theorem proceed (r : WatchRun) : Erases (r.proceed s.traced) (r.proceed s) := by
  unfold WatchRun.proceed
  split
  · exact leave r _
  · refine bind ?_ fun _ => pure _
    unfold Watcher.finishShutdown
    split
    · exact bind (note _) fun _ => pure _
    · exact pure _
  · exact pure _

theorem untracedStep (r : WatchRun) (signal : Signal) :
    Erases (r.step s.traced signal) (r.step s signal) := by
  cases signal with
  | turn => exact bind (turn _) fun _ => pure _
  | generated outcome =>
    unfold WatchRun.step
    dsimp only
    split
    · exact started r outcome
    · exact bind (generated _ outcome) fun _ => pure _
  | change c =>
    unfold WatchRun.step
    dsimp only
    split
    · exact bind (change _ c) fun _ => pure _
    · exact pure _
  | sourceEnded =>
    unfold WatchRun.step
    dsimp only
    split <;> exact pure _
  | sourceFailed f =>
    unfold WatchRun.step
    dsimp only
    split
    · exact bind (note _) fun _ => pure _
    · exact pure _
  | key outcome =>
    unfold WatchRun.step
    dsimp only
    split
    · cases outcome with
      | some f => exact leave r _
      | none => exact leave _ _
    · exact pure _
  | proceed => exact proceed r

theorem step (r : WatchRun) (signal : Signal) :
    Erases (r.tracedStep s signal) (r.step s signal) := by
  have hmark : ∀ y : σ × List WatchCall, ((r.markEnd signal).run y).2.1 = y.1 := by
    intro y
    cases signal <;> rfl
  intro y
  rw [← hmark y]
  exact untracedStep r signal _

theorem steps (r : WatchRun) (signals : List Signal) :
    Erases (r.tracedSteps s signals) (r.steps s signals) := by
  induction signals generalizing r with
  | nil => exact pure r
  | cons signal signals ih => exact bind (step r signal) ih

end Erases
end QueryTypes
