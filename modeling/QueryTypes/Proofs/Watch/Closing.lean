import QueryTypes.Proofs.Watch.Moves
import QueryTypes.Proofs.Watch.Rounds

/-!
# Closing a run

Every way out of a run closes it, once: from the moment at which its shutdown begins, nothing is
reread or generated any more, changes are turned down, and the subscription is closed if there is
one. A generation that is still in flight then may end at any later time, and the run stays closed.
-/

namespace QueryTypes

namespace Watcher

variable {σ : Type} {s : Surroundings σ} {w w' : Watcher} {added : List WatchCall}

end Watcher

def Signal.isProceed : Signal → Bool
  | .proceed => true
  | _ => false

namespace WatchRun

variable {σ : Type} {s : Surroundings σ} {r r' : WatchRun} {calls added : List WatchCall}

theorem closed_shut (w : Watcher) (failure : Option Failure) : (w.shut failure).closed = true := by
  unfold Watcher.shut
  split
  · assumption
  · cases failure <;> rfl

theorem Moves.closed (hm : r.Moves added r') (hc : r.watcher.closed = true) :
    r'.watcher.closed = true := by
  cases hm with
  | rests => exact hc
  | opens hs => exact hc
  | fails => exact closed_shut _ _
  | queues hs hopen => exact hc
  | drains hs e => exact hc
  | takes hr ht => rwa [Watcher.closed, ht.frame.1]
  | goesOn hs hr ht => rwa [Watcher.closed, ht.frame.1]
  | leaves => exact closed_shut _ _
  | finishes hs =>
    dsimp only
    split
    · rfl
    · exact hc

/-- A run on its way out is over when it has gone on so many times. -/
def Bound (r : WatchRun) (n : Nat) : Prop :=
  match r.stage with
  | .first | .watching => False
  | .drained _ => r.watcher.state.strategy = .untilKilled ∧ 2 ≤ n
  | .leaving _ => 1 ≤ n
  | .ended _ | .broken _ => True

theorem bound_left (w : Watcher) (e : Ending) (failure : Option Failure) {n : Nat} (hn : 1 ≤ n) :
    Bound ⟨w, .left e failure⟩ n := by
  cases failure with
  | none => exact hn
  | some f => trivial

theorem Bound.of_takes {w w' : Watcher} {n : Nat} (h : r.Bound n) (ht : w.Takes added w')
    (hw : w.state = r.watcher.state) : Bound { r with watcher := w' } n := by
  have hstate : w'.state = r.watcher.state := by
    rw [← hw]
    cases ht <;> rfl
  unfold Bound at h ⊢
  cases hs : r.stage <;> simp_all

theorem Bound.moves {n : Nat} (h : r.Bound n) (hm : r.Moves added r') : r'.Bound n := by
  cases hm with
  | rests => exact h
  | opens hs | fails hs | queues hs | drains hs =>
    unfold Bound at h
    rw [hs] at h
    exact h.elim
  | takes hr ht => exact h.of_takes ht rfl
  | goesOn hs hr ht => exact h.of_takes ht rfl
  | leaves hs hopen hphase e hf =>
    apply bound_left
    unfold Bound at h
    cases hstage : r.stage with
    | first | watching => simp [hstage] at h
    | drained e =>
      rw [hstage] at h
      exact Nat.le_of_succ_le h.2
    | leaving | ended | broken => simp [hstage, Stage.shutdown] at hopen
  | finishes => trivial

theorem Bound.proceed {n : Nat} (h : r.Bound n) :
    Calls (r.tracedStep s .proceed) fun _ r' => r'.Bound (n - 1) := by
  refine .silent_bind (.pure rfl) fun _ => ?_
  unfold Bound at h
  unfold step WatchRun.proceed
  cases hs : r.stage with
  | first | watching => simp [hs] at h
  | drained e =>
    rw [hs] at h
    rw [h.1]
    refine (calls_leave e).mono ?_
    rintro _ _ ⟨failure, -, -, rfl⟩
    exact bound_left _ _ _ (by omega)
  | leaving e =>
    exact (Watcher.calls_finishShutdown r.watcher).bind fun _ _ _ => .pure trivial
  | ended e => exact .pure (by simp [Bound, hs])
  | broken f => exact .pure (by simp [Bound, hs])

theorem Bound.steps {n : Nat} (h : r.Bound n) (signals : List Signal) :
    Calls (r.tracedSteps s signals) fun _ r' =>
      r'.Bound (n - signals.countP Signal.isProceed) := by
  induction signals generalizing r n with
  | nil => exact .pure h
  | cons signal signals ih =>
    have hone : Calls (r.tracedStep s signal) fun _ r' =>
        r'.Bound (n - [signal].countP Signal.isProceed) := by
      cases signal with
      | proceed => exact h.proceed
      | _ => exact (moves_step _).mono fun _ _ hm => h.moves hm
    refine hone.bind fun _ r' h' => (ih h').mono fun _ r'' h'' => ?_
    rwa [Nat.sub_sub, ← List.countP_append] at h''

/-- A watcher that was shut down before it was run. -/
def gone : Watcher := { Watcher.ofState ⟨[], [], false⟩ with phase := .closed, shutdown := .finished }

end WatchRun
end QueryTypes
