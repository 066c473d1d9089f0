import QueryTypes.Proofs.Watch.Moves
import QueryTypes.Proofs.Watch.Rounds

/-!
# One generation at a time

A watcher holds the task that it has made last. Here the tasks it has made before get their turns as
well, and hear of generations that end. They turn out to be done, each before the next one is made,
so that paths are told of and generations begin only while none is in flight.
-/

namespace QueryTypes

/-- A run with the tasks of its watcher for which later ones were made. -/
structure Crew where
  run : WatchRun
  earlier : List Regeneration

/-- A signal for a run, or something that happens to an earlier task. -/
inductive CrewSignal
  | run (signal : Signal)
  | turn (i : Nat)
  | generated (i : Nat) (outcome : Option Failure)

namespace Crew

variable {σ : Type} (s : Surroundings σ)

/-- What an earlier task does. It works on the watcher that all tasks share. -/
def act (c : Crew) (i : Nat) (f : Watcher → StateM (σ × List WatchCall) Watcher) :
    StateM (σ × List WatchCall) Crew :=
  match c.earlier[i]? with
  | none => return c
  | some task => do
    let w ← f { c.run.watcher with regeneration := task }
    return ⟨{ c.run with watcher := { w with regeneration := c.run.watcher.regeneration } },
      c.earlier.set i w.regeneration⟩

def step (c : Crew) : CrewSignal → StateM (σ × List WatchCall) Crew
  | .run signal => do
    let r ← c.run.tracedStep s signal
    -- A task that has not had its turn yet is a new one, unless it was there before.
    if r.watcher.regeneration = .due ∧ c.run.watcher.regeneration ≠ .due then
      return ⟨r, c.earlier ++ [c.run.watcher.regeneration]⟩
    return ⟨r, c.earlier⟩
  | .turn i => c.act i fun w => w.turn s.traced
  | .generated i outcome => c.act i fun w => do
    modify fun (x, calls) =>
      (x, if w.regeneration = .busy then calls ++ [WatchCall.ended] else calls)
    w.generated s.traced outcome

def steps (c : Crew) (signals : List CrewSignal) : StateM (σ × List WatchCall) Crew :=
  signals.foldlM (step s) c

def traced (state : WatchState) (signals : List CrewSignal) :
    StateM (σ × List WatchCall) Crew := do
  steps s ⟨← WatchRun.start s.traced (.ofState state), []⟩ signals

/-- How many tasks are not done. -/
def live (c : Crew) : Nat := (c.run.watcher.regeneration :: c.earlier).countP (· != .none)

end Crew

namespace WatchCall

theorem count_of_call {b b' : Bool} {c : WatchCall} (h : flight b c = some b') :
    [c].count .began + b.toNat = [c].count .ended + b'.toNat := by
  -- a call is either refused in this state or says what the next one is
  cases b <;> cases c <;> first | cases h; rfl | cases h

theorem count_of_flight {b b' : Bool} {calls : List WatchCall}
    (h : calls.foldlM flight b = some b') :
    calls.count .began + b.toNat = calls.count .ended + b'.toNat := by
  induction calls generalizing b with
  | nil =>
    obtain rfl : b = b' := by simpa using h
    rfl
  | cons c calls ih =>
    rw [List.foldlM_cons] at h
    obtain ⟨b₁, hc, hrest⟩ := Option.bind_eq_some_iff.1 h
    have hcall := count_of_call hc
    have hcount := ih hrest
    rw [← List.singleton_append, List.count_append, List.count_append]
    omega

theorem flight_of_isPrefix {b b' : Bool} {done calls : List WatchCall} (hp : done <+: calls)
    (h : calls.foldlM flight b = some b') : ∃ b₁, done.foldlM flight b = some b₁ := by
  obtain ⟨rest, rfl⟩ := hp
  rw [List.foldlM_append] at h
  obtain ⟨b₁, hb, -⟩ := Option.bind_eq_some_iff.1 h
  exact ⟨b₁, hb⟩

theorem not_flight_of_told {b b' : Bool} {uri : String} {done : List WatchCall}
    (h : (done ++ [WatchCall.told uri]).foldlM flight b = some b') : done.foldlM flight b = some false := by
  rw [List.foldlM_append] at h
  obtain ⟨b₁, hb, htold⟩ := Option.bind_eq_some_iff.1 h
  cases b₁ with
  | false => exact hb
  | true => simp [flight] at htold

end WatchCall

namespace WatchRun

theorem Moves.none_of_due {r r' : WatchRun} {added : List WatchCall} (hm : r.Moves added r')
    (hdue : r'.watcher.regeneration = .due) (hr : r.watcher.regeneration ≠ .due) :
    r.watcher.regeneration = .none := by
  have hshut : ∀ (w : Watcher) (failure : Option Failure),
      (w.shut failure).regeneration = w.regeneration := by
    intro w failure
    unfold Watcher.shut
    split <;> rfl
  cases hm with
  | rests | opens | drains => exact absurd hdue hr
  | fails | leaves => exact absurd hdue (by rwa [hshut])
  | queues hs hopen pending =>
    dsimp only at hdue
    split at hdue
    · assumption
    · exact absurd hdue hr
  | takes hr' => exact absurd hr' hr
  | goesOn hs hr' ht => cases ht <;> simp at hdue
  | finishes hs =>
    dsimp only at hdue
    split at hdue <;> exact absurd hdue hr

end WatchRun

namespace Crew

variable {σ : Type} {s : Surroundings σ} {c : Crew} {calls : List WatchCall}

/-- What holds at any time: only the last task may not be done. -/
structure Kept (c : Crew) (calls : List WatchCall) : Prop where
  run : c.run.Kept calls
  done : ∀ task ∈ c.earlier, task = .none

theorem calls_act (hdone : ∀ task ∈ c.earlier, task = .none) (i : Nat)
    {f : Watcher → StateM (σ × List WatchCall) Watcher}
    (hf : ∀ w : Watcher, w.regeneration = .none → Calls (f w) fun added w' => added = [] ∧ w' = w) :
    Calls (c.act i f) fun added c' => added = [] ∧ c' = c := by
  unfold act
  split
  · exact .pure ⟨rfl, rfl⟩
  · rename_i task hi
    obtain rfl := hdone task (List.mem_of_getElem? hi)
    refine (hf _ rfl).bind ?_
    rintro _ _ ⟨rfl, rfl⟩
    refine .pure ⟨rfl, ?_⟩
    have hset : c.earlier.set i .none = c.earlier := by
      obtain ⟨hlt, hget⟩ := List.getElem?_eq_some_iff.1 hi
      rw [← hget, List.set_getElem_self]
    rw [hset]

theorem Kept.step (h : c.Kept calls) (signal : CrewSignal) :
    Calls (c.step s signal) fun added c' => c'.Kept (calls ++ added) := by
  have hrest : ∀ {added : List WatchCall} {c' : Crew}, added = [] ∧ c' = c →
      c'.Kept (calls ++ added) := by
    rintro _ _ ⟨rfl, rfl⟩
    rwa [List.append_nil]
  cases signal with
  -- an earlier task is done, so that it neither takes a turn nor hears of an end
  | turn i =>
    refine (calls_act h.done i fun w hw => ?_).mono fun _ _ => hrest
    refine (Watcher.calls_turn w).mono ?_
    rintro _ _ (heq | ⟨hdue, -⟩)
    · exact heq
    · simp [hw] at hdue
  | generated i outcome =>
    refine (calls_act h.done i fun w hw => ?_).mono fun _ _ => hrest
    refine .silent_bind (fun y => ⟨[], ?_, rfl⟩) fun _ =>
      Watcher.calls_generated_of_not_busy (by simp [hw]) outcome
    change (if w.regeneration = .busy then y.2 ++ [.ended] else y.2) = y.2 ++ []
    rw [if_neg (by simp [hw]), List.append_nil]
  | run signal =>
    refine (WatchRun.moves_step signal).bind ?_
    intro added r hm
    have hrun := h.run.moves hm
    split
    · rename_i hnew
      refine .pure ⟨by rwa [List.append_nil], ?_⟩
      intro task htask
      rcases List.mem_append.1 htask with hold | hlast
      · exact h.done task hold
      · rw [List.mem_singleton.1 hlast]
        exact hm.none_of_due hnew.1 hnew.2
    · exact .pure ⟨by rwa [List.append_nil], h.done⟩

theorem kept_steps (h : c.Kept calls) (signals : List CrewSignal) :
    Calls (c.steps s signals) fun added c' => c'.Kept (calls ++ added) := by
  induction signals generalizing c calls with
  | nil => exact .pure (by rwa [List.append_nil])
  | cons signal signals ih =>
    refine (h.step signal).bind ?_
    intro added c' h'
    refine (ih h').mono ?_
    intro more c'' h''
    rwa [← List.append_assoc]

theorem kept_traced (state : WatchState) (signals : List CrewSignal) :
    Calls (traced s state signals) fun calls c => c.Kept calls := by
  refine (WatchRun.kept_start state).bind ?_
  intro added r h
  exact kept_steps ⟨h, by simp⟩ signals

theorem live_eq (h : c.Kept calls) :
    c.live = if c.run.watcher.regeneration = .none then 0 else 1 := by
  have hearlier : c.earlier.countP (· != .none) = 0 := by
    rw [List.countP_eq_zero]
    intro task htask
    simp [h.done task htask]
  rw [live, List.countP_cons, hearlier]
  simp

/-- Whatever happens in whatever order, and whichever task it happens to: at most one task is not
done, at most one generation is in flight, the first one included, and paths are told of only while
none is. Until a shutdown begins, the phase tells whether one is in flight. -/
theorem single_flight (s : Surroundings σ) (state : WatchState) (x : σ)
    (signals : List CrewSignal) :
    let now := (traced s state signals).run (x, [])
    let w := now.1.run.watcher
    now.1.live ≤ 1 ∧
    (∀ done, done <+: now.2.2 →
      done.count .ended ≤ done.count .began ∧ done.count .began ≤ done.count .ended + 1) ∧
    (∀ done uri, done ++ [.told uri] <+: now.2.2 → done.count .began = done.count .ended) ∧
    (w.closed = false →
      (now.2.2.count .began ≠ now.2.2.count .ended → w.phase = .generating) ∧
      (now.1.run.stage ≠ .first → now.1.live = 0 → w.phase = .idle)) := by
  intro now w
  obtain ⟨calls, hcalls, h⟩ := kept_traced (s := s) state signals (x, [])
  obtain rfl : now.2.2 = calls := hcalls
  have hflight := h.run.flight
  have hlive := live_eq h
  refine ⟨?_, ?_, ?_, ?_⟩
  · rw [hlive]
    split <;> omega
  · intro done hp
    obtain ⟨b, hb⟩ := WatchCall.flight_of_isPrefix hp hflight
    have hcount := WatchCall.count_of_flight hb
    have hle := Bool.toNat_le b
    simp only [Bool.toNat_false] at hcount
    omega
  · intro done uri hp
    obtain ⟨b, hb⟩ := WatchCall.flight_of_isPrefix hp hflight
    have hcount := WatchCall.count_of_flight (WatchCall.not_flight_of_told hb)
    simpa using hcount
  · intro hopen
    have hphase := h.run.phase_of_open hopen
    refine ⟨fun hne => hphase.trans (if_pos ?_), fun hs hnone => hphase.trans (if_neg ?_)⟩
    · by_cases hin : now.1.run.InFlight
      · exact hin
      · have hcount := WatchCall.count_of_flight hflight
        rw [decide_eq_false hin] at hcount
        exact absurd hcount hne
    · by_cases hreg : now.1.run.watcher.regeneration = .none
      · refine not_or_intro hs fun hbusy => ?_
        rw [hreg] at hbusy
        cases hbusy
      · have hone := hlive.symm.trans hnone
        rw [if_neg hreg] at hone
        omega

/-- A path changes while the generation for another one is in flight, which fails. The task that
was there before it gets a turn in between, and hears of the end as well. -/
def queued : List CrewSignal :=
  [.run (.generated none), .run (.change ⟨"change", "a.graphql"⟩), .run .turn,
    .run (.change ⟨"change", "b.graphql"⟩), .turn 0, .generated 0 none,
    .run (.generated (some (.generation "no space left")))]

theorem single_flight_queued :
    let now := (traced Watcher.calm ⟨[], [], false⟩ queued).run ((), [])
    now.1.earlier = [.none] ∧ now.1.live = 1 ∧ now.2.2.count .began = 3 ∧
      now.2.2.count .ended = 2 ∧ now.1.run.watcher.phase = .generating := by
  have h := single_flight Watcher.calm ⟨[], [], false⟩ () queued
  dsimp only at h ⊢
  obtain ⟨-, -, -, hphase⟩ := h
  exact ⟨by decide +kernel, by decide +kernel, by decide +kernel, by decide +kernel,
    (hphase (by decide +kernel)).1 (by decide +kernel)⟩

end Crew
end QueryTypes
