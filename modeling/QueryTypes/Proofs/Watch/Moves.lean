import QueryTypes.Proofs.Watch.Traces

/-!
# Moves of a run

`Moves` says what one signal can do to a run and which calls are made for it, and `moves_step` that
nothing else can happen. Whatever every move keeps holds at any time.
-/

namespace QueryTypes

namespace Watcher

variable {σ : Type} {s : Surroundings σ} {w : Watcher}

theorem calls_note (l : LogLine) : Calls (s.traced.note l) fun added _ => added = [] :=
  fun y => ⟨[], (List.append_nil y.2).symm, rfl⟩

theorem calls_say (text : String) : Calls (s.traced.say text) fun added _ => added = [] :=
  fun y => ⟨[], (List.append_nil y.2).symm, rfl⟩

theorem calls_rereadAll (paths : List String) :
    Calls (rereadAll s.traced paths) fun added _ => ∃ uris : List String, added = uris.map .told := by
  induction paths with
  | nil => exact .pure ⟨[], rfl⟩
  | cons p paths ih =>
    have hread : Calls (reread s.traced p) fun added _ =>
        ∃ uris : List String, added = uris.map .told := by
      have hresolve : Calls (s.traced.resolve p) fun added _ => added = [] :=
        fun y => ⟨[], (List.append_nil y.2).symm, rfl⟩
      refine .silent_bind hresolve fun place => ?_
      cases place with
      | error f => exact .pure ⟨[], rfl⟩
      | ok l => exact fun y => ⟨[.told _], rfl, [_], rfl⟩
    refine hread.bind ?_
    rintro _ outcome ⟨uris, rfl⟩
    cases outcome with
    | some f => exact .pure ⟨uris, List.append_nil _⟩
    | none =>
      refine ih.mono ?_
      rintro _ _ ⟨more, rfl⟩
      exact ⟨uris ++ more, List.map_append.symm⟩

/-- What the task can do at the head of its loop. -/
inductive Takes (w : Watcher) : List WatchCall → Watcher → Prop
  | done (h : w.closed = true ∨ w.pending = []) : Takes w [] { w with regeneration := .none }
  | failed (h : w.closed = false) (uris : List String) :
      Takes w (uris.map .told) { w with phase := .idle, pending := [], regeneration := .none }
  | began (h : w.closed = false) (uris : List String) :
      Takes w (uris.map .told ++ [.began])
        { w with phase := .generating, pending := [], regeneration := .busy }

theorem calls_takeBatch (w : Watcher) : Calls (w.takeBatch s.traced) w.Takes := by
  unfold takeBatch
  split
  · rename_i hdone
    exact .pure (.done (by simpa using hdone))
  · rename_i hdone
    have hopen : w.closed = false := by
      simp only [Bool.or_eq_true, not_or] at hdone
      simpa using hdone.1
    refine .silent_bind (calls_note _) fun _ => (calls_rereadAll w.pending).bind ?_
    rintro _ outcome ⟨uris, rfl⟩
    cases outcome with
    | some f =>
      refine .silent_bind (silent_report calls_note f) fun _ => .pure ?_
      rw [List.append_nil]
      exact .failed hopen uris
    | none =>
      refine .bind (P := fun added _ => added = [.began]) (fun y => ⟨_, rfl, rfl⟩) ?_
      rintro _ _ rfl
      exact .pure (.began hopen uris)

/-- A watcher whose shutdown has begun, at the latest now, with what closing its subscription failed
with. -/
def shut (w : Watcher) (failure : Option Failure) : Watcher :=
  if w.closed then w
  else { w with pending := [], shutdown := if failure.isNone then .begun else .broken }

def lastCalls (w : Watcher) (failure : Option Failure) : List WatchCall :=
  if w.closed = false ∧ w.subscribed = true then [.unsubscribed failure] else []

theorem calls_beginShutdown (w : Watcher) :
    Calls (w.beginShutdown s.traced) fun added z => added = w.lastCalls z.1 ∧ z.2 = w.shut z.1 ∧
      (w.subscribed = false → z.1 = none) := by
  have hunsubscribe : Calls (w.unsubscribe s.traced) fun added failure =>
      added = (if w.subscribed = true then [.unsubscribed failure] else []) ∧
        (w.subscribed = false → failure = none) := by
    unfold unsubscribe
    split
    · rename_i hs
      exact fun y => ⟨_, rfl, rfl, by simp [hs]⟩
    · exact .pure ⟨rfl, fun _ => rfl⟩
  unfold beginShutdown shut lastCalls
  split
  · rename_i hclosed
    exact .pure ⟨by simp [hclosed], rfl, fun _ => rfl⟩
  · rename_i hclosed
    refine hunsubscribe.bind ?_
    rintro _ failure ⟨rfl, hnone⟩
    exact .pure ⟨by simp [hclosed], rfl, hnone⟩

theorem calls_finishShutdown (w : Watcher) :
    Calls (w.finishShutdown s.traced) fun added w' => added = [] ∧
      w' = if w.shutdown = .begun then { w with phase := .closed, shutdown := .finished } else w := by
  unfold finishShutdown
  split
  · rename_i h
    exact .silent_bind (calls_note _) fun _ => .pure ⟨rfl, by rw [if_pos h]⟩
  · rename_i h
    exact .pure ⟨rfl, by rw [if_neg h]⟩

theorem calls_turn (w : Watcher) :
    Calls (w.turn s.traced) fun added w' =>
      (added = [] ∧ w' = w) ∨ w.regeneration = .due ∧ w.Takes added w' := by
  unfold turn
  split
  · rename_i hr
    exact (calls_takeBatch w).mono fun _ _ h => .inr ⟨hr, h⟩
  · exact .pure (.inl ⟨rfl, rfl⟩)

theorem calls_generated (hr : w.regeneration = .busy) (outcome : Option Failure) :
    Calls (w.generated s.traced outcome)
      (Takes { w with phase := if w.closed then w.phase else .idle }) := by
  unfold generated
  rw [hr]
  cases outcome with
  | none => exact calls_takeBatch _
  | some f => exact .silent_bind (silent_report calls_note f) fun _ => calls_takeBatch _

theorem calls_generated_of_not_busy (hr : w.regeneration ≠ .busy) (outcome : Option Failure) :
    Calls (w.generated s.traced outcome) fun added w' => added = [] ∧ w' = w := by
  unfold generated
  cases h : w.regeneration with
  | none => exact .pure ⟨rfl, rfl⟩
  | due => exact .pure ⟨rfl, rfl⟩
  | busy => exact absurd h hr

/-- The first generation is over: watching begins unless its failure, or that of subscribing, stands
against it. -/
theorem calls_started (w : Watcher) (outcome : Option Failure) :
    Calls (w.started s.traced outcome) fun added z =>
      (added = [] ∧ ∃ f phase, (phase = w.phase ∨ phase = .idle) ∧
        z = (some f, { w with phase := phase })) ∨
      fatal? outcome = none ∧ added = [.subscribed] ∧
        z = (none, { w with phase := .idle, subscribed := true }) := by
  unfold started
  split
  · rename_i f _
    exact .pure (.inl ⟨rfl, f, w.phase, .inl rfl, rfl⟩)
  · rename_i hfatal
    have hsubscribe : Calls (s.traced.subscribe w.state) fun added failure =>
        added = WatchCall.ofSubscription failure := fun y => ⟨_, rfl, rfl⟩
    refine .silent_bind ?_ fun _ => hsubscribe.bind ?_
    · cases outcome with
      | none => exact .pure rfl
      | some f => exact calls_note _
    · rintro _ failure rfl
      cases failure with
      | some f => exact .pure (.inl ⟨rfl, f, .idle, .inr rfl, rfl⟩)
      | none => exact .silent_bind (calls_note _) fun _ => .pure (.inr ⟨hfatal, rfl, rfl⟩)

end Watcher

/-- How far the shutdown is at a stage of a run. -/
def Stage.shutdown : Stage → Shutdown
  | first | watching | drained _ => .none
  | leaving _ => .begun
  | ended _ => .finished
  | broken _ => .broken

/-- What closing the subscription failed with. -/
def Stage.broken? : Stage → Option Failure
  | broken f => some f
  | _ => none

namespace WatchRun

variable {σ : Type} {s : Surroundings σ} {r : WatchRun}

/-- What a signal can do to a run, with the calls that are made for it. -/
inductive Moves (r : WatchRun) : List WatchCall → WatchRun → Prop
  | rests : Moves r [] r
  | opens (hs : r.stage = .first) :
      Moves r [.ended, .subscribed]
        ⟨{ r.watcher with phase := .idle, subscribed := true }, .watching⟩
  | fails (hs : r.stage = .first) {phase : WatchPhase}
      (hphase : phase = r.watcher.phase ∨ phase = .idle) (e : Ending) {failure : Option Failure}
      (hf : r.watcher.subscribed = false → failure = none) :
      Moves r (.ended :: r.watcher.lastCalls failure)
        ⟨Watcher.shut { r.watcher with phase := phase } failure, .left e failure⟩
  | queues (hs : r.stage = .watching) (hopen : r.watcher.closed = false) (pending : List String) :
      Moves r [] { r with watcher := { r.watcher with
        pending := pending
        regeneration := if r.watcher.regeneration = .none then .due else r.watcher.regeneration } }
  | drains (hs : r.stage = .watching) (e : Ending) : Moves r [] (r.drain e)
  | takes (hr : r.watcher.regeneration = .due) {added : List WatchCall} {w : Watcher}
      (h : r.watcher.Takes added w) : Moves r added { r with watcher := w }
  | goesOn (hs : r.stage ≠ .first) (hr : r.watcher.regeneration = .busy) {added : List WatchCall}
      {w : Watcher} (h : Watcher.Takes { r.watcher with
        phase := if r.watcher.closed then r.watcher.phase else .idle } added w) :
      Moves r (.ended :: added) { r with watcher := w }
  | leaves (hs : r.stage ≠ .first) (hopen : r.stage.shutdown = .none) {phase : WatchPhase}
      (hphase : phase = r.watcher.phase ∨ phase = .awaitingExit) (e : Ending)
      {failure : Option Failure}
      (hf : r.watcher.subscribed = false → failure = none) :
      Moves r (r.watcher.lastCalls failure)
        ⟨Watcher.shut { r.watcher with phase := phase } failure, .left e failure⟩
  | finishes {e : Ending} (hs : r.stage = .leaving e) :
      Moves r [] ⟨if r.watcher.shutdown = .begun
        then { r.watcher with phase := .closed, shutdown := .finished } else r.watcher, .ended e⟩

theorem calls_leave (e : Ending) : Calls (r.leave s.traced e) fun added r' =>
    ∃ failure, (r.watcher.subscribed = false → failure = none) ∧
      added = r.watcher.lastCalls failure ∧ r' = ⟨r.watcher.shut failure, .left e failure⟩ := by
  refine (Watcher.calls_beginShutdown r.watcher).bind ?_
  rintro _ ⟨failure, w⟩ ⟨rfl, hw, hf⟩
  dsimp only at hw hf ⊢
  rw [hw]
  exact .pure ⟨failure, hf, List.append_nil _, rfl⟩

theorem calls_started (hs : r.stage = .first) (outcome : Option Failure) :
    Calls (r.started s.traced outcome) fun added r' => r.Moves (.ended :: added) r' := by
  refine (Watcher.calls_started r.watcher outcome).bind ?_
  rintro _ _ (⟨rfl, f, phase, hphase, rfl⟩ | ⟨-, rfl, rfl⟩)
  · refine (calls_leave (.failed f)).mono ?_
    rintro _ _ ⟨failure, hf, rfl, rfl⟩
    exact .fails hs hphase _ hf
  · dsimp only
    split
    · exact .silent_bind (Watcher.calls_say _) fun _ => .pure (.opens hs)
    · exact .pure (.opens hs)

theorem calls_key (hs : r.stage ≠ .first) (hopen : r.stage.shutdown = .none)
    (outcome : Option Failure) : Calls (r.key s.traced outcome) r.Moves := by
  cases outcome with
  | some f =>
    refine (calls_leave (.failed f)).mono ?_
    rintro _ _ ⟨failure, hf, rfl, rfl⟩
    exact .leaves hs hopen (.inl rfl) _ hf
  | none =>
    refine (calls_leave .leave).mono ?_
    rintro _ _ ⟨failure, hf, rfl, rfl⟩
    exact .leaves hs hopen (.inr rfl) _ hf

theorem calls_proceed : Calls (r.proceed s.traced) r.Moves := by
  unfold proceed
  split
  · rename_i e hs _
    refine (calls_leave e).mono ?_
    rintro _ _ ⟨failure, hf, rfl, rfl⟩
    exact .leaves (by simp [hs]) (by simp [hs, Stage.shutdown]) (.inl rfl) _ hf
  · rename_i e _ hs
    refine (Watcher.calls_finishShutdown r.watcher).bind ?_
    rintro _ _ ⟨rfl, rfl⟩
    exact .pure (.finishes hs)
  · exact .pure .rests

theorem shutdown_of_isAwaitingKey (h : r.isAwaitingKey = true) :
    r.stage ≠ .first ∧ r.stage.shutdown = .none := by
  unfold isAwaitingKey at h
  split at h <;> simp_all [Stage.shutdown]

theorem calls_generated (outcome : Option Failure) :
    Calls (r.tracedStep s (.generated outcome)) r.Moves := by
  have hmark : Calls (r.markEnd (.generated outcome) : StateM (σ × List WatchCall) Unit)
      fun added _ => added = if r.InFlight then [.ended] else [] := by
    intro y
    refine ⟨_, ?_, rfl⟩
    change (if r.InFlight then y.2 ++ [.ended] else y.2) = _
    split
    · rfl
    · exact (List.append_nil _).symm
  refine hmark.bind ?_
  rintro _ _ rfl
  unfold step
  dsimp only
  split
  · rename_i hs
    rw [if_pos (.inl hs)]
    exact calls_started hs outcome
  · rename_i hs
    by_cases hr : r.watcher.regeneration = .busy
    · rw [if_pos (.inr hr)]
      refine (Watcher.calls_generated hr outcome).bind ?_
      intro added w h
      refine .pure ?_
      rw [List.append_nil]
      exact .goesOn hs hr h
    · have hrest : ¬ r.InFlight := not_or_intro hs hr
      rw [if_neg hrest]
      refine (Watcher.calls_generated_of_not_busy hr outcome).bind ?_
      rintro _ _ ⟨rfl, rfl⟩
      exact .pure .rests

theorem moves_step (signal : Signal) : Calls (r.tracedStep s signal) r.Moves := by
  cases signal with
  | generated outcome => exact calls_generated outcome
  | turn =>
    refine .silent_bind (.pure rfl) fun _ => (Watcher.calls_turn r.watcher).bind ?_
    rintro added w (⟨rfl, rfl⟩ | ⟨hr, h⟩)
    · exact .pure .rests
    · refine .pure ?_
      rw [List.append_nil]
      exact .takes hr h
  | change c =>
    refine .silent_bind (.pure rfl) fun _ => ?_
    unfold step
    dsimp only
    split
    · rename_i hs
      refine (Watcher.silent_change Watcher.calls_note r.watcher c).bind ?_
      rintro _ _ ⟨rfl, rfl | ⟨hopen, rfl⟩⟩
      · exact .pure .rests
      · exact .pure (.queues hs hopen _)
    · exact .pure .rests
  | sourceEnded =>
    refine .silent_bind (.pure rfl) fun _ => ?_
    unfold step
    dsimp only
    split
    · rename_i hs
      exact .pure (.drains hs _)
    · exact .pure .rests
  | sourceFailed f =>
    refine .silent_bind (.pure rfl) fun _ => ?_
    unfold step
    dsimp only
    split
    · rename_i hs
      exact .silent_bind (Watcher.calls_note _) fun _ => .pure (.drains hs _)
    · exact .pure .rests
  | key outcome =>
    refine .silent_bind (.pure rfl) fun _ => ?_
    unfold step
    dsimp only
    split
    · rename_i hkey
      obtain ⟨hs, hopen⟩ := shutdown_of_isAwaitingKey hkey
      exact calls_key hs hopen outcome
    · exact .pure .rests
  | proceed => exact .silent_bind (.pure rfl) fun _ => calls_proceed

end WatchRun

/-- Whether a generation is in flight after a call, from whether one was before it. Paths are told
of, and generations begin, while none is in flight. -/
def WatchCall.flight : Bool → WatchCall → Option Bool
  | false, .told _ => some false
  | false, .began => some true
  | true, .ended => some false
  | b, .subscribed | b, .unsubscribed _ => some b
  | _, _ => none

theorem WatchCall.closings_append (calls more : List WatchCall) :
    closings (calls ++ more) = closings calls ++ closings more := List.filterMap_append

namespace Watcher.Takes

variable {w w' : Watcher} {added : List WatchCall}

theorem frame (h : w.Takes added w') : w'.shutdown = w.shutdown ∧ w'.subscribed = w.subscribed := by
  cases h <;> exact ⟨rfl, rfl⟩

theorem silent_of_closed (h : w.Takes added w') (hc : w.closed = true) :
    added = [] ∧ w' = { w with regeneration := .none } := by
  cases h with
  | done => exact ⟨rfl, rfl⟩
  | failed hopen => simp [hc] at hopen
  | began hopen => simp [hc] at hopen

theorem phase_eq (h : w.Takes added w') (hp : w.phase = .idle) :
    w'.phase = if w'.regeneration = .busy then .generating else .idle := by
  cases h with
  | done => exact hp
  | failed => rfl
  | began => rfl

theorem flight_told (uris : List String) :
    (uris.map WatchCall.told).foldlM WatchCall.flight false = some false := by
  induction uris with
  | nil => rfl
  | cons uri uris ih => exact ih

theorem flight_eq (h : w.Takes added w') :
    added.foldlM WatchCall.flight false = some (decide (w'.regeneration = .busy)) := by
  cases h with
  | done => rfl
  | failed _ uris => exact flight_told uris
  | began _ uris => simp [List.foldlM_append, flight_told uris, WatchCall.flight]

theorem subscriptions_eq (h : w.Takes added w') :
    added.count .subscribed = 0 ∧ WatchCall.closings added = [] := by
  have htold : ∀ uris : List String, WatchCall.closings (uris.map .told) = [] := by
    intro uris
    simp [WatchCall.closings, WatchCall.closing?]
  cases h with
  | done => exact ⟨rfl, rfl⟩
  | failed _ uris => exact ⟨by simp [List.count_eq_zero], htold uris⟩
  | began _ uris =>
    refine ⟨by simp [List.count_eq_zero], ?_⟩
    rw [WatchCall.closings_append, htold uris]
    rfl

end Watcher.Takes

namespace WatchRun

variable {σ : Type} {s : Surroundings σ} {r r' : WatchRun} {calls added : List WatchCall}

/-- What holds of a run at any time, with all calls that were made so far. -/
structure Kept (r : WatchRun) (calls : List WatchCall) : Prop where
  shutdown_eq : r.watcher.shutdown = r.stage.shutdown
  unstarted : r.stage = .first → r.watcher.regeneration = .none ∧ r.watcher.subscribed = false
  subscribed_of_open : r.stage ≠ .first → r.stage.shutdown = .none → r.watcher.subscribed = true
  subscribed_of_broken : r.watcher.subscribed = false → r.stage.broken? = none
  phase_of_open : r.watcher.closed = false →
    r.watcher.phase = if r.InFlight then .generating else .idle
  phase_eq : r.watcher.phase = .closed ↔ r.watcher.shutdown = .finished
  opened : calls.count .subscribed = r.watcher.subscribed.toNat
  closed : WatchCall.closings calls =
    if r.watcher.subscribed = true ∧ r.watcher.closed = true then [r.stage.broken?] else []
  flight : calls.foldlM WatchCall.flight false = some (decide r.InFlight)

theorem Kept.closed_eq (h : r.Kept calls) : r.watcher.closed = (r.stage.shutdown != .none) := by
  rw [Watcher.closed, h.shutdown_eq]

theorem shutdown_left (e : Ending) (failure : Option Failure) :
    (Stage.left e failure).shutdown = if failure.isNone then .begun else .broken := by
  cases failure <;> rfl

theorem broken?_left (e : Ending) (failure : Option Failure) :
    (Stage.left e failure).broken? = failure := by
  cases failure <;> rfl

/-- A run that begins to leave, from any stage at which it has not begun to. -/
theorem Kept.leaves (h : r.Kept calls) (hopen : r.stage.shutdown = .none) {failure : Option Failure}
    (hf : r.watcher.subscribed = false → failure = none)
    (hflight : (calls ++ added).foldlM WatchCall.flight false =
      some (decide (r.watcher.regeneration = .busy)))
    (hadded : added = r.watcher.lastCalls failure ∨ added = .ended :: r.watcher.lastCalls failure)
    {phase : WatchPhase} (hphase : phase ≠ .closed) (e : Ending) :
    Kept ⟨Watcher.shut { r.watcher with phase := phase } failure, .left e failure⟩
      (calls ++ added) := by
  have hclosed : r.watcher.closed = false := by rw [h.closed_eq, hopen]; rfl
  have hshut : Watcher.shut { r.watcher with phase := phase } failure =
      { r.watcher with
        phase := phase, pending := [], shutdown := (Stage.left e failure).shutdown } := by
    rw [shutdown_left]
    exact if_neg (by simpa [Watcher.closed] using hclosed)
  have hlast : r.watcher.lastCalls failure =
      if r.watcher.subscribed = true then [.unsubscribed failure] else [] := by
    simp [Watcher.lastCalls, hclosed]
  have hcalls : added.count .subscribed = 0 ∧ WatchCall.closings added =
      if r.watcher.subscribed = true then [failure] else [] := by
    rw [hlast] at hadded
    rcases hadded with rfl | rfl <;> cases r.watcher.subscribed <;> exact ⟨rfl, rfl⟩
  have hbegun : (Stage.left e failure).shutdown ≠ .none ∧
      (Stage.left e failure).shutdown ≠ .finished := by
    cases failure <;> exact ⟨by simp [Stage.left, Stage.shutdown], by simp [Stage.left, Stage.shutdown]⟩
  have hfirst : Stage.left e failure ≠ .first := by
    cases failure <;> simp [Stage.left]
  have hnow : Watcher.closed { r.watcher with
      phase := phase, pending := [], shutdown := (Stage.left e failure).shutdown } = true := by
    simpa [Watcher.closed] using hbegun.1
  rw [hshut]
  refine ⟨rfl, fun hs => absurd hs hfirst, fun _ hs => absurd hs hbegun.1, ?_, ?_, ?_, ?_, ?_, ?_⟩
  · rw [broken?_left]
    exact hf
  · intro hopen
    rw [hnow] at hopen
    cases hopen
  · exact iff_of_false hphase hbegun.2
  · rw [List.count_append, hcalls.1, h.opened]
    rfl
  · rw [WatchCall.closings_append, h.closed, hcalls.2, broken?_left, hclosed, hnow]
    simp
  · simpa [InFlight, hfirst] using hflight

/-- A run whose task gets to the head of its loop. -/
theorem Kept.takes (h : r.Kept calls) (lead : List WatchCall) (hs : r.stage ≠ .first)
    {phase : WatchPhase} {w : Watcher}
    (hphase : phase = if r.watcher.closed then r.watcher.phase else .idle)
    (hlead : lead = if r.watcher.regeneration = .busy then [.ended] else [])
    (ht : Watcher.Takes { r.watcher with phase := phase } added w) :
    Kept { r with watcher := w } (calls ++ (lead ++ added)) := by
  obtain ⟨hw, hsub⟩ := ht.frame
  have hclosed : w.closed = r.watcher.closed := by
    rw [Watcher.closed, hw]
    rfl
  have hcalls : (lead ++ added).count .subscribed = 0 ∧ WatchCall.closings (lead ++ added) = [] := by
    rw [hlead, List.count_append, WatchCall.closings_append, ht.subscriptions_eq.1,
      ht.subscriptions_eq.2]
    split <;> exact ⟨rfl, rfl⟩
  have hflight : (calls ++ (lead ++ added)).foldlM WatchCall.flight false =
      some (decide (w.regeneration = .busy)) := by
    -- what was in flight has ended before the task gets there
    have hidle : lead.foldlM WatchCall.flight (decide r.InFlight) = some false := by
      rw [hlead]
      by_cases hr : r.watcher.regeneration = .busy
      · simp [hr, InFlight, WatchCall.flight]
      · simp [hr, InFlight, hs]
    simp [List.foldlM_append, h.flight, hidle, ht.flight_eq]
  have hopenPhase : w.closed = false →
      w.phase = if w.regeneration = .busy then .generating else .idle := by
    intro hopen
    apply ht.phase_eq
    rw [hphase, ← hclosed, hopen]
    rfl
  refine ⟨hw.trans h.shutdown_eq, fun hf => absurd hf hs,
    fun hf hn => hsub.trans (h.subscribed_of_open hf hn),
    fun hn => h.subscribed_of_broken (hsub.symm.trans hn), ?_, ?_, ?_, ?_, ?_⟩
  · intro hopen
    rw [hopenPhase hopen]
    simp [InFlight, hs]
  · by_cases hc : w.closed = true
    · obtain ⟨-, rfl⟩ := ht.silent_of_closed (hclosed.symm.trans hc)
      rw [hphase, if_pos (hclosed.symm.trans hc)]
      exact h.phase_eq
    · have hopen : w.closed = false := by simpa using hc
      refine iff_of_false ?_ ?_
      · rw [hopenPhase hopen]
        split <;> simp
      · intro hf
        rw [Watcher.closed, hf] at hopen
        cases hopen
  · rw [List.count_append, hcalls.1, h.opened, hsub]
    rfl
  · rw [WatchCall.closings_append, hcalls.2, h.closed, hsub, hclosed, List.append_nil]
  · simpa [InFlight, hs] using hflight

/-- Until a shutdown begins, the phase does not say that one is over. -/
theorem Kept.phase_ne_of_eq (h : r.Kept calls) (hopen : r.stage.shutdown = .none)
    {phase other : WatchPhase} (hother : other ≠ .closed)
    (hphase : phase = r.watcher.phase ∨ phase = other) : phase ≠ .closed := by
  rcases hphase with rfl | rfl
  · intro hp
    have hf := h.phase_eq.1 hp
    rw [h.shutdown_eq, hopen] at hf
    cases hf
  · exact hother

theorem Kept.opens (h : r.Kept calls) (hs : r.stage = .first) :
    Kept ⟨{ r.watcher with phase := .idle, subscribed := true }, .watching⟩
      (calls ++ [.ended, .subscribed]) := by
  obtain ⟨hr, hsub⟩ := h.unstarted hs
  have hshut : r.watcher.shutdown = .none := by rw [h.shutdown_eq, hs]; rfl
  refine ⟨hshut, by simp, fun _ _ => rfl, by simp, ?_, ?_, ?_, ?_, ?_⟩
  · simp [InFlight, hr]
  · simp [hshut]
  · simp [h.opened, hsub]
  · rw [WatchCall.closings_append, h.closed]
    simp [hsub, Watcher.closed, hshut, WatchCall.closings, WatchCall.closing?]
  · simp [List.foldlM_append, h.flight, InFlight, hs, hr, WatchCall.flight]

/-- A task that becomes due has begun nothing yet. -/
theorem Kept.queues (h : r.Kept calls) (hs : r.stage = .watching) (pending : List String) :
    Kept { r with watcher := { r.watcher with
      pending := pending
      regeneration := if r.watcher.regeneration = .none then .due else r.watcher.regeneration } }
      calls := by
  have hflight : InFlight { r with watcher := { r.watcher with
      pending := pending
      regeneration := if r.watcher.regeneration = .none then .due else r.watcher.regeneration } } ↔
      r.InFlight := by
    apply or_congr_right
    change (if r.watcher.regeneration = .none then Regeneration.due else r.watcher.regeneration) =
      .busy ↔ _
    cases r.watcher.regeneration <;> decide
  exact ⟨h.shutdown_eq, by simp [hs], h.subscribed_of_open, h.subscribed_of_broken,
    fun hopen => (h.phase_of_open hopen).trans (by simp only [hflight]),
    h.phase_eq, h.opened, h.closed,
    h.flight.trans (congrArg some (decide_eq_decide.2 hflight.symm))⟩

theorem Kept.drains (h : r.Kept calls) (hs : r.stage = .watching) (e : Ending) :
    (r.drain e).Kept calls := by
  have hflight : (r.drain e).InFlight ↔ r.InFlight := by simp [InFlight, drain, hs]
  have hclosed := h.closed
  rw [hs] at hclosed
  refine ⟨?_, by simp [drain], fun _ _ => h.subscribed_of_open (by simp [hs])
    (by simp [hs, Stage.shutdown]), fun _ => rfl,
    fun hopen => (h.phase_of_open hopen).trans (by simp only [hflight]),
    h.phase_eq, h.opened, hclosed,
    h.flight.trans (congrArg some (decide_eq_decide.2 hflight.symm))⟩
  rw [drain, h.shutdown_eq, hs]
  rfl

theorem Kept.finishes (h : r.Kept calls) {e : Ending} (hs : r.stage = .leaving e) :
    Kept ⟨if r.watcher.shutdown = .begun
      then { r.watcher with phase := .closed, shutdown := .finished } else r.watcher, .ended e⟩
      calls := by
  have hbegun : r.watcher.shutdown = .begun := by rw [h.shutdown_eq, hs]; rfl
  have hclosed := h.closed
  rw [hs, Watcher.closed, hbegun] at hclosed
  rw [if_pos hbegun]
  refine ⟨rfl, by simp, by simp [Stage.shutdown], fun _ => rfl, by simp [Watcher.closed],
    iff_of_true rfl rfl, h.opened, hclosed, ?_⟩
  simpa [InFlight, hs] using h.flight

theorem Kept.moves (h : r.Kept calls) (hm : r.Moves added r') : r'.Kept (calls ++ added) := by
  cases hm with
  | rests => rwa [List.append_nil]
  | opens hs => exact h.opens hs
  | fails hs hphase e hf =>
    obtain ⟨hr, hsub⟩ := h.unstarted hs
    have hopen : r.stage.shutdown = .none := by rw [hs]; rfl
    refine h.leaves hopen hf ?_ (.inr rfl) (h.phase_ne_of_eq hopen (by simp) hphase) e
    simp [List.foldlM_append, h.flight, InFlight, hs, hr, hsub, Watcher.lastCalls,
      WatchCall.flight]
  | queues hs _ pending =>
    rw [List.append_nil]
    exact h.queues hs pending
  | drains hs e =>
    rw [List.append_nil]
    exact h.drains hs e
  | takes hr ht =>
    -- there is no task before the first generation is over
    have hs : r.stage ≠ .first := by
      intro hs
      have := (h.unstarted hs).1
      simp [hr] at this
    refine h.takes [] hs ?_ (by simp [hr]) ht
    split
    · rfl
    · rw [h.phase_of_open (by simp_all), if_neg (by simp [InFlight, hs, hr])]
  | goesOn hs hr ht => exact h.takes [.ended] hs rfl (by simp [hr]) ht
  | leaves hs hopen hphase e hf =>
    refine h.leaves hopen hf ?_ (.inl rfl) (h.phase_ne_of_eq hopen (by simp) hphase) e
    have hlast : ∀ failure b,
        (r.watcher.lastCalls failure).foldlM WatchCall.flight b = some b := by
      intro failure b
      unfold Watcher.lastCalls
      split
      · cases b <;> rfl
      · rfl
    simp [List.foldlM_append, h.flight, InFlight, hs, hlast]
  | finishes hs =>
    rw [List.append_nil]
    exact h.finishes hs

theorem kept_start (state : WatchState) :
    Calls (start s.traced (.ofState state)) fun added r => r.Kept added := by
  refine .bind (P := fun added w => added = [.began] ∧
    w = { Watcher.ofState state with phase := .generating }) (fun y => ⟨_, rfl, rfl, rfl⟩) ?_
  rintro _ _ ⟨rfl, rfl⟩
  exact .pure ⟨rfl, fun _ => ⟨rfl, rfl⟩, by simp, fun _ => rfl, fun _ => rfl,
    by simp [Watcher.ofState], rfl, rfl, rfl⟩

theorem kept_steps (h : r.Kept calls) (signals : List Signal) :
    Calls (r.tracedSteps s signals) fun added r' => r'.Kept (calls ++ added) := by
  induction signals generalizing r calls with
  | nil => exact .pure (by rwa [List.append_nil])
  | cons signal signals ih =>
    refine (moves_step signal).bind ?_
    intro added r' hm
    refine (ih (h.moves hm)).mono ?_
    intro more r'' h''
    rwa [← List.append_assoc]

theorem kept_traced (state : WatchState) (signals : List Signal) :
    Calls (traced s state signals) fun calls r => r.Kept calls := by
  refine (kept_start state).bind ?_
  intro added r h
  exact kept_steps h signals

end WatchRun
end QueryTypes
