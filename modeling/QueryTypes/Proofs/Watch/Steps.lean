import Mathlib.Data.List.Forall2
import QueryTypes.Watch.Watcher

/-!
# Steps of a watcher

Events, turns of the task, ends of generations and shutdowns come in any order. What project and
generation are asked for is noted down beside them. `Acts` says what one step can do and what is
noted of it, and `acts_step` that nothing else can happen.
-/

namespace QueryTypes

/-- What can be seen of a watcher at work. -/
inductive WatchNote
  | accepted (path : String)
  | taken (paths : List String)
  | unresolved (path : String) (f : Fault)
  | told (uri : String) (outcome : Option Failure)
  | began
  | ended
deriving DecidableEq

namespace WatchNote

def isFailure : WatchNote → Bool
  | .told _ (some _) => true
  | _ => false

def isUnresolved : WatchNote → Bool
  | .unresolved _ _ => true
  | _ => false

def isTaken : WatchNote → Bool
  | .taken _ => true
  | _ => false

/-- What is noted of where a path leads. -/
def ofPlace (path : String) : Except Fault Location → List WatchNote
  | .ok _ => []
  | .error f => [.unresolved path f]

/-- The note that the project was told of a place, which it read. -/
def fine (uri : String) : WatchNote := .told uri none

end WatchNote

namespace Surroundings

variable {σ : Type} (s : Surroundings σ)

/-- The same surroundings, which note down what project and generation are asked for. -/
def recorded : Surroundings (σ × List WatchNote) where
  resolve path := fun (x, notes) =>
    let (place, x) := (s.resolve path).run x
    (place, x, notes ++ WatchNote.ofPlace path place)
  reread uri := fun (x, notes) =>
    let (outcome, x) := (s.reread uri).run x
    (outcome, x, notes ++ [.told uri outcome])
  generate := fun (x, notes) => ((), (s.generate.run x).2, notes ++ [.began])
  subscribe state := fun (x, notes) =>
    (((s.subscribe state).run x).1, ((s.subscribe state).run x).2, notes)
  unsubscribe := fun (x, notes) => ((s.unsubscribe.run x).1, (s.unsubscribe.run x).2, notes)
  note line := fun (x, notes) => ((), ((s.note line).run x).2, notes)
  say text := fun (x, notes) => ((), ((s.say text).run x).2, notes)

/-- A path leads to the place with this URI, at some time. -/
def Leads (path uri : String) : Prop :=
  ∃ x l, ((s.resolve path).run x).1 = .ok l ∧ uri = Uri.ofLocation l

end Surroundings

/-- What can happen to a watcher that was started. -/
inductive WatchStep
  | event (c : Change)
  | turn
  | ended (outcome : Option Failure)
  | beginShutdown
  | finishShutdown

namespace Watcher

variable {σ : Type} (s : Surroundings σ)

def mark (n : WatchNote) : StateM (σ × List WatchNote) Unit :=
  modify fun (x, notes) => (x, notes ++ [n])

/-- What is noted of the batch that the task takes at the head of its loop. -/
def batch (w : Watcher) : List WatchNote :=
  if w.closed || w.pending.isEmpty then [] else [.taken w.pending]

/-- The first generation, up to the watcher that takes steps. -/
def opening (state : WatchState) (outcome : Option Failure) :
    StateM (σ × List WatchNote) (Option Failure × Watcher) := do
  let w ← (ofState state).start s.recorded
  mark .ended
  w.started s.recorded outcome

def step (w : Watcher) : WatchStep → StateM (σ × List WatchNote) Watcher
  | .event c => do
    let (accepted, w) ← w.change s.recorded c
    if accepted then mark (.accepted c.path)
    return w
  | .turn => do
    if w.regeneration = .due then w.batch.forM mark
    w.turn s.recorded
  | .ended outcome => do
    if w.regeneration = .busy then (.ended :: w.batch).forM mark
    w.generated s.recorded outcome
  | .beginShutdown => Prod.snd <$> w.beginShutdown s.recorded
  | .finishShutdown => w.finishShutdown s.recorded

def steps (w : Watcher) (ts : List WatchStep) : StateM (σ × List WatchNote) Watcher :=
  ts.foldlM (step s) w

end Watcher

/-! ### Computations that keep a record -/

/-- Whatever it is run on, what a computation adds to the record and what it gives are related. -/
def Calls {σ τ α : Type} (m : StateM (σ × List τ) α) (P : List τ → α → Prop) : Prop :=
  ∀ y, ∃ added, (m.run y).2.2 = y.2 ++ added ∧ P added (m.run y).1

namespace Calls

variable {σ τ α β : Type} {m : StateM (σ × List τ) α} {P P' : List τ → α → Prop}

theorem run_bind {τ α β : Type} (m : StateM τ α) (f : α → StateM τ β) (t : τ) :
    (m >>= f).run t = (f (m.run t).1).run (m.run t).2 := rfl

theorem pure {a : α} (h : P [] a) : Calls (pure a : StateM (σ × List τ) α) P :=
  fun y => ⟨[], (List.append_nil y.2).symm, h⟩

theorem mono (hm : Calls m P) (h : ∀ added a, P added a → P' added a) : Calls m P' := by
  intro y
  obtain ⟨added, hrun, hP⟩ := hm y
  exact ⟨added, hrun, h _ _ hP⟩

theorem bind {f : α → StateM (σ × List τ) β} {Q : List τ → β → Prop}
    (hm : Calls m P) (hf : ∀ added a, P added a → Calls (f a) fun more => Q (added ++ more)) :
    Calls (m >>= f) Q := by
  intro y
  obtain ⟨added, hrun, hP⟩ := hm y
  obtain ⟨more, hrest, hQ⟩ := hf added _ hP (m.run y).2
  refine ⟨added ++ more, ?_, hQ⟩
  rw [run_bind, hrest, hrun, List.append_assoc]

/-- What adds nothing may stand in front of anything. -/
theorem silent_bind {f : α → StateM (σ × List τ) β} {Q : List τ → β → Prop}
    (hm : Calls m fun added _ => added = []) (hf : ∀ a, Calls (f a) Q) : Calls (m >>= f) Q :=
  hm.bind fun _ a h => h ▸ hf a

theorem map {f : α → β} {Q : List τ → β → Prop}
    (hm : Calls m fun added a => Q added (f a)) : Calls (f <$> m) Q := hm

end Calls

/-! ### One step -/

namespace Surroundings

variable {σ : Type} (s : Surroundings σ)

/-- What is noted of a path that fails. One that leads nowhere is not told of. -/
inductive Fails (path : String) : List WatchNote → Prop
  | told {x x' : σ} {l : Location} {f : Failure} (hl : ((s.resolve path).run x).1 = .ok l)
      (hf : ((s.reread (Uri.ofLocation l)).run x').1 = some f) :
      Fails path [.told (Uri.ofLocation l) (some f)]
  | unresolved {x : σ} {f : Fault} (hf : ((s.resolve path).run x).1 = .error f) :
      Fails path [.unresolved path f]

end Surroundings

namespace Watcher

variable {σ : Type} {s : Surroundings σ} {w : Watcher}

/-- No path was told of in vain. -/
def NoneFailed (notes : List WatchNote) : Prop := ∀ n ∈ notes, n.isFailure = false

instance (notes : List WatchNote) : Decidable (NoneFailed notes) :=
  inferInstanceAs (Decidable (∀ n ∈ notes, n.isFailure = false))

section

variable {τ : Type} {s : Surroundings (σ × List τ)}

theorem silent_report (hnote : ∀ l, Calls (s.note l) fun added _ => added = []) (f : Failure) :
    Calls (report s f) fun added _ => added = [] := by
  unfold report
  split
  · exact hnote _
  · exact hnote _

/-- A change is turned down, or it is pending and has a task. -/
theorem silent_change (hnote : ∀ l, Calls (s.note l) fun added _ => added = []) (w : Watcher)
    (c : Change) : Calls (w.change s c) fun added z => added = [] ∧
      (z = (false, w) ∨ w.closed = false ∧ z = (true, { w with
        pending := (w.enqueue c.path).pending
        regeneration := if w.regeneration = .none then .due else w.regeneration })) := by
  have henqueue : w.enqueue c.path = { w with pending := (w.enqueue c.path).pending } := by
    unfold enqueue
    split <;> rfl
  unfold change
  split
  · exact .pure ⟨rfl, .inl rfl⟩
  · rename_i hclosed
    have hopen : w.closed = false := by simpa using hclosed
    split
    · exact .silent_bind (hnote _) fun _ => .pure ⟨rfl, .inl rfl⟩
    · rw [henqueue]
      cases hr : w.regeneration with
      | none => exact .pure ⟨rfl, .inr ⟨hopen, rfl⟩⟩
      | due => exact .silent_bind (hnote _) fun _ => .pure ⟨rfl, .inr ⟨hopen, rfl⟩⟩
      | busy => exact .silent_bind (hnote _) fun _ => .pure ⟨rfl, .inr ⟨hopen, rfl⟩⟩

end

theorem tells_marks (notes : List WatchNote) :
    Calls (notes.forM mark : StateM (σ × List WatchNote) Unit) fun added _ => added = notes := by
  induction notes with
  | nil => exact .pure rfl
  | cons n notes ih =>
    refine .bind (P := fun added _ => added = [n]) (fun y => ⟨[n], rfl, rfl⟩) ?_
    rintro _ _ rfl
    exact ih.mono fun added _ h => by rw [h]; rfl

theorem tells_reread (path : String) : Calls (reread s.recorded path) fun notes outcome =>
    outcome = none ∧ (∃ uri, s.Leads path uri ∧ notes = [.fine uri]) ∨
      outcome ≠ none ∧ s.Fails path notes := by
  have hresolve : Calls (s.recorded.resolve path) fun notes place =>
      notes = WatchNote.ofPlace path place ∧ ∃ x, ((s.resolve path).run x).1 = place :=
    fun y => ⟨_, rfl, rfl, y.1, rfl⟩
  refine hresolve.bind ?_
  rintro _ place ⟨rfl, x, hx⟩
  cases place with
  | error f => exact .pure (.inr ⟨by simp, .unresolved hx⟩)
  | ok l =>
    have hread : Calls (s.recorded.reread (Uri.ofLocation l)) fun notes outcome =>
        notes = [.told (Uri.ofLocation l) outcome] ∧
          ∃ x', ((s.reread (Uri.ofLocation l)).run x').1 = outcome :=
      fun y => ⟨_, rfl, rfl, y.1, rfl⟩
    refine hread.mono ?_
    rintro _ outcome ⟨rfl, x', hx'⟩
    cases outcome with
    | none => exact .inl ⟨rfl, _, ⟨x, l, hx, rfl⟩, rfl⟩
    | some f => exact .inr ⟨by simp, .told hx hx'⟩

/-- All paths are told of, or those before the first one that fails. -/
theorem tells_rereadAll (paths : List String) : Calls (rereadAll s.recorded paths)
    fun notes outcome =>
      outcome = none ∧ (∃ uris, List.Forall₂ s.Leads paths uris ∧ notes = uris.map .fine) ∨
      outcome ≠ none ∧ ∃ front p rest uris last, paths = front ++ p :: rest ∧
        List.Forall₂ s.Leads front uris ∧ s.Fails p last ∧ notes = uris.map .fine ++ last := by
  induction paths with
  | nil => exact .pure (.inl ⟨rfl, [], .nil, rfl⟩)
  | cons p paths ih =>
    refine (tells_reread p).bind fun added outcome hread => ?_
    rcases hread with ⟨rfl, uri, huri, rfl⟩ | ⟨hsome, hfails⟩
    · refine ih.mono fun more outcome hrest => ?_
      rcases hrest with ⟨hnone, uris, huris, rfl⟩ | ⟨hsome, front, q, rest, uris, last, rfl, hrest⟩
      · exact .inl ⟨hnone, uri :: uris, .cons huri huris, rfl⟩
      · obtain ⟨huris, hfails, rfl⟩ := hrest
        exact .inr ⟨hsome, p :: front, q, rest, uri :: uris, last, rfl, .cons huri huris, hfails, rfl⟩
    · cases outcome with
      | none => exact absurd rfl hsome
      | some f => exact .pure (.inr ⟨hsome, [], p, paths, [], added, rfl, .nil, hfails, by simp⟩)

theorem tells_note (l : LogLine) : Calls (s.recorded.note l) fun added _ => added = [] :=
  fun y => ⟨[], (List.append_nil y.2).symm, rfl⟩

/-- What the task can do at the head of its loop. -/
inductive Passes (s : Surroundings σ) (w : Watcher) : List WatchNote → Watcher → Prop
  | done (h : w.closed = true ∨ w.pending = []) : Passes s w [] { w with regeneration := .none }
  | began (h : w.closed = false) (hp : w.pending ≠ []) {uris : List String}
      (hleads : List.Forall₂ s.Leads w.pending uris) :
      Passes s w (uris.map .fine ++ [.began])
        { w with phase := .generating, pending := [], regeneration := .busy }
  | failed (h : w.closed = false) {front rest uris : List String} {p : String}
      {last : List WatchNote} (hp : w.pending = front ++ p :: rest)
      (hleads : List.Forall₂ s.Leads front uris) (hfails : s.Fails p last) :
      Passes s w (uris.map .fine ++ last)
        { w with phase := .idle, pending := [], regeneration := .none }

theorem passes_takeBatch (w : Watcher) : Calls (w.takeBatch s.recorded) (w.Passes s) := by
  unfold takeBatch
  split
  · rename_i hdone
    exact .pure (.done (by simpa using hdone))
  · rename_i hdone
    obtain ⟨hopen, hpending⟩ : w.closed = false ∧ w.pending ≠ [] := by simpa using hdone
    refine .silent_bind (tells_note _) fun _ => (tells_rereadAll w.pending).bind ?_
    intro added outcome htells
    rcases htells with ⟨rfl, uris, hleads, rfl⟩ |
      ⟨hsome, front, p, rest, uris, last, hp, hleads, hfails, rfl⟩
    · have hgenerate : Calls s.recorded.generate fun added _ => added = [.began] :=
        fun y => ⟨_, rfl, rfl⟩
      refine hgenerate.bind fun added _ hadded => ?_
      rw [hadded]
      exact .pure (.began hopen hpending hleads)
    · cases outcome with
      | none => exact absurd rfl hsome
      | some f =>
        refine .silent_bind (silent_report tells_note f) fun _ => .pure ?_
        rw [List.append_nil]
        exact .failed hopen hp hleads hfails

/-- What one step can do to a watcher, with what is noted of it. -/
inductive Acts (s : Surroundings σ) (w : Watcher) : List WatchNote → Watcher → Prop
  | rests : Acts s w [] w
  | accepts (hopen : w.closed = false) (path : String) :
      Acts s w [.accepted path] { w with
        pending := (w.enqueue path).pending
        regeneration := if w.regeneration = .none then .due else w.regeneration }
  | takes (hr : w.regeneration = .due) {added : List WatchNote} {w' : Watcher}
      (h : w.Passes s added w') : Acts s w (w.batch ++ added) w'
  | goesOn (hr : w.regeneration = .busy) {phase : WatchPhase} {added : List WatchNote}
      {w' : Watcher} (h : Passes s { w with phase := phase } added w') :
      Acts s w (.ended :: w.batch ++ added) w'
  | closes {shutdown : Shutdown} (hs : shutdown ≠ .none) :
      Acts s w [] { w with pending := [], shutdown := shutdown }
  | finishes (hs : w.shutdown = .begun) :
      Acts s w [] { w with phase := .closed, shutdown := .finished }

theorem acts_event (c : Change) : Calls (w.step s (.event c)) (w.Acts s) := by
  refine (silent_change tells_note w c).bind ?_
  rintro _ _ ⟨rfl, rfl | ⟨hopen, rfl⟩⟩
  · exact .pure .rests
  · refine .bind (P := fun added _ => added = [.accepted c.path]) (fun y => ⟨_, rfl, rfl⟩) ?_
    rintro _ _ rfl
    exact .pure (.accepts hopen c.path)

theorem passes_turn (hr : w.regeneration = .due) : Calls (w.step s .turn) fun added w' =>
    ∃ told, added = w.batch ++ told ∧ w.Passes s told w' := by
  unfold step turn
  rw [hr]
  refine (tells_marks w.batch).bind ?_
  rintro _ _ rfl
  exact (passes_takeBatch w).mono fun told w' h => ⟨told, rfl, h⟩

theorem acts_turn : Calls (w.step s .turn) (w.Acts s) := by
  by_cases hr : w.regeneration = .due
  · refine (passes_turn hr).mono ?_
    rintro _ w' ⟨told, rfl, h⟩
    exact .takes hr h
  · unfold step turn
    cases h : w.regeneration with
    | due => exact absurd h hr
    | none => exact .pure .rests
    | busy => exact .pure .rests

theorem acts_ended (outcome : Option Failure) : Calls (w.step s (.ended outcome)) (w.Acts s) := by
  unfold step generated
  cases hr : w.regeneration with
  | busy =>
    refine (tells_marks (.ended :: w.batch)).bind ?_
    rintro _ _ rfl
    have htakes : Calls (takeBatch s.recorded { w with
        phase := if w.closed then w.phase else .idle }) fun added w' =>
        w.Acts s (.ended :: w.batch ++ added) w' :=
      (passes_takeBatch _).mono fun added w' h => .goesOn hr h
    cases outcome with
    | none => exact htakes
    | some f => exact .silent_bind (silent_report tells_note f) fun _ => htakes
  | none => exact .pure .rests
  | due => exact .pure .rests

theorem acts_step (t : WatchStep) : Calls (w.step s t) (w.Acts s) := by
  cases t with
  | event c => exact acts_event c
  | turn => exact acts_turn
  | ended outcome => exact acts_ended outcome
  | beginShutdown =>
    refine .map ?_
    unfold beginShutdown
    split
    · exact .pure .rests
    · have hunsubscribe : Calls (w.unsubscribe s.recorded) fun added _ => added = [] := by
        unfold unsubscribe
        split
        · exact fun y => ⟨[], (List.append_nil y.2).symm, rfl⟩
        · exact .pure rfl
      refine .silent_bind hunsubscribe fun outcome => .pure (.closes ?_)
      split <;> simp
  | finishShutdown =>
    change Calls (w.finishShutdown s.recorded) (w.Acts s)
    unfold finishShutdown
    split
    · rename_i hs
      exact .silent_bind (tells_note _) fun _ => .pure (.finishes hs)
    · exact .pure .rests

/-- Whatever every step keeps is kept by all steps together. -/
theorem calls_steps {P : List WatchNote → Watcher → Prop} (notes : List WatchNote) (h : P notes w)
    (hstep : ∀ notes w added w', P notes w → Acts s w added w' → P (notes ++ added) w')
    (ts : List WatchStep) : Calls (w.steps s ts) fun added w' => P (notes ++ added) w' := by
  induction ts generalizing w notes with
  | nil => exact .pure (by rwa [List.append_nil])
  | cons t ts ih =>
    refine (acts_step t).bind ?_
    intro added w' hacts
    refine (ih _ (hstep _ _ _ _ h hacts)).mono ?_
    intro more w'' h'
    rwa [← List.append_assoc]

end Watcher
end QueryTypes
