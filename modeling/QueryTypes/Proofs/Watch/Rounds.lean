import QueryTypes.Proofs.Text.Sorted
import QueryTypes.Proofs.Watch.Steps

/-!
# Rounds of a watcher

Changes reach a watcher while a generation is in flight or after it has ended. In every order of
steps the changes between two generations make up one round: they are told of together, each path
once, and then one generation begins for them. The exception is a batch with a path that leads
nowhere, after which no generation begins.
-/

namespace QueryTypes

/-- The paths accepted between two generations: while the first one is in flight, and after it. And
the places that the project was told of for them. -/
structure Round where
  early : List String
  late : List String
  uris : List String

namespace Round

def paths (r : Round) : List String := r.early ++ r.late

/-- What is noted until the paths are taken. -/
def waiting (r : Round) : List WatchNote :=
  r.early.map .accepted ++ .ended :: r.late.map .accepted

/-- What is noted of a whole round. Every path is told of once, in the order in which the paths
were first accepted. -/
def notes (r : Round) : List WatchNote :=
  r.waiting ++ .taken r.paths.eraseDups :: r.uris.map .fine ++ [.began]

end Round

namespace Watcher

variable {σ : Type} {s : Surroundings σ} {w w' : Watcher} {notes added : List WatchNote}
  {rounds : List Round} {last : Round}

/-- How a watcher accounts for what it accepted: all rounds but the last one were taken, and the
paths of the last one are pending. -/
structure Books (s : Surroundings σ) (w : Watcher) (rounds : List Round) (last : Round) : Prop where
  taken : ∀ r ∈ rounds, r.paths ≠ []
  prompt : ∀ r ∈ rounds, r.early = [] ∨ r.late = []
  leads : ∀ r ∈ rounds, List.Forall₂ s.Leads r.paths.eraseDups r.uris
  last_prompt : last.early = [] ∨ last.late = []
  pending_eq : w.pending = if w.closed = true then [] else last.paths.eraseDups

/-- The same with the notes. A path that is pending has a task to take it. -/
structure Accounts (s : Surroundings σ) (w : Watcher) (notes : List WatchNote)
    (rounds : List Round) (last : Round) : Prop extends w.Books s rounds last where
  notes_eq : notes = .began :: rounds.flatMap Round.notes ++
    if w.regeneration = .busy then last.early.map .accepted else last.waiting
  in_flight : w.regeneration = .busy → last.late = []
  settled : w.closed = false → w.regeneration ≠ .busy → last.early = []
  idle : w.closed = false → w.regeneration = .none → w.pending = []

theorem paths_eq_nil_of_pending (h : w.Books s rounds last) (hopen : w.closed = false)
    (hp : w.pending = []) : last.paths = [] := by
  rw [h.pending_eq, if_neg (by simp [hopen])] at hp
  apply List.eq_nil_iff_forall_not_mem.2
  intro p hmem
  rw [← List.mem_eraseDups, hp] at hmem
  simp at hmem

theorem batch_of_open (hopen : w.closed = false) (hp : w.pending ≠ []) :
    w.batch = [.taken w.pending] := by
  rw [batch, if_neg (by simp [hopen, hp])]

theorem batch_of_done (h : w.closed = true ∨ w.pending = []) : w.batch = [] := by
  rw [batch, if_pos (by simpa using h)]

/-- A path that fails leaves a note of its failure. -/
theorem fails_of_fine {p : String} {last : List WatchNote} (h : s.Fails p last)
    (hfine : NoneFailed last) : ¬ ∀ n ∈ last, n.isUnresolved = false := by
  intro hresolved
  cases h with
  | told hl hf =>
    have hlast := hfine _ (List.mem_singleton_self _)
    simp [WatchNote.isFailure] at hlast
  | unresolved hf =>
    have hlast := hresolved _ (List.mem_singleton_self _)
    simp [WatchNote.isUnresolved] at hlast

/-- The task takes the last round, or is done. -/
theorem Books.passes (h : w.Books s rounds last)
    (hn : notes = .began :: rounds.flatMap Round.notes ++ last.waiting)
    (hpass : w.Passes s added w') (hfine : NoneFailed added)
    (hresolved : ∀ n ∈ added, n.isUnresolved = false) :
    ∃ rounds last, Accounts s w' (notes ++ (w.batch ++ added)) rounds last := by
  cases hpass with
  | done hdone =>
    have hempty : w.closed = false → w.pending = [] :=
      fun hopen => hdone.resolve_left (by simp [hopen])
    rw [batch_of_done hdone, List.append_nil, List.append_nil]
    refine ⟨rounds, last, ⟨h.taken, h.prompt, h.leads, h.last_prompt, h.pending_eq⟩, hn, by simp,
      ?_, fun hopen _ => hempty hopen⟩
    intro hopen _
    exact (List.append_eq_nil_iff.1 (paths_eq_nil_of_pending h hopen (hempty hopen))).1
  | @began hopen hpending uris hleads =>
    have hpaths : w.pending = last.paths.eraseDups := by
      rw [h.pending_eq, if_neg (by simp [hopen])]
    have hround : ∀ r ∈ rounds ++ [{ last with uris := uris }], r.paths ≠ [] ∧
        (r.early = [] ∨ r.late = []) ∧ List.Forall₂ s.Leads r.paths.eraseDups r.uris := by
      intro r hr
      rcases List.mem_append.1 hr with hr | hr
      · exact ⟨h.taken r hr, h.prompt r hr, h.leads r hr⟩
      · obtain rfl := List.mem_singleton.1 hr
        refine ⟨?_, h.last_prompt, hpaths ▸ hleads⟩
        intro hnil
        have hnone : last.paths = [] := hnil
        exact hpending (by rw [hpaths, hnone]; rfl)
    refine ⟨rounds ++ [{ last with uris := uris }], ⟨[], [], []⟩,
      ⟨fun r hr => (hround r hr).1, fun r hr => (hround r hr).2.1, fun r hr => (hround r hr).2.2,
        .inl rfl, ?_⟩, ?_, fun _ => rfl, fun _ _ => rfl, by simp⟩
    · split <;> rfl
    · rw [hn, batch_of_open hopen hpending, hpaths]
      simp [Round.notes, Round.waiting, Round.paths]
  | @failed hopen front rest uris p last hp hleads hfails =>
    refine absurd (fun n hmem => hresolved n ?_) (fails_of_fine hfails fun n hmem => hfine n ?_)
    · exact List.mem_append_right _ hmem
    · exact List.mem_append_right _ hmem

theorem pending_enqueue {paths : List String} (h : w.pending = paths.eraseDups) (p : String) :
    (w.enqueue p).pending = (paths ++ [p]).eraseDups := by
  rw [List.eraseDups_append, enqueue]
  by_cases hp : w.pending.contains p = true
  · have hmem : p ∈ paths := by
      rw [← List.mem_eraseDups, ← h]
      simpa using hp
    rw [if_pos hp, h]
    simp [List.removeAll, hmem]
  · have hmem : p ∉ paths := by
      rw [← List.mem_eraseDups, ← h]
      simpa using hp
    rw [if_neg hp, h]
    simp [List.removeAll, hmem, List.eraseDups_cons]

/-- A path that is accepted while a generation is in flight is early. -/
theorem Accounts.early {p : String} (h : Accounts s w notes rounds last)
    (hpending : w'.pending = (last.paths ++ [p]).eraseDups) (hopen : w'.closed = false)
    (hbusy : w.regeneration = .busy) (hbusy' : w'.regeneration = .busy) :
    Accounts s w' (notes ++ [.accepted p]) rounds { last with early := last.early ++ [p] } := by
  have hlate := h.in_flight hbusy
  refine ⟨⟨h.taken, h.prompt, h.leads, .inr hlate, ?_⟩, ?_, fun _ => hlate, ?_, ?_⟩
  · rw [if_neg (by simp [hopen]), hpending]
    simp [Round.paths, hlate]
  · have hn := h.notes_eq
    rw [if_pos hbusy] at hn
    rw [if_pos hbusy', hn]
    simp
  · intro _ hne
    exact absurd hbusy' hne
  · intro _ hnone
    rw [hbusy'] at hnone
    exact absurd hnone (by simp)

/-- A path that is accepted while none is in flight is late, and the task is due. -/
theorem Accounts.late {p : String} (h : Accounts s w notes rounds last)
    (hpending : w'.pending = (last.paths ++ [p]).eraseDups) (hopen : w.closed = false)
    (hopen' : w'.closed = false) (hbusy : w.regeneration ≠ .busy) (hdue : w'.regeneration = .due) :
    Accounts s w' (notes ++ [.accepted p]) rounds { last with late := last.late ++ [p] } := by
  have hearly := h.settled hopen hbusy
  refine ⟨⟨h.taken, h.prompt, h.leads, .inl hearly, ?_⟩, ?_, ?_, fun _ _ => hearly, ?_⟩
  · rw [if_neg (by simp [hopen']), hpending]
    simp [Round.paths]
  · have hn := h.notes_eq
    rw [if_neg hbusy] at hn
    rw [if_neg (by simp [hdue]), hn]
    simp [Round.waiting]
  · intro hb
    rw [hdue] at hb
    exact absurd hb (by simp)
  · intro _ hnone
    rw [hdue] at hnone
    exact absurd hnone (by simp)

theorem Accounts.accepts (h : Accounts s w notes rounds last) (hopen : w.closed = false)
    (p : String) : ∃ rounds last, Accounts s { w with
      pending := (w.enqueue p).pending
      regeneration := if w.regeneration = .none then .due else w.regeneration }
      (notes ++ [.accepted p]) rounds last := by
  have hold : w.pending = last.paths.eraseDups := by
    rw [h.pending_eq, if_neg (by simp [hopen])]
  have hnew := pending_enqueue hold p
  cases hr : w.regeneration with
  | busy => exact ⟨rounds, _, h.early hnew hopen hr rfl⟩
  | due => exact ⟨rounds, _, h.late hnew hopen hopen (by simp [hr]) rfl⟩
  | none => exact ⟨rounds, _, h.late hnew hopen hopen (by simp [hr]) rfl⟩

theorem Accounts.acts (h : Accounts s w notes rounds last) (hacts : w.Acts s added w')
    (hfine : NoneFailed added) (hresolved : ∀ n ∈ added, n.isUnresolved = false) :
    ∃ rounds last, Accounts s w' (notes ++ added) rounds last := by
  cases hacts with
  | rests =>
    rw [List.append_nil]
    exact ⟨rounds, last, h⟩
  | accepts hopen p => exact h.accepts hopen p
  | @takes hr added w' hpass =>
    have hn := h.notes_eq
    rw [if_neg (by simp [hr])] at hn
    exact h.toBooks.passes hn hpass (fun n hmem => hfine n (List.mem_append_right _ hmem))
      fun n hmem => hresolved n (List.mem_append_right _ hmem)
  | @goesOn hr phase added w' hpass =>
    have hbooks : Books s { w with phase := phase } rounds last :=
      ⟨h.taken, h.prompt, h.leads, h.last_prompt, h.pending_eq⟩
    have hn : notes ++ [.ended] = .began :: rounds.flatMap Round.notes ++ last.waiting := by
      rw [h.notes_eq, if_pos hr]
      simp [Round.waiting, h.in_flight hr]
    have hpassed := hbooks.passes hn hpass (fun n hmem => hfine n (List.mem_append_right _ hmem))
      fun n hmem => hresolved n (List.mem_append_right _ hmem)
    rwa [List.append_assoc] at hpassed
  | @closes shutdown hs =>
    have hclosed : Watcher.closed { w with pending := [], shutdown := shutdown } = true := by
      simpa [closed] using hs
    rw [List.append_nil]
    refine ⟨rounds, last, ⟨h.taken, h.prompt, h.leads, h.last_prompt, ?_⟩, h.notes_eq, h.in_flight,
      ?_, ?_⟩
    · rw [if_pos hclosed]
    · simp [hclosed]
    · simp [hclosed]
  | finishes hs =>
    have hclosed : w.closed = true := by simp [closed, hs]
    have hp := h.pending_eq
    rw [if_pos hclosed] at hp
    rw [List.append_nil]
    exact ⟨rounds, last, ⟨h.taken, h.prompt, h.leads, h.last_prompt, hp⟩, h.notes_eq, h.in_flight,
      by simp [closed], by simp [closed]⟩

/-! ### Batches and generations -/

/-- Every batch is followed by a generation or by a failure. -/
def Balanced (notes : List WatchNote) : Prop :=
  notes.countP WatchNote.isTaken = notes.count .began + notes.countP WatchNote.isUnresolved +
    notes.countP WatchNote.isFailure

theorem Balanced.append {more : List WatchNote} (h : Balanced notes) (h' : Balanced more) :
    Balanced (notes ++ more) := by
  unfold Balanced at h h' ⊢
  simp only [List.countP_append, List.count_append]
  omega

theorem count_fine (uris : List String) :
    (uris.map WatchNote.fine).countP WatchNote.isTaken = 0 ∧
    (uris.map WatchNote.fine).count .began = 0 ∧
    (uris.map WatchNote.fine).countP WatchNote.isUnresolved = 0 ∧
    (uris.map WatchNote.fine).countP WatchNote.isFailure = 0 := by
  simp [List.countP_eq_zero, List.count_eq_zero, WatchNote.fine, WatchNote.isTaken,
    WatchNote.isUnresolved, WatchNote.isFailure]

theorem Passes.balanced (h : w.Passes s added w') : Balanced (w.batch ++ added) := by
  unfold Balanced
  cases h with
  | done hdone => rw [batch_of_done hdone]; rfl
  | @began hopen hp uris hleads =>
    obtain ⟨htaken, hbegan, hunresolved, hfailure⟩ := count_fine uris
    rw [batch_of_open hopen hp]
    simp only [List.countP_append, List.count_append, htaken, hbegan, hunresolved, hfailure]
    rfl
  | @failed hopen front rest uris p last hp hleads hfails =>
    obtain ⟨htaken, hbegan, hunresolved, hfailure⟩ := count_fine uris
    rw [batch_of_open hopen (by simp [hp])]
    simp only [List.countP_append, List.count_append, htaken, hbegan, hunresolved, hfailure]
    cases hfails with
    | told => rfl
    | unresolved => rfl

theorem Acts.balanced (h : w.Acts s added w') : Balanced added := by
  cases h with
  | rests => rfl
  | accepts => rfl
  | takes hr hpass => exact hpass.balanced
  | @goesOn hr phase added w' hpass =>
    have hended : Balanced [.ended] := rfl
    exact hended.append hpass.balanced
  | closes => rfl
  | finishes => rfl

theorem count_rounds (rounds : List Round) :
    (rounds.flatMap Round.notes).countP WatchNote.isTaken =
      (rounds.flatMap Round.notes).count .began := by
  have hwaiting : ∀ r : Round, r.waiting.countP WatchNote.isTaken = 0 ∧
      r.waiting.count .began = 0 := by
    intro r
    simp [Round.waiting, List.countP_eq_zero, List.count_eq_zero, WatchNote.isTaken]
  induction rounds with
  | nil => rfl
  | cons r rounds ih =>
    obtain ⟨htaken, hbegan, -⟩ := count_fine r.uris
    simp only [List.flatMap_cons, List.countP_append, List.count_append, Round.notes, ih, htaken,
      hbegan, (hwaiting r).1, (hwaiting r).2, List.countP_cons, List.count_cons]
    rfl

/-! ### All steps -/

/-- The notes without those of paths that lead nowhere, which is asked of nobody. -/
def seen (notes : List WatchNote) : List WatchNote := notes.filter fun n => !n.isUnresolved

theorem count_seen : (seen notes).countP WatchNote.isTaken = notes.countP WatchNote.isTaken ∧
    (seen notes).count .began = notes.count .began := by
  constructor
  · rw [seen, List.countP_filter]
    refine List.countP_congr fun n _ => ?_
    cases n <;> simp [WatchNote.isTaken, WatchNote.isUnresolved]
  · exact List.count_filter rfl

/-- What was accepted makes up rounds. Each was told of at once, path by path, with one generation
after it; a round whose paths came while a generation was in flight begins as that one ends. The
paths since then are pending, unless the watcher was closed, and they never wait without a task. -/
def InRounds (s : Surroundings σ) (w : Watcher) (notes : List WatchNote) : Prop :=
  ∃ (rounds : List Round) (last : Round),
    notes = .began :: rounds.flatMap Round.notes ++
      (if w.regeneration = .busy then last.early.map .accepted else last.waiting) ∧
    (∀ r ∈ rounds, r.paths ≠ [] ∧ r.paths.eraseDups.Nodup ∧ (r.early = [] ∨ r.late = []) ∧
      List.Forall₂ s.Leads r.paths.eraseDups r.uris) ∧
    (w.regeneration = .busy → last.late = []) ∧
    w.pending = (if w.closed = true then [] else last.paths.eraseDups) ∧
    (w.closed = false → w.regeneration = .none → w.pending = [])

theorem Accounts.inRounds (h : Accounts s w notes rounds last) : InRounds s w notes :=
  ⟨rounds, last, h.notes_eq,
    fun r hr => ⟨h.taken r hr, Text.nodup_eraseDups _, h.prompt r hr, h.leads r hr⟩,
    h.in_flight, h.pending_eq, h.idle⟩

/-- In rounds there is one batch less than there are generations. -/
theorem InRounds.count_eq (h : InRounds s w notes) :
    notes.countP WatchNote.isTaken + 1 = notes.count .began := by
  obtain ⟨rounds, last, rfl, -⟩ := h
  have hend : (if w.regeneration = .busy then last.early.map WatchNote.accepted
      else last.waiting).countP WatchNote.isTaken = 0 ∧
      (if w.regeneration = .busy then last.early.map WatchNote.accepted
      else last.waiting).count .began = 0 := by
    split <;> simp [Round.waiting, List.countP_eq_zero, List.count_eq_zero, WatchNote.isTaken]
  simp only [List.countP_append, List.count_append, List.countP_cons, List.count_cons, hend.1,
    hend.2, count_rounds]
  simp [WatchNote.isTaken]

theorem calls_opening (s : Surroundings σ) (state : WatchState) (outcome : Option Failure) :
    Calls (opening s state outcome) fun added z => added = [.began, .ended] ∧
      (z.1 = none → Accounts s z.2 added [] ⟨[], [], []⟩) := by
  have hstart : Calls ((ofState state).start s.recorded) fun added w =>
      added = [.began] ∧ w = { ofState state with phase := .generating } :=
    fun y => ⟨_, rfl, rfl, rfl⟩
  have hmark : Calls (mark .ended : StateM (σ × List WatchNote) Unit) fun added _ =>
      added = [.ended] := fun y => ⟨_, rfl, rfl⟩
  have hsubscribe : ∀ st, Calls (s.recorded.subscribe st) fun added _ => added = [] :=
    fun st y => ⟨[], (List.append_nil y.2).symm, rfl⟩
  refine hstart.bind ?_
  rintro _ _ ⟨rfl, rfl⟩
  refine hmark.bind ?_
  rintro _ _ rfl
  unfold started
  split
  · exact .pure ⟨rfl, by simp⟩
  · have hsubscribed : ∀ w : Watcher, w.regeneration = .none → w.closed = false → w.pending = [] →
        Accounts s w [.began, .ended] [] ⟨[], [], []⟩ := by
      intro w hr hopen hp
      refine ⟨⟨by simp, by simp, by simp, .inl rfl, ?_⟩, ?_, fun _ => rfl, fun _ _ => rfl,
        fun _ _ => hp⟩
      · rw [hp, if_neg (by simp [hopen])]
        rfl
      · rw [if_neg (by simp [hr])]
        rfl
    unfold subscribe
    refine .silent_bind ?_ fun _ => .silent_bind (hsubscribe _) fun failed => ?_
    · cases outcome with
      | none => exact .pure rfl
      | some f => exact tells_note _
    · cases failed with
      | some f => exact .pure ⟨rfl, by simp⟩
      | none =>
        exact .silent_bind (tells_note _) fun _ =>
          .pure ⟨rfl, fun _ => hsubscribed _ rfl rfl rfl⟩

/-- In every order of steps what was accepted makes up rounds, exactly if every path that was taken
leads somewhere. A batch with a path that does not is lost: no generation begins for it, and the
paths behind that one are not told of. -/
theorem rounds_of_steps (s : Surroundings σ) (state : WatchState) (outcome : Option Failure)
    (x : σ) (ts : List WatchStep) {w₀ : Watcher} {y₀ : σ × List WatchNote}
    (hopening : (opening s state outcome).run (x, []) = ((none, w₀), y₀))
    (hfine : NoneFailed ((w₀.steps s ts).run y₀).2.2) :
    let w := ((w₀.steps s ts).run y₀).1
    let notes := ((w₀.steps s ts).run y₀).2.2
    InRounds s w (seen notes) ↔ ∀ p f, .unresolved p f ∉ notes := by
  intro w notes
  obtain ⟨first, hfirst, rfl, hopened⟩ := calls_opening s state outcome (x, [])
  rw [hopening] at hfirst hopened
  have hw₀ : Accounts s w₀ y₀.2 [] ⟨[], [], []⟩ := by
    rw [hfirst]
    exact hopened rfl
  have hunresolved : (∀ p f, .unresolved p f ∉ notes) ↔ ∀ n ∈ notes, n.isUnresolved = false := by
    constructor
    · intro h n hn
      cases n with
      | unresolved p f => exact absurd hn (h p f)
      | _ => rfl
    · intro h p f hmem
      have hn := h _ hmem
      simp [WatchNote.isUnresolved] at hn
  rw [hunresolved]
  constructor
  · intro hrounds
    -- a batch without a generation stands beside as many as there are generations for all others
    obtain ⟨added, hadded, hbalanced⟩ := calls_steps (s := s) (w := w₀)
      (P := fun notes _ => Balanced (.taken [] :: notes)) y₀.2 (by rw [hfirst]; rfl)
      (fun notes w added w' h hacts => h.append hacts.balanced) ts y₀
    have hnotes : notes = y₀.2 ++ added := hadded
    rw [← hnotes] at hbalanced
    have hseen := hrounds.count_eq
    rw [count_seen.1, count_seen.2] at hseen
    have hnone : notes.countP WatchNote.isFailure = 0 :=
      List.countP_eq_zero.2 fun n hn => by simp [hfine n hn]
    have hzero : notes.countP WatchNote.isUnresolved = 0 := by
      simp only [Balanced, List.countP_cons, List.count_cons, hnone] at hbalanced
      simp [WatchNote.isTaken, WatchNote.isUnresolved, WatchNote.isFailure] at hbalanced
      omega
    exact fun n hn => by simpa using List.countP_eq_zero.1 hzero n hn
  · intro hresolved
    obtain ⟨added, hadded, haccounts⟩ := calls_steps (s := s) (w := w₀)
      (P := fun notes w => NoneFailed notes → (∀ n ∈ notes, n.isUnresolved = false) →
        ∃ rounds last, Accounts s w notes rounds last) y₀.2 (fun _ _ => ⟨[], _, hw₀⟩)
      (fun notes w added w' h hacts hfine hresolved => by
        obtain ⟨rounds, last, hnow⟩ := h (fun n hn => hfine n (List.mem_append_left _ hn))
          fun n hn => hresolved n (List.mem_append_left _ hn)
        exact hnow.acts hacts (fun n hn => hfine n (List.mem_append_right _ hn))
          fun n hn => hresolved n (List.mem_append_right _ hn)) ts y₀
    have hnotes : notes = y₀.2 ++ added := hadded
    rw [← hnotes] at haccounts
    obtain ⟨rounds, last, hnow⟩ := haccounts hfine hresolved
    have hseen : seen notes = notes := List.filter_eq_self.2 fun n hn => by simp [hresolved n hn]
    rw [hseen]
    exact hnow.inRounds

/-- Surroundings in which nothing ever fails, but for paths that no file can have. -/
def calm : Surroundings Unit := ⟨fun p => pure (Path.resolved [] p), fun _ => pure none, pure (),
  fun _ => pure none, pure none, fun _ => pure (), fun _ => pure ()⟩

/-- Two paths change, one of them twice, while the generation for a third one is in flight. -/
def coalescing : List WatchStep :=
  [.event ⟨"change", "a.graphql"⟩, .turn, .event ⟨"change", "b.graphql"⟩,
    .event ⟨"add", "c.graphql"⟩, .event ⟨"change", "b.graphql"⟩,
    .ended (some (.generation "no space left")), .ended none]

/-- The first path leads nowhere. The second one is lost with it. -/
def unresolvable : List WatchStep :=
  [.event ⟨"change", "a\x00.graphql"⟩, .event ⟨"change", "b.graphql"⟩, .turn]

def openedCalmly : (Option Failure × Watcher) × Unit × List WatchNote :=
  (opening calm ⟨[], [], false⟩ none).run ((), [])

def calmly : Watcher := openedCalmly.1.2

theorem rounds_of_steps_coalescing :
    (let after := (calmly.steps calm coalescing).run openedCalmly.2
    after.1.pending = [] ∧ InRounds calm after.1 (seen after.2.2)) ∧
    let after := (calmly.steps calm unresolvable).run openedCalmly.2
    after.1.pending = [] ∧ after.1.regeneration = .none ∧
      after.2.2.drop 4 = [.taken ["a\x00.graphql", "b.graphql"],
        .unresolved "a\x00.graphql" (.badValue "embedded null byte")] ∧
      ¬ InRounds calm after.1 (seen after.2.2) := by
  have hopening : (opening calm ⟨[], [], false⟩ none).run ((), []) =
      ((none, calmly), openedCalmly.2) := rfl
  refine ⟨⟨by decide +kernel, ?_⟩, by decide +kernel, by decide +kernel, by decide +kernel, ?_⟩
  · refine (rounds_of_steps calm ⟨[], [], false⟩ none () coalescing hopening
      (by decide +kernel)).2 ?_
    have hresolved : ∀ n ∈ ((calmly.steps calm coalescing).run openedCalmly.2).2.2,
        n.isUnresolved = false := by decide +kernel
    intro p f hmem
    exact absurd (hresolved _ hmem) (by simp [WatchNote.isUnresolved])
  · intro hrounds
    refine (rounds_of_steps calm ⟨[], [], false⟩ none () unresolvable hopening
      (by decide +kernel)).1 hrounds "a\x00.graphql" (.badValue "embedded null byte") ?_
    decide +kernel

end Watcher
end QueryTypes
