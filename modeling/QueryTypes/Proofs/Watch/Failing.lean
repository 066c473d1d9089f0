import QueryTypes.Proofs.Watch.Rounds

/-!
# Batches with a failing path

The paths of a batch are told of in their order, up to the first one that fails. Then no generation
begins, and nothing of the batch is pending any more. The paths behind the failing one are told of
only if they are accepted again, so the generation after the next change goes ahead without them.
-/

namespace QueryTypes

namespace Surroundings

variable {σ : Type} (s : Surroundings σ)

/-- Wherever a path leads, the project reads what is there. -/
def Reads (path : String) : Prop :=
  ∀ x, ∃ l, ((s.resolve path).run x).1 = .ok l ∧
    ∀ x', ((s.reread (Uri.ofLocation l)).run x').1 = none

end Surroundings

namespace WatchNote

variable {σ : Type} {s : Surroundings σ} {paths paths' : List String} {notes more : List WatchNote}

/-- Whatever is told of is one of the paths, or was accepted before. -/
def Accounted (s : Surroundings σ) (paths : List String) (notes : List WatchNote) : Prop :=
  ∀ before uri outcome later, notes = before ++ .told uri outcome :: later →
    ∃ p, (p ∈ paths ∨ .accepted p ∈ before) ∧ s.Leads p uri

/-- Until a generation begins, each of the paths is told of. -/
def ToldFirst (s : Surroundings σ) (paths : List String) (notes : List WatchNote) : Prop :=
  ∀ before later, notes = before ++ .began :: later → .began ∉ before →
    ∀ p ∈ paths, ∃ uri outcome, s.Leads p uri ∧ .told uri outcome ∈ before

theorem not_began_of_fails {p : String} {last : List WatchNote} (h : s.Fails p last)
    (uris : List String) : .began ∉ uris.map .fine ++ last := by
  cases h with
  | told => simp [fine]
  | unresolved => simp [fine]

theorem accounted_of_told (h : ∀ uri outcome, .told uri outcome ∈ notes →
    ∃ p ∈ paths, s.Leads p uri) : Accounted s paths notes := by
  intro before uri outcome later hnotes
  obtain ⟨p, hp, huri⟩ := h uri outcome (by simp [hnotes])
  exact ⟨p, .inl hp, huri⟩

theorem exists_of_told_mem_map {uris : List String} (hleads : List.Forall₂ s.Leads paths uris)
    {uri : String} {outcome : Option Failure} (h : WatchNote.told uri outcome ∈ uris.map fine) :
    ∃ p ∈ paths, s.Leads p uri := by
  induction hleads with
  | nil => exact absurd h List.not_mem_nil
  | @cons p uri' paths uris hlead hleads ih =>
    rcases List.mem_cons.1 h with htold | h
    · obtain rfl := (WatchNote.told.inj htold).1
      exact ⟨p, List.mem_cons_self, hlead⟩
    · obtain ⟨q, hq, hlead⟩ := ih h
      exact ⟨q, List.mem_cons_of_mem _ hq, hlead⟩

theorem told_of_mem_front {uris : List String} (hleads : List.Forall₂ s.Leads paths uris)
    {p : String} (hp : p ∈ paths) :
    ∃ uri outcome, s.Leads p uri ∧ .told uri outcome ∈ uris.map fine := by
  induction hleads with
  | nil => exact absurd hp List.not_mem_nil
  | @cons q uri paths uris hlead hleads ih =>
    rcases List.mem_cons.1 hp with rfl | hp
    · exact ⟨uri, none, hlead, List.mem_cons_self⟩
    · obtain ⟨uri', outcome, hlead', hmem⟩ := ih hp
      exact ⟨uri', outcome, hlead', List.mem_cons_of_mem _ hmem⟩

theorem accounted_of_silent (h : ∀ uri outcome, .told uri outcome ∉ notes) :
    Accounted s paths notes :=
  accounted_of_told fun uri outcome hmem => absurd hmem (h uri outcome)

/-- What was accepted in the first notes accounts for what is told of later. -/
theorem Accounted.append (h : Accounted s paths notes) (h' : Accounted s paths' more)
    (hpaths : ∀ p ∈ paths', p ∈ paths ∨ .accepted p ∈ notes) :
    Accounted s paths (notes ++ more) := by
  intro before uri outcome later hnotes
  rcases List.append_eq_append_iff.1 hnotes with ⟨rest, rfl, hmore⟩ | ⟨rest, rfl, htold⟩
  · obtain ⟨p, hp, huri⟩ := h' rest uri outcome later hmore
    refine ⟨p, ?_, huri⟩
    rcases hp with hp | hp
    · exact (hpaths p hp).imp_right (List.mem_append_left _)
    · exact .inr (List.mem_append_right _ hp)
  · cases rest with
    | nil =>
      obtain ⟨p, hp, huri⟩ := h' [] uri outcome later (by simpa using htold.symm)
      refine ⟨p, ?_, huri⟩
      rw [List.append_nil] at hpaths
      exact hpaths p (hp.resolve_right List.not_mem_nil)
    | cons n rest =>
      obtain ⟨rfl, -⟩ := List.cons.inj htold
      exact h before uri outcome rest rfl

theorem ToldFirst.of_told (h : .began ∉ notes)
    (htold : ∀ p ∈ paths, ∃ uri outcome, s.Leads p uri ∧ .told uri outcome ∈ notes)
    (more : List WatchNote) : ToldFirst s paths (notes ++ more) := by
  intro before later hnotes _ p hp
  obtain ⟨uri, outcome, hlead, hmem⟩ := htold p hp
  refine ⟨uri, outcome, hlead, ?_⟩
  rcases List.append_eq_append_iff.1 hnotes with ⟨rest, rfl, -⟩ | ⟨rest, rfl, hbegan⟩
  · exact List.mem_append_left _ hmem
  · cases rest with
    | nil => simpa using hmem
    | cons n rest =>
      obtain ⟨rfl, -⟩ := List.cons.inj hbegan
      exact absurd (by simp) h

end WatchNote

namespace Watcher

open WatchNote

variable {σ : Type} {s : Surroundings σ} {w w' : Watcher} {y : σ × List WatchNote}
  {notes added : List WatchNote}

/-! ### What is told of later -/

/-- What is told of was pending or was accepted since, and so is what is pending then. -/
structure Keeps (s : Surroundings σ) (w : Watcher) (notes : List WatchNote) (w' : Watcher) :
    Prop where
  accounted : Accounted s w.pending notes
  pending : ∀ p ∈ w'.pending, p ∈ w.pending ∨ .accepted p ∈ notes

theorem Keeps.of_pending (hsilent : ∀ uri outcome, .told uri outcome ∉ notes)
    (h : ∀ p ∈ w'.pending, p ∈ w.pending) : Keeps s w notes w' :=
  ⟨accounted_of_silent hsilent, fun p hp => .inl (h p hp)⟩

theorem Keeps.trans {w'' : Watcher} {more : List WatchNote} (h : Keeps s w notes w')
    (h' : Keeps s w' more w'') : Keeps s w (notes ++ more) w'' where
  accounted := h.accounted.append h'.accounted h.pending
  pending p hp := by
    rcases h'.pending p hp with hp | hp
    · exact (h.pending p hp).imp_right (List.mem_append_left _)
    · exact .inr (List.mem_append_right _ hp)

theorem Passes.keeps (h : w.Passes s notes w') : Keeps s w notes w' := by
  cases h with
  | done h => exact .of_pending (by simp) fun _ => id
  | began hopen hp hleads =>
    refine ⟨accounted_of_told fun uri outcome hmem => ?_, by simp⟩
    rcases List.mem_append.1 hmem with hmem | hmem
    · exact exists_of_told_mem_map hleads hmem
    · simp at hmem
  | @failed hopen front rest uris p last hp hleads hfails =>
    refine ⟨accounted_of_told fun uri outcome hmem => ?_, by simp⟩
    rw [hp]
    rcases List.mem_append.1 hmem with hmem | hmem
    · obtain ⟨q, hq, huri⟩ := exists_of_told_mem_map hleads hmem
      exact ⟨q, List.mem_append_left _ hq, huri⟩
    · cases hfails with
      | unresolved hf => simp at hmem
      | @told x x' l f hl hf =>
        obtain ⟨rfl, -⟩ := WatchNote.told.inj (List.mem_singleton.1 hmem)
        exact ⟨p, by simp, x, l, hl, rfl⟩

theorem mem_pending_enqueue {p q : String} (h : p ∈ (w.enqueue q).pending) :
    p ∈ w.pending ∨ p = q := by
  unfold enqueue at h
  split at h
  · exact .inl h
  · simpa using h

theorem keeps_batch (w : Watcher) (phase : WatchPhase) :
    Keeps s w w.batch { w with phase := phase } := by
  refine .of_pending ?_ fun _ => id
  unfold batch
  split <;> simp

theorem Acts.keeps (h : w.Acts s notes w') : Keeps s w notes w' := by
  cases h with
  | rests => exact .of_pending (by simp) fun _ => id
  | accepts hopen path =>
    refine ⟨accounted_of_silent (by simp), fun p hp => ?_⟩
    exact (mem_pending_enqueue hp).imp_right fun heq => by simp [heq]
  | takes hr hpass => exact (keeps_batch w w.phase).trans hpass.keeps
  | @goesOn hr phase added w' hpass =>
    have hended : Keeps s w [.ended] w := .of_pending (by simp) fun _ => id
    exact (hended.trans (keeps_batch w phase)).trans hpass.keeps
  | closes => exact .of_pending (by simp) (by simp)
  | finishes => exact .of_pending (by simp) fun _ => id

theorem keeps_steps (ts : List WatchStep) (w : Watcher) : Calls (w.steps s ts) (Keeps s w) :=
  calls_steps [] (.of_pending (by simp) fun _ => id)
    (fun _ _ _ _ h hacts => h.trans hacts.keeps) ts

/-! ### Batches that a path fails in -/

theorem run_change_of_triggers (hopen : w.closed = false) (hidle : w.pending = [])
    (hnone : w.regeneration = .none) {c : Change} (htriggers : w.state.triggers c.path = true) :
    (w.change s.recorded c).run y =
      ((true, { w with pending := [c.path], regeneration := .due }), y) := by
  have henqueue : w.enqueue c.path = { w with pending := [c.path] } := by
    rw [enqueue, hidle, if_neg (by simp)]
    rfl
  rw [change, if_neg (by simp [hopen]), if_neg (by simp [htriggers]), henqueue]
  simp only [hnone]
  rfl

/-- After a batch that failed, a generation begins for the path of the next change alone. -/
theorem run_next (hidle : w.pending = []) (hnone : w.regeneration = .none)
    (hopen : w.closed = false) {c : Change} (htriggers : w.state.triggers c.path = true)
    (hreads : s.Reads c.path) :
    ∃ uri, s.Leads c.path uri ∧ ((w.steps s [.event c, .turn]).run y).2.2 =
      y.2 ++ [.accepted c.path, .taken [c.path], .fine uri, .began] := by
  have hevent : (w.step s (.event c)).run y = ({ w with pending := [c.path], regeneration := .due },
      y.1, y.2 ++ [.accepted c.path]) := by
    rw [step, Calls.run_bind, run_change_of_triggers hopen hidle hnone htriggers]
    rfl
  have hsteps : (w.steps s [.event c, .turn]).run y =
      (((w.step s (.event c)).run y).1.step s .turn).run ((w.step s (.event c)).run y).2 := rfl
  rw [hsteps, hevent]
  obtain ⟨_, hadded, told, rfl, hpasses⟩ := passes_turn (s := s)
    (w := { w with pending := [c.path], regeneration := .due }) rfl (y.1, y.2 ++ [.accepted c.path])
  have hbatch : batch { w with pending := [c.path], regeneration := .due } = [.taken [c.path]] :=
    batch_of_open hopen (by simp)
  rw [hadded, hbatch]
  generalize ((step s { w with pending := [c.path], regeneration := .due } .turn).run _).1 = w'
    at hpasses
  cases hpasses with
  | done hdone => exact absurd hdone (by simpa [closed] using hopen)
  | @began _ _ uris hleads =>
    obtain ⟨uri, uris, hlead, hrest, rfl⟩ := List.forall₂_cons_left_iff.1 hleads
    obtain rfl := List.forall₂_nil_left_iff.1 hrest
    exact ⟨uri, hlead, by simp⟩
  | @failed _ front rest uris p last hp hleads hfails =>
    obtain ⟨rfl, rfl, rfl⟩ : front = [] ∧ p = c.path ∧ rest = [] := by
      cases front with
      | nil =>
        obtain ⟨hp, hrest⟩ := List.cons.inj hp
        exact ⟨rfl, hp.symm, hrest.symm⟩
      | cons q front => simp at hp
    cases hfails with
    | @told x x' l f hl hf =>
      obtain ⟨l', hl', hnone⟩ := hreads x
      obtain rfl : l' = l := Except.ok.inj (hl'.symm.trans hl)
      exact absurd ((hnone x').symm.trans hf) (by simp)
    | @unresolved x f hf =>
      obtain ⟨l', hl', -⟩ := hreads x
      exact absurd (hl'.symm.trans hf) (by simp)

/-- With nothing pending, paths are sure to be told of before the next generation begins exactly if
they have been told of already. -/
theorem toldFirst_iff (hidle : w.pending = []) (hnone : w.regeneration = .none)
    (hopen : w.closed = false) {c : Change} (htriggers : w.state.triggers c.path = true)
    (hreads : s.Reads c.path) (hy : y.2 = notes ++ added) (hquiet : .began ∉ added)
    {paths : List String}
    (hother : ∀ q ∈ paths, ∀ uri, s.Leads q uri → s.Leads c.path uri →
      ∃ uri outcome, s.Leads q uri ∧ .told uri outcome ∈ added) :
    (∀ ts since, ((w.steps s ts).run y).2.2 = notes ++ since → ToldFirst s paths since) ↔
      ∀ q ∈ paths, ∃ uri outcome, s.Leads q uri ∧ .told uri outcome ∈ added := by
  constructor
  · intro hall q hq
    -- the generation can begin right after the next change, and nothing else is told of till then
    obtain ⟨uri, hlead, hnext⟩ :=
      run_next (s := s) (y := y) hidle hnone hopen htriggers hreads
    rw [hy, List.append_assoc] at hnext
    obtain ⟨uri', outcome, hlead', hmem⟩ := hall _ _ hnext
      (added ++ [.accepted c.path, .taken [c.path], .fine uri]) [] (by simp)
      (by simpa [WatchNote.fine] using hquiet) q hq
    rcases List.mem_append.1 hmem with hmem | hmem
    · exact ⟨uri', outcome, hlead', hmem⟩
    · have htold : WatchNote.told uri' outcome = .fine uri := by simpa using hmem
      obtain rfl := (WatchNote.told.inj htold).1
      exact hother q hq _ hlead' hlead
  · intro htold ts since hsince
    obtain ⟨more, hmore, -⟩ := keeps_steps (s := s) ts w y
    rw [hmore, hy, List.append_assoc, List.append_cancel_left_eq] at hsince
    rw [← hsince]
    exact ToldFirst.of_told hquiet htold more

/-- What is noted from a batch on when some of its paths fail: the paths are told of up to the first
one that fails, and none behind it. Later on only paths are told of that were accepted since. So the
others are told of before the next generation begins exactly if those behind the failing one are
the same places as others before them. -/
theorem failing_path_ends_batch (s : Surroundings σ) (w : Watcher) (y : σ × List WatchNote)
    (hopen : w.closed = false) (hpending : w.pending ≠ []) :
    let r := (w.takeBatch s.recorded).run y
    (∃ uris, List.Forall₂ s.Leads w.pending uris ∧
      r.2.2 = y.2 ++ (uris.map .fine ++ [.began]) ∧ r.1.regeneration = .busy) ∨
    ∃ front p rest uris last, w.pending = front ++ p :: rest ∧
      List.Forall₂ s.Leads front uris ∧ s.Fails p last ∧
      r.1 = { w with phase := .idle, pending := [], regeneration := .none } ∧
      r.2.2 = y.2 ++ (uris.map .fine ++ last) ∧
      (∀ ts, ∃ since, ((r.1.steps s ts).run r.2).2.2 = r.2.2 ++ since ∧
        Accounted s [] since) ∧
      ∀ c : Change, w.state.triggers c.path = true → s.Reads c.path →
        (∀ q ∈ rest, ∀ uri, s.Leads q uri → ¬ s.Leads c.path uri) →
        ((∀ ts since, ((r.1.steps s ts).run r.2).2.2 = y.2 ++ since →
            ToldFirst s (front ++ rest) since) ↔
          ∀ q ∈ rest, ∃ uri outcome, s.Leads q uri ∧
            .told uri outcome ∈ uris.map .fine ++ last) := by
  intro r
  obtain ⟨added, hadded, hpasses⟩ := passes_takeBatch (s := s) w y
  have hnotes : r.2.2 = y.2 ++ added := hadded
  have hcases : w.Passes s added r.1 := hpasses
  generalize r = r at hnotes hcases
  obtain ⟨w', y'⟩ := r
  cases hcases with
  | done hdone => exact absurd (hdone.resolve_left (by simp [hopen])) hpending
  | @began _ _ uris hleads => exact .inl ⟨uris, hleads, hnotes, rfl⟩
  | @failed _ front rest uris p last hbatch hleads hfails =>
    refine .inr ⟨front, p, rest, uris, last, hbatch, hleads, hfails, rfl, hnotes, ?_, ?_⟩
    · intro ts
      obtain ⟨since, hsince, hkeeps⟩ := keeps_steps (s := s) ts _ y'
      exact ⟨since, hsince, hkeeps.accounted⟩
    · intro c htriggers hreads hother
      have hfront : ∀ q ∈ front, ∃ uri outcome, s.Leads q uri ∧
          .told uri outcome ∈ uris.map .fine ++ last := by
        intro q hq
        obtain ⟨uri, outcome, hlead, hmem⟩ := told_of_mem_front hleads hq
        exact ⟨uri, outcome, hlead, List.mem_append_left _ hmem⟩
      rw [toldFirst_iff (w := { w with phase := .idle, pending := [], regeneration := .none })
        rfl rfl hopen htriggers hreads hnotes (not_began_of_fails hfails uris)
        fun q hq uri hq' hc => ?_]
      · refine ⟨fun hall q hq => hall q (List.mem_append_right _ hq), fun hrest q hq => ?_⟩
        exact (List.mem_append.1 hq).elim (hfront q) (hrest q)
      · exact (List.mem_append.1 hq).elim (hfront q) fun hq => absurd hc (hother q hq uri hq')

/-- Surroundings in which one file cannot be read. -/
def unreadable (path : String) : Surroundings Unit :=
  let outcome uri := if uri = Uri.ofLocation [path] then some (.generation "invalid start byte")
    else none
  { calm with reread := fun uri => pure (outcome uri) }

theorem uri_of_leads {path p uri : String} {l : Location} (hl : Path.resolved [] p = .ok l)
    (h : (unreadable path).Leads p uri) : uri = Uri.ofLocation l := by
  obtain ⟨_, l', hl', rfl⟩ := h
  rw [Except.ok.inj (hl.symm.trans hl')]

/-- The first of two paths that changed fails. The generation after the next change begins without
the second one having been told of. -/
theorem failing_path_ends_batch_first :
    let s := unreadable "a.graphql"
    let w : Watcher := { calmly with pending := ["a.graphql", "b.graphql"], regeneration := .due }
    let r := (w.takeBatch s.recorded).run ((), [])
    ¬ ∀ ts, ToldFirst s ["b.graphql"] ((r.1.steps s ts).run r.2).2.2 := by
  intro s w r hall
  have htold : r.2.2 =
      [.told (Uri.ofLocation ["a.graphql"]) (some (.generation "invalid start byte"))] := by
    decide +kernel
  have hb : ∀ uri, s.Leads "b.graphql" uri → uri = Uri.ofLocation ["b.graphql"] :=
    fun uri => uri_of_leads (by decide +kernel)
  have hc : ∀ uri, s.Leads "c.graphql" uri → uri = Uri.ofLocation ["c.graphql"] :=
    fun uri => uri_of_leads (by decide +kernel)
  have hreads : s.Reads "c.graphql" := fun () =>
    ⟨["c.graphql"], by decide +kernel, fun () => by decide +kernel⟩
  rcases failing_path_ends_batch s w ((), []) rfl (by simp [w]) with
    ⟨uris, -, hnotes, -⟩ | ⟨front, p, rest, uris, last, hbatch, hleads, -, -, hnotes, -, hnext⟩
  · rw [htold] at hnotes
    have hbegan := congrArg List.getLast? hnotes
    rw [List.nil_append, List.getLast?_append] at hbegan
    exact absurd hbegan (by simp)
  · cases front with
    | nil =>
      obtain ⟨-, rfl⟩ := List.cons.inj hbatch
      obtain rfl := List.forall₂_nil_left_iff.1 hleads
      have hlast : last = r.2.2 := hnotes.symm
      have hafter := hnext ⟨"change", "c.graphql"⟩ (by decide +kernel) hreads (by
        intro q hq uri hq' hc'
        obtain rfl := List.mem_singleton.1 hq
        exact absurd ((hb uri hq').symm.trans (hc uri hc')) (by decide +kernel))
      obtain ⟨uri, outcome, hlead, hmem⟩ := hafter.1 (fun ts since hsince => by
        have htoldFirst : ToldFirst s ["b.graphql"] _ := hall ts
        rwa [hsince] at htoldFirst) "b.graphql" (by simp)
      have hmem : WatchNote.told uri outcome ∈ last := hmem
      rw [hlast, htold, List.mem_singleton, hb uri hlead] at hmem
      exact absurd (WatchNote.told.inj hmem).1 (by decide +kernel)
    | cons q front =>
      obtain ⟨uri, uris, -, -, rfl⟩ := List.forall₂_cons_left_iff.1 hleads
      have hfirst : r.2.2 = .fine uri :: (uris.map .fine ++ last) := hnotes
      rw [htold] at hfirst
      exact absurd (WatchNote.told.inj (List.cons.inj hfirst).1).2 (by simp)

end Watcher
end QueryTypes
