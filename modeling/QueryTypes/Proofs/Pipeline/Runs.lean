import QueryTypes.Proofs.Pipeline.Calls
import QueryTypes.Proofs.Project.Job
import QueryTypes.Proofs.Project.Ready

/-!
# Sequences of runs

A pipeline runs again and again while its project is told of changes and its tree is edited. A run
is prepared up to the call of its backend, and then calls it or fails. From what a preparation can
be follows how often the resolver and the backend are called, and what a failed run leaves behind.
-/

namespace QueryTypes

/-- A run, with the calls that it makes. -/
structure RunRecord where
  before : Session
  calls : List PipelineCall
  outcome : Except Failure Nat
  after : Session

/-- A pipeline runs, on a resolver and a backend of any behaviour, or something happens to its
project. -/
inductive PipelineStep
  | run (resolver : Work Schema) (backend : Generation → Work Nat)
  | happens (h : Happening)

/-- The schema that the first successful call of the resolver gave. -/
def firstLoaded (calls : List PipelineCall) : Option Schema :=
  calls.findSome? PipelineCall.schema?

theorem firstLoaded_append (calls calls' : List PipelineCall) :
    firstLoaded (calls ++ calls') = (firstLoaded calls).or (firstLoaded calls') :=
  List.findSome?_append

def loadedIn (runs : List RunRecord) : Option Schema := firstLoaded (runs.flatMap RunRecord.calls)

namespace Session

/-- The calls of a run on a schema: one of the backend, if the documents can be loaded and pass the
check against the schema. -/
def callsFor (s : Session) (r : Request) (schema : Schema) : List PipelineCall :=
  match (assembled.perform (s.holding schema)).1 with
  | .ok d => [.generated (r.generation d schema) s.world.tree s.world.cwd]
  | .error _ => []

/-- The schema kept is the one that documents are checked against. -/
def Coherent (s : Session) : Prop := ∀ schema, s.kept = some schema → s.project.schema = some schema

def given (s : Session) : Option Schema → Session
  | none => s
  | some schema => s.holding schema

end Session

namespace Pipeline

variable {r : Request} {resolver : Work Schema} {backend : Generation → Work Nat} {s s' : Session}

def record (r : Request) (resolver : Work Schema) (backend : Generation → Work Nat) (s : Session) :
    RunRecord :=
  let (outcome, after, calls) :=
    (runWith (Recorded.resolve resolver) (Recorded.generate backend) r).perform s []
  ⟨s, calls, outcome, after⟩

/-- Writing down the calls changes nothing about a run. -/
theorem record_erases (r : Request) (resolver : Work Schema) (backend : Generation → Work Nat)
    (s : Session) :
    ((record r resolver backend s).outcome, (record r resolver backend s).after) =
      (runWith (Job.ofWork resolver) (fun g => Job.ofWork (backend g)) r).perform s :=
  Recorded.Erases.runWith (Recorded.Erases.calling _ resolver)
    (fun g => Recorded.Erases.calling _ (backend g)) r s []

/-- The session of a run once it has begun. -/
def begun (r : Request) (s : Session) : Session :=
  s.noted (s.world.log ++ [⟨.debug, "runner", purpose r⟩])

theorem perform_schema_congr {j j' : Job Schema} (h : j.perform s = j'.perform s) :
    (schema j).perform s = (schema j').perform s := by
  have hget : (liftM (get : Job Session) : Job Session).perform s = (.ok s, s) := rfl
  unfold schema Session.resolveWith
  simp only [Job.perform_bind, hget]
  cases s.kept with
  | some schema => rfl
  | none => simp only [Job.perform_bind, h]

/-- A run on the source of the project is one that has it as resolver. -/
theorem perform_run (send : HttpRequest → Work HttpReply) (backend : Generation → Work Nat)
    (r : Request) (s : Session) :
    let x := record r (s.project.resolve send r.schemaTag) backend s
    (run send backend r).perform s = (x.outcome, x.after) := by
  intro x
  have hbegun : (liftM (Job.ofWork (Work.debug "runner" (purpose r))) : Job Unit).perform s =
      (.ok (), begun r s) := rfl
  have horigin : (Session.schemaFromOrigin send r.schemaTag).perform (begun r s) =
      (Job.ofWork (s.project.resolve send r.schemaTag)).perform (begun r s) := rfl
  rw [record_erases]
  unfold run runWith
  simp only [Job.perform_bind, hbegun, perform_schema_congr horigin]

/-- The runs among some steps. -/
def records (r : Request) : Session → List PipelineStep → List RunRecord
  | _, [] => []
  | s, .run resolver backend :: steps =>
    let x := record r resolver backend s
    x :: records r x.after steps
  | s, .happens h :: steps => records r (s.meet h) steps

/-- What a run does up to the call of its backend. -/
structure Preparation where
  calls : List PipelineCall
  result : Except Failure Generation
  session : Session

def prepareFor (r : Request) (s : Session) (calls : List PipelineCall) (schema : Schema) :
    Preparation :=
  ⟨calls, (s.assembly s.project.schema).map fun d => r.generation d schema, s.readied⟩

def prepare (r : Request) (answer : Except Failure Schema) (s : Session) : Preparation :=
  match s.kept with
  | some schema => prepareFor r s [] schema
  | none =>
    match answer with
    | .error f => ⟨[.resolved answer], .error f, s⟩
    | .ok schema => prepareFor r (s.holding schema) [.resolved answer] schema

/-- A run fails as its preparation does, or else calls the backend once. -/
def Preparation.Ends (p : Preparation) (r : Request) (backend : Generation → Work Nat)
    (x : RunRecord) : Prop :=
  match p.result with
  | .error f => x.calls = p.calls ∧ x.outcome = .error f ∧ x.after.hushed = p.session.hushed
  | .ok g => x.calls = p.calls ++ [.generated g p.session.world.tree p.session.world.cwd] ∧
    ∃ log, x.outcome = ((backend g).perform (p.session.noted log).world).1.mapError
        (Failure.during r.target) ∧
      x.after.hushed =
        { p.session with world := ((backend g).perform (p.session.noted log).world).2 }.hushed

theorem perform_runWith (x : Recorded Schema) (backend : Generation → Recorded Nat) (r : Request)
    (s : Session) (calls : List PipelineCall) :
    (runWith x backend r).perform s calls =
      match (schema x).perform (begun r s) calls with
      | (.ok schema, y) => (generate backend r schema).perform y.1 y.2
      | (.error f, y) => (.error f, y) := by
  have hbegun : (Job.ofWork (Work.debug "runner" (purpose r))).perform s = (.ok (), begun r s) := rfl
  unfold runWith
  simp only [Recorded.perform_bind, Recorded.perform_liftM, hbegun]
  rcases (schema x).perform (begun r s) calls with ⟨answer, y⟩
  cases answer <;> rfl

theorem perform_schema_of_kept {schema : Schema} (h : s.kept = some schema) (x : Recorded Schema)
    (calls : List PipelineCall) : (Pipeline.schema x).perform s calls = (.ok schema, s, calls) := by
  simp only [Pipeline.schema, Recorded.perform_bind, Recorded.perform_liftM, Job.perform_get, h]
  rfl

theorem perform_schema (h : s.kept = none) (resolver : Work Schema) (calls : List PipelineCall) :
    (Pipeline.schema (Recorded.resolve resolver)).perform s calls =
      let s' := { s with world := (resolver.perform s.world).2 }
      match (resolver.perform s.world).1 with
      | .error f => (.error f, s', calls ++ [.resolved (.error f)])
      | .ok schema => (.ok schema, s'.holding schema, calls ++ [.resolved (.ok schema)]) := by
  simp only [Pipeline.schema, Recorded.perform_bind, Recorded.perform_liftM, Job.perform_get, h,
    Session.resolveWith, Recorded.resolve, Recorded.perform_calling]
  cases (resolver.perform s.world).1 <;> rfl

theorem perform_generate (backend : Generation → Work Nat) (r : Request) (schema : Schema)
    (s : Session) (calls : List PipelineCall) :
    let y := (generate (Recorded.generate backend) r schema).perform s calls
    (prepareFor r s calls schema).Ends r backend ⟨s, y.2.2, y.1, y.2.1⟩ := by
  obtain ⟨log, hassembled⟩ := Session.perform_assembled_eq s
  unfold generate Preparation.Ends prepareFor
  simp only [Recorded.perform_bind, Recorded.perform_liftM, hassembled]
  cases s.assembly s.project.schema with
  | error f => exact ⟨rfl, rfl, rfl⟩
  | ok d =>
    simp only [Except.map, Recorded.perform_dispatch, Recorded.generate, Recorded.perform_calling]
    -- the line about the files written comes last, and only after success
    cases hn : ((backend (r.generation d schema)).perform (s.readied.noted log).world).1 with
    | error f =>
      simp only [Except.mapError]
      exact ⟨rfl, log, by rw [hn], rfl⟩
    | ok n =>
      simp only [Except.mapError]
      exact ⟨rfl, log, by rw [hn]; rfl, rfl⟩

theorem prepareFor_noted (log : List LogLine) (calls : List PipelineCall) (schema : Schema) :
    prepareFor r (s.noted log) calls schema =
      { prepareFor r s calls schema with session := s.readied.noted log } := by
  unfold prepareFor
  rw [Session.readied_noted]
  rfl

theorem Preparation.ends_noted_iff {p : Preparation} {log : List LogLine} {x : RunRecord} :
    { p with session := p.session.noted log }.Ends r backend x ↔ p.Ends r backend x := by
  unfold Preparation.Ends
  cases p.result <;> rfl

/-- A run is prepared, and ends as that says. -/
theorem ends_record (hresolver : resolver.OnlyLogs) (backend : Generation → Work Nat) (s : Session) :
    (prepare r (resolver.perform (begun r s).world).1 s).Ends r backend
      (record r resolver backend s) := by
  have hgenerate : ∀ (log : List LogLine) (schema : Schema) (s : Session) calls,
      let y := (generate (Recorded.generate backend) r schema).perform (s.noted log) calls
      (prepareFor r s calls schema).Ends r backend ⟨s, y.2.2, y.1, y.2.1⟩ := by
    intro log schema s calls
    have h := perform_generate backend r schema (s.noted log) calls
    rw [prepareFor_noted] at h
    exact Preparation.ends_noted_iff.1 h
  unfold record
  rw [perform_runWith]
  cases hkept : s.kept with
  | some schema =>
    have hbegun : (begun r s).kept = some schema := hkept
    simp only [prepare, hkept, perform_schema_of_kept hbegun]
    exact hgenerate _ schema s []
  | none =>
    have hbegun : (begun r s).kept = none := hkept
    obtain ⟨log, hlog⟩ : ∃ log, { begun r s with
        world := (resolver.perform (begun r s).world).2 } = s.noted log :=
      ⟨_, Session.eq_noted_of_hushed (congrArg (fun w => { begun r s with world := w })
        (hresolver (begun r s).world))⟩
    simp only [prepare, hkept, perform_schema hbegun, hlog]
    cases (resolver.perform (begun r s).world).1 with
    | error f => exact ⟨rfl, rfl, rfl⟩
    | ok schema => exact hgenerate log schema (s.holding schema) _

namespace Preparation

variable {p p' : Preparation} {x x' : RunRecord}

/-- The call of the backend. -/
def called (p : Preparation) : List PipelineCall :=
  match p.result with
  | .ok g => [.generated g p.session.world.tree p.session.world.cwd]
  | .error _ => []

theorem firstLoaded_called (p : Preparation) : firstLoaded p.called = none := by
  unfold called
  cases p.result <;> rfl

theorem Ends.calls_eq (h : p.Ends r backend x) : x.calls = p.calls ++ p.called := by
  unfold Ends at h
  unfold called
  cases hp : p.result with
  | error f =>
    rw [hp] at h
    rw [h.1, List.append_nil]
  | ok g =>
    rw [hp] at h
    exact h.1

/-- A backend changes neither the project nor the schema that is kept. -/
theorem Ends.project_eq (h : p.Ends r backend x) :
    x.after.project = p.session.project ∧ x.after.kept = p.session.kept := by
  unfold Ends at h
  cases hp : p.result with
  | error f =>
    rw [hp] at h
    exact Session.eq_of_hushed h.2.2
  | ok g =>
    rw [hp] at h
    obtain ⟨-, log, -, hafter⟩ := h
    have hsame := Session.eq_of_hushed hafter
    exact hsame

end Preparation

theorem prepare_of_kept {schema : Schema} (h : s.kept = some schema)
    (answer : Except Failure Schema) : prepare r answer s = prepareFor r s [] schema := by
  simp only [prepare, h]

theorem prepare_of_error (h : s.kept = none) (f : Failure) :
    prepare r (.error f) s = ⟨[.resolved (.error f)], .error f, s⟩ := by
  simp only [prepare, h]

theorem prepare_of_ok (h : s.kept = none) (schema : Schema) :
    prepare r (.ok schema) s = prepareFor r (s.holding schema) [.resolved (.ok schema)] schema := by
  simp only [prepare, h]

/-- All that a preparation can be: on the schema kept, on none, or on one that was loaded now. -/
theorem prepare_cases (r : Request) (answer : Except Failure Schema) (s : Session) :
    (∃ schema, s.kept = some schema ∧ prepare r answer s = prepareFor r s [] schema) ∨
    (∃ f, s.kept = none ∧ prepare r answer s = ⟨[.resolved (.error f)], .error f, s⟩) ∨
    ∃ schema, s.kept = none ∧
      prepare r answer s = prepareFor r (s.holding schema) [.resolved (.ok schema)] schema := by
  cases hkept : s.kept with
  | some schema => exact .inl ⟨schema, rfl, prepare_of_kept hkept answer⟩
  | none =>
    cases answer with
    | error f => exact .inr (.inl ⟨f, rfl, prepare_of_error hkept f⟩)
    | ok schema => exact .inr (.inr ⟨schema, rfl, prepare_of_ok hkept schema⟩)

theorem kept_readied (s : Session) : s.readied.kept = s.kept := by rw [Session.readied_eq]

theorem world_readied (s : Session) : s.readied.world = s.world := by rw [Session.readied_eq]

theorem schema_readied (s : Session) : s.readied.project.schema = s.project.schema := by
  rw [Session.readied_eq]

/-- The one call of a run on a schema that the project holds. -/
theorem called_prepareFor {schema : Schema} (h : s.project.schema = some schema)
    (calls : List PipelineCall) : (prepareFor r s calls schema).called = s.callsFor r schema := by
  rw [Session.callsFor, Session.assembled_holding, ← h]
  unfold prepareFor Preparation.called
  cases s.assembly s.project.schema with
  | error f => rfl
  | ok d => simp only [Except.map, world_readied]

theorem kept_prepare (answer : Except Failure Schema) :
    (prepare r answer s).session.kept = s.kept.or (firstLoaded (prepare r answer s).calls) := by
  obtain ⟨schema, hkept, hp⟩ | ⟨f, hkept, hp⟩ | ⟨schema, hkept, hp⟩ := prepare_cases r answer s
  all_goals rw [hp, hkept]
  · exact (kept_readied s).trans hkept
  · rfl
  · exact kept_readied (s.holding schema)

theorem coherent_readied (h : s.Coherent) : s.readied.Coherent := by
  unfold Session.Coherent
  rw [kept_readied, schema_readied]
  exact h

theorem coherent_prepare (h : s.Coherent) (answer : Except Failure Schema) :
    (prepare r answer s).session.Coherent := by
  obtain ⟨schema, -, hp⟩ | ⟨f, -, hp⟩ | ⟨schema, -, hp⟩ := prepare_cases r answer s
  all_goals rw [hp]
  · exact coherent_readied h
  · exact h
  · exact coherent_readied fun _ hschema => hschema

/-- Every run of a sequence starts on the schema that the runs before it loaded. -/
theorem exists_record {steps : List PipelineStep} {earlier later : List RunRecord} {x : RunRecord}
    (hsteps : ∀ resolver backend, .run resolver backend ∈ steps → resolver.OnlyLogs)
    {calls : List PipelineCall} (hkept : s.kept = firstLoaded calls) (hs : s.Coherent)
    (hx : records r s steps = earlier ++ x :: later) :
    ∃ resolver backend, resolver.OnlyLogs ∧ x = record r resolver backend x.before ∧
      x.before.Coherent ∧
      x.before.kept = firstLoaded (calls ++ earlier.flatMap RunRecord.calls) := by
  induction steps generalizing s calls earlier with
  | nil => simp [records] at hx
  | cons step steps ih =>
    have hrest := fun resolver backend h =>
      hsteps resolver backend (List.mem_cons_of_mem step h)
    cases step with
    | happens h =>
      obtain ⟨hk, hschema⟩ := s.schema_meet h
      refine ih hrest (hk.trans hkept) ?_ hx
      unfold Session.Coherent
      rw [hk, hschema]
      exact hs
    | run resolver backend =>
      have hlogs := hsteps resolver backend (by simp)
      have hends := ends_record (r := r) hlogs backend s
      rw [records] at hx
      cases earlier with
      | nil =>
        obtain ⟨rfl, -⟩ := List.cons.inj hx
        exact ⟨resolver, backend, hlogs, rfl, hs, by
          rw [List.flatMap_nil, List.append_nil]; exact hkept⟩
      | cons y earlier =>
        obtain ⟨rfl, hlater⟩ := List.cons.inj hx
        obtain ⟨hproject, hk⟩ := hends.project_eq
        rw [List.flatMap_cons, ← List.append_assoc]
        refine ih hrest ?_ ?_ hlater
        · rw [hk, kept_prepare, hkept, hends.calls_eq, firstLoaded_append, firstLoaded_append,
            Preparation.firstLoaded_called, Option.or_none]
        · unfold Session.Coherent
          rw [hproject, hk]
          exact coherent_prepare hs _

end Pipeline
end QueryTypes
