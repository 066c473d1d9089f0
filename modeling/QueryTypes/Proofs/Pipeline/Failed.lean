import QueryTypes.Proofs.Pipeline.Runs

/-!
# Failed runs

A run that fails before it calls its backend leaves a session in which, apart from the log, only a
schema can be new and files can be loaded. The next run does the same as if there had been no failed
one, with the schema that was loaded then.
-/

namespace QueryTypes
namespace Session

variable {s s' : Session} {schema? : Option Schema}

/-- The second session is what a failed run leaves of the first one. -/
def Leaves (schema? : Option Schema) (s s' : Session) : Prop :=
  s'.hushed = (s.given schema?).hushed ∨
    (∃ schema, (s.given schema?).kept = some schema) ∧
      s'.hushed = (s.given schema?).readied.hushed

theorem files_given (s : Session) (schema? : Option Schema) :
    (s.given schema?).project.files = s.project.files := by
  cases schema? <;> rfl

theorem told_given (schema? : Option Schema) (uri : String) :
    (s.given schema?).told uri = (s.told uri).given schema? := by
  cases schema? with
  | none => rfl
  | some schema => exact told_holding schema uri

theorem given_noted (log : List LogLine) (schema? : Option Schema) :
    (s.noted log).given schema? = (s.given schema?).noted log := by
  cases schema? <;> rfl

/-- After a change the files are loaded in both sessions. -/
theorem Leaves.told (h : Leaves schema? s s') (uri : String) :
    (s'.meet (.told uri)).hushed = ((s.meet (.told uri)).given schema?).hushed := by
  obtain ⟨log, hlog⟩ := meet_told s uri
  obtain ⟨log', hlog'⟩ := meet_told s' uri
  have htold : s'.told uri = ((s.told uri).given schema?).noted s'.world.log := by
    rcases h with h | ⟨-, h⟩
    · rw [eq_noted_of_hushed h, told_noted, told_given]
      rfl
    · rw [eq_noted_of_hushed h, told_noted, told_readied, told_given]
      rfl
  rw [hlog, hlog', htold, given_noted]
  rfl

theorem hushed_meet (h : s'.hushed = (s.given schema?).hushed) (e : Happening) :
    (s'.meet e).hushed = ((s.meet e).given schema?).hushed := by
  cases e with
  | edit tree =>
    rw [eq_noted_of_hushed h]
    cases schema? <;> rfl
  | told uri => exact Leaves.told (.inl h) uri

theorem hushed_after (h : s'.hushed = (s.given schema?).hushed) (history : List Happening) :
    (s'.after history).hushed = ((s.after history).given schema?).hushed := by
  induction history generalizing s s' with
  | nil => exact h
  | cons e history ih => exact ih (hushed_meet h e)

theorem kept_after (s : Session) (history : List Happening) : (s.after history).kept = s.kept := by
  induction history generalizing s with
  | nil => rfl
  | cons e history ih => exact (ih (s.meet e)).trans (s.schema_meet e).1

/-- Files that were loaded by the failed run are those that a change makes load, unless the tree was
edited before. -/
theorem Leaves.after (h : Leaves schema? s s') {history : List Happening}
    (hfiles : s'.project.files = s.project.files ∨ ∀ e ∈ history, ∃ uri, e = .told uri) :
    Leaves schema? (s.after history) (s'.after history) := by
  rcases h with h | ⟨hkept, h⟩
  · exact .inl (hushed_after h history)
  · rcases hfiles with hfiles | htold
    · have hready : (s.given schema?).readied = s.given schema? := by
        rw [readied_eq, ← (eq_of_hushed h).1, hfiles, ← files_given s schema?]
      rw [hready] at h
      exact .inl (hushed_after h history)
    · cases history with
      | nil => exact .inr ⟨hkept, h⟩
      | cons e history =>
        obtain ⟨uri, rfl⟩ := htold e (by simp)
        exact .inl (hushed_after (Leaves.told (.inr ⟨hkept, h⟩) uri) history)

end Session

namespace Pipeline

open Session

variable {r : Request} {s s' : Session} {schema? : Option Schema}

/-- What a preparation leaves of a session is what it loads, on top of the session. -/
theorem leaves_prepare (answer : Except Failure Schema) :
    Leaves (firstLoaded (prepare r answer s).calls) s (prepare r answer s).session := by
  obtain ⟨schema, hkept, hp⟩ | ⟨f, -, hp⟩ | ⟨schema, -, hp⟩ := prepare_cases r answer s
  all_goals rw [hp]
  · exact .inr ⟨⟨schema, hkept⟩, rfl⟩
  · exact .inl rfl
  · exact .inr ⟨⟨schema, rfl⟩, rfl⟩

theorem prepareFor_readied (s : Session) (calls : List PipelineCall) (schema : Schema) :
    prepareFor r s.readied calls schema = prepareFor r s calls schema := by
  unfold prepareFor
  rw [schema_readied, assembly_readied, readied_readied]

theorem prepare_noted (answer : Except Failure Schema) (log : List LogLine) :
    prepare r answer (s.noted log) =
      { prepare r answer s with session := (prepare r answer s).session.noted log } := by
  cases hkept : s.kept with
  | some schema =>
    rw [prepare_of_kept hkept, prepare_of_kept (s := s.noted log) hkept, prepareFor_noted]
    rfl
  | none =>
    cases answer with
    | error f => rw [prepare_of_error hkept, prepare_of_error (s := s.noted log) hkept]
    | ok schema =>
      have hholding : (s.noted log).holding schema = (s.holding schema).noted log := rfl
      rw [prepare_of_ok hkept, prepare_of_ok (s := s.noted log) hkept, hholding, prepareFor_noted]
      rfl

/-- After a failed run the same is prepared as without it. -/
theorem prepare_of_leaves (h : Leaves schema? s s') (hnew : schema? = none ∨ s.kept = none)
    (answer : Except Failure Schema) :
    let next := prepare r answer s'
    let anew := prepare r (schema?.elim answer .ok) s
    next.result = anew.result ∧ next.session.hushed = anew.session.hushed := by
  -- the sessions differ in what a preparation brings about itself
  have hready : ∀ {t : Session} {schema : Schema}, t.kept = some schema →
      s'.hushed = t.hushed ∨ s'.hushed = t.readied.hushed →
      (prepare r answer s').result = (prepareFor r t [] schema).result ∧
        (prepare r answer s').session.hushed = (prepareFor r t [] schema).session.hushed := by
    intro t schema hkept hs'
    rcases hs' with hs' | hs'
    · rw [eq_noted_of_hushed hs', prepare_noted, prepare_of_kept hkept]
      exact ⟨rfl, rfl⟩
    · rw [eq_noted_of_hushed hs', prepare_noted, prepare_of_kept ((kept_readied t).trans hkept),
        prepareFor_readied]
      exact ⟨rfl, rfl⟩
  cases schema? with
  | some schema =>
    have hkept : s.kept = none := hnew.resolve_left (by simp)
    rw [Option.elim_some, prepare_of_ok hkept]
    exact hready rfl (h.imp_right And.right)
  | none =>
    rcases h with h | ⟨⟨schema, hkept⟩, h⟩
    · rw [eq_noted_of_hushed h, prepare_noted]
      exact ⟨rfl, rfl⟩
    · rw [Option.elim_none, prepare_of_kept (s := s) hkept]
      exact hready hkept (.inr h)

variable {backend : Generation → Work Nat} {x x' : RunRecord} {p p' : Preparation}

/-- The calls of the backend in a run. -/
def generations (x : RunRecord) : List PipelineCall := x.calls.filter PipelineCall.isGenerated

theorem isGenerated_of_prepare (answer : Except Failure Schema) {c : PipelineCall}
    (hc : c ∈ (prepare r answer s).calls) : c.isGenerated = false := by
  obtain ⟨schema, -, hp⟩ | ⟨f, -, hp⟩ | ⟨schema, -, hp⟩ := prepare_cases r answer s
  all_goals rw [hp] at hc
  · exact absurd hc List.not_mem_nil
  · rw [List.mem_singleton.1 hc]
    rfl
  · rw [List.mem_singleton.1 hc]
    rfl

theorem filter_called (p : Preparation) : p.called.filter PipelineCall.isGenerated = p.called := by
  unfold Preparation.called
  cases p.result <;> rfl

theorem generations_of_ends {answer : Except Failure Schema}
    (h : (prepare r answer s).Ends r backend x) : generations x = (prepare r answer s).called := by
  rw [generations, h.calls_eq, List.filter_append, filter_called, List.filter_eq_nil_iff.2,
    List.nil_append]
  intro c hc
  rw [isGenerated_of_prepare answer hc]
  exact Bool.false_ne_true

/-- On a backend that does not look at the log, equal preparations end alike. -/
theorem Preparation.Ends.alike (h : p.Ends r backend x) (h' : p'.Ends r backend x')
    (hbackend : ∀ g, (backend g).IgnoresLog) (hresult : p.result = p'.result)
    (hsession : p.session.hushed = p'.session.hushed) :
    p.called = p'.called ∧ x.outcome = x'.outcome ∧ x.after.hushed = x'.after.hushed := by
  obtain ⟨log, hlog⟩ : ∃ log, p.session = p'.session.noted log :=
    ⟨_, eq_noted_of_hushed hsession⟩
  unfold Ends at h h'
  unfold called
  rw [hresult] at h ⊢
  cases hp : p'.result with
  | error f =>
    simp only [hp] at h h' ⊢
    exact ⟨trivial, h.2.1.trans h'.2.1.symm, (h.2.2.trans hsession).trans h'.2.2.symm⟩
  | ok g =>
    simp only [hp, hlog] at h h' ⊢
    obtain ⟨-, log₁, houtcome, hafter⟩ := h
    obtain ⟨-, log₂, houtcome', hafter'⟩ := h'
    obtain ⟨hanswer, hworld⟩ := hbackend g p'.session.world log₁
    obtain ⟨hanswer', hworld'⟩ := hbackend g p'.session.world log₂
    refine ⟨rfl, ?_, ?_⟩
    · rw [houtcome, houtcome']
      exact congrArg (Except.mapError _) (hanswer.trans hanswer'.symm)
    · have hsame := congrArg (fun w => { p'.session with world := w }) (hworld.trans hworld'.symm)
      exact (hafter.trans hsame).trans hafter'.symm

/-- The run after a failed one does what it would do in its place, with the schema that the failed
run loaded if it loaded one. -/
theorem next_of_leaves (h : Leaves schema? s s') (hnew : schema? = none ∨ s.kept = none)
    {resolver : Work Schema} (hresolver : resolver.Asks)
    (hbackend : ∀ g, (backend g).IgnoresLog) :
    let next := record r resolver backend s'
    let anew := record r (schema?.elim resolver pure) backend s
    generations next = generations anew ∧ next.outcome = anew.outcome ∧
      next.after.hushed = anew.after.hushed := by
  intro next anew
  have hgiven : (schema?.elim resolver pure : Work Schema).Asks := by
    cases schema? with
    | none => exact hresolver
    | some schema => exact .pure schema
  have hnext := ends_record (r := r) hresolver.onlyLogs backend s'
  have hanew := ends_record (r := r) hgiven.onlyLogs backend s
  have hbegun : (begun r s').world = { s.world with log := (begun r s').world.log } := by
    have hworld : s'.world.hushed = s.world.hushed := by
      rcases h with h | ⟨-, h⟩
      · rw [eq_noted_of_hushed h]
        cases schema? <;> rfl
      · rw [eq_noted_of_hushed h, noted, world_readied]
        cases schema? <;> rfl
    exact congrArg (fun w => { w with log := (begun r s').world.log }) hworld
  have hanswer : ((schema?.elim resolver pure : Work Schema).perform (begun r s).world).1 =
      schema?.elim (resolver.perform (begun r s').world).1 .ok := by
    cases schema? with
    | none =>
      rw [hbegun]
      exact (hresolver.ignoresLog s.world _).1.trans (hresolver.ignoresLog s.world _).1.symm
    | some schema => rfl
  rw [hanswer] at hanew
  obtain ⟨hresult, hsession⟩ := prepare_of_leaves (r := r) h hnew
    (resolver.perform (begun r s').world).1
  obtain ⟨hcalled, hsame⟩ := hnext.alike hanew hbackend hresult hsession
  exact ⟨by rw [generations_of_ends hnext, generations_of_ends hanew, hcalled], hsame⟩

theorem error_of_map {d : Except Failure Document} {schema : Schema} {f : Failure}
    (h : d.map (fun d => r.generation d schema) = .error f) : d = .error f := by
  cases d with
  | error e => exact congrArg Except.error (Except.error.inj h)
  | ok d => simp [Except.map] at h

/-- A preparation fails as the resolver does, or as the check against the schema. -/
theorem cause_of_prepare (hs : s.Coherent) {answer : Except Failure Schema} {f : Failure}
    (h : (prepare r answer s).result = .error f) :
    (prepare r answer s).calls = [.resolved (.error f)] ∨
      ∃ schema, (prepare r answer s).session.kept = some schema ∧
        (assembled.perform (s.holding schema)).1 = .error f := by
  obtain ⟨schema, hkept, hp⟩ | ⟨e, -, hp⟩ | ⟨schema, -, hp⟩ := prepare_cases r answer s
  all_goals rw [hp] at h ⊢
  · refine .inr ⟨schema, (kept_readied s).trans hkept, ?_⟩
    rw [assembled_holding, ← hs schema hkept]
    exact error_of_map h
  · obtain rfl := Except.error.inj h
    exact .inl rfl
  · refine .inr ⟨schema, kept_readied (s.holding schema), ?_⟩
    rw [assembled_holding]
    exact error_of_map h

/-- A run that does not call the backend ends where its preparation does. -/
theorem ended_of_no_generation {answer : Except Failure Schema}
    (h : (prepare r answer s).Ends r backend x) (hx : generations x = []) :
    ∃ f, (prepare r answer s).result = .error f ∧ x.calls = (prepare r answer s).calls ∧
      x.outcome = .error f ∧ x.after.hushed = (prepare r answer s).session.hushed := by
  rw [generations_of_ends h, Preparation.called] at hx
  unfold Preparation.Ends at h
  cases hresult : (prepare r answer s).result with
  | error f =>
    rw [hresult] at h
    exact ⟨f, rfl, h⟩
  | ok g => simp [hresult] at hx

theorem world_prepare (answer : Except Failure Schema) :
    (prepare r answer s).session.world = s.world := by
  obtain ⟨schema, -, hp⟩ | ⟨f, -, hp⟩ | ⟨schema, -, hp⟩ := prepare_cases r answer s
  all_goals rw [hp]
  · exact world_readied s
  · exact world_readied (s.holding schema)

/-- A preparation gives a project another schema at most, and files if it had none. -/
theorem project_prepare (answer : Except Failure Schema) :
    ∃ files schema, (prepare r answer s).session.project =
        { s.project with files := files, schema := schema } ∧
      (files = s.project.files ∨ s.project.files = none ∧
        ∃ fs, files = some fs ∧ (Session.files.perform s).1 = .ok fs) := by
  obtain ⟨log, hfiles⟩ := perform_files_eq s
  have hready : s.readied.project.files = s.project.files ∨ s.project.files = none ∧
      ∃ fs, s.readied.project.files = some fs ∧ (Session.files.perform s).1 = .ok fs := by
    refine s.files_readied.imp_right fun ⟨hnone, fs, hfs, hfound⟩ => ⟨hnone, fs, hfs, ?_⟩
    rw [hfiles, hfound]
    rfl
  obtain ⟨schema, -, hp⟩ | ⟨f, -, hp⟩ | ⟨schema, -, hp⟩ := prepare_cases r answer s
  all_goals rw [hp]
  · have hproject : s.readied.project = _ := congrArg Session.project s.readied_eq
    exact ⟨_, s.project.schema, hproject, hready⟩
  · exact ⟨s.project.files, s.project.schema, rfl, .inl rfl⟩
  · have hproject : (s.holding schema).readied.project = _ :=
      congrArg Session.project (s.holding schema).readied_eq
    refine ⟨_, some schema, hproject, ?_⟩
    rw [readied_holding]
    exact hready

/-- What a run without a call of the backend leaves is what its preparation leaves. -/
theorem leaves_of_no_generation {answer : Except Failure Schema}
    (h : (prepare r answer s).Ends r backend x) (hx : generations x = []) :
    Leaves (firstLoaded x.calls) s x.after ∧ (firstLoaded x.calls = none ∨ s.kept = none) := by
  obtain ⟨f, -, hcalls, -, hafter⟩ := ended_of_no_generation h hx
  rw [hcalls]
  constructor
  · exact (leaves_prepare answer).imp hafter.trans (And.imp_right hafter.trans)
  · cases hkept : s.kept with
    | none => exact .inr rfl
    | some schema =>
      rw [prepare_of_kept hkept]
      exact .inl rfl

theorem calls_of_unkept (h : s.kept = none) {answer : Except Failure Schema}
    (hends : (prepare r answer s).Ends r backend x) :
    ∃ answer, x.calls = .resolved answer :: answer.toOption.toList.flatMap (s.callsFor r) := by
  refine ⟨answer, ?_⟩
  rw [hends.calls_eq]
  cases answer with
  | error f =>
    rw [prepare_of_error h]
    rfl
  | ok schema =>
    have hcalled := called_prepareFor (r := r) (s := s.holding schema) rfl
      [.resolved (.ok schema)]
    have hsame : (s.holding schema).callsFor r schema = s.callsFor r schema := rfl
    rw [prepare_of_ok h, hcalled, hsame]
    simp [prepareFor, Except.toOption]

/-- In a sequence of runs and changes the resolver is called once in each run up to its first
success, and then never again. A run calls the backend once, with the schema of that success and the
document that passes the check against it, or it does not call it. Then it fails, and leaves the
files, the project and the schema that it keeps as they were, except that files may be loaded for
the first time and a schema for the first time. A run after it does what it would have done in its
place, on the schema that was loaded then if one was. -/
theorem runs_load_once_and_fail_cleanly (r : Request) {s : Session} (hs : s.kept = none)
    {steps : List PipelineStep}
    (hsteps : ∀ resolver backend, .run resolver backend ∈ steps → resolver.OnlyLogs)
    {earlier later : List RunRecord} {x : RunRecord}
    (hx : records r s steps = earlier ++ x :: later) :
    (loadedIn earlier = none → ∃ answer, x.calls =
      .resolved answer :: answer.toOption.toList.flatMap (x.before.callsFor r)) ∧
    (∀ schema, loadedIn earlier = some schema → x.calls = x.before.callsFor r schema) ∧
    (generations x = [] →
      (∃ f, x.outcome = .error f ∧ (x.calls = [.resolved (.error f)] ∨ ∃ schema,
        x.after.kept = some schema ∧ (assembled.perform (x.before.holding schema)).1 = .error f)) ∧
      x.after.world.tree = x.before.world.tree ∧ x.after.world.cwd = x.before.world.cwd ∧
      (∃ files schema, x.after.project =
        { x.before.project with files := files, schema := schema } ∧
        (files = x.before.project.files ∨ x.before.project.files = none ∧
          ∃ fs, files = some fs ∧ (Session.files.perform x.before).1 = .ok fs)) ∧
      (∀ schema, x.before.kept = some schema →
        x.after.kept = some schema ∧ x.after.project.schema = some schema) ∧
      ∀ history resolver backend, resolver.Asks → (∀ g, (backend g).IgnoresLog) →
        (x.after.project.files = x.before.project.files ∨ ∀ e ∈ history, ∃ uri, e = .told uri) →
        let next := record r resolver backend (x.after.after history)
        let anew := record r ((firstLoaded x.calls).elim resolver pure) backend
          (x.before.after history)
        generations next = generations anew ∧ next.outcome = anew.outcome ∧
          next.after.hushed = anew.after.hushed) := by
  have hnone : s.kept = firstLoaded [] := hs
  have hcoherent : s.Coherent := fun schema h => by simp [hs] at h
  obtain ⟨resolver, backend, hlogs, hrecord, hcoherent, hkept⟩ :=
    exists_record hsteps hnone hcoherent hx
  have hends := ends_record (r := r) hlogs backend x.before
  rw [← hrecord] at hends
  have hkept : x.before.kept = loadedIn earlier := hkept
  refine ⟨?_, ?_, ?_⟩
  · intro hloaded
    rw [hloaded] at hkept
    exact calls_of_unkept hkept hends
  · intro schema hloaded
    rw [hloaded] at hkept
    rw [hends.calls_eq, prepare_of_kept hkept, called_prepareFor (hcoherent schema hkept)]
    rfl
  · intro hgenerations
    obtain ⟨f, hresult, hcalls, hfails, hafter⟩ := ended_of_no_generation hends hgenerations
    obtain ⟨hproject, hkeeps⟩ := hends.project_eq
    have hworld : x.after.world = { x.before.world with log := x.after.world.log } := by
      have hsame := congrArg Session.world (eq_noted_of_hushed hafter)
      rw [noted, world_prepare] at hsame
      exact hsame
    refine ⟨⟨f, hfails, ?_⟩, by rw [hworld], by rw [hworld], ?_, ?_, ?_⟩
    · rw [hcalls, hkeeps]
      exact cause_of_prepare hcoherent hresult
    · rw [hproject]
      exact project_prepare _
    · intro schema hschema
      have hafter : x.after.kept = some schema := by rw [hkeeps, kept_prepare, hschema, Option.some_or]
      refine ⟨hafter, ?_⟩
      rw [hproject]
      exact coherent_prepare hcoherent _ schema (hkeeps.symm.trans hafter)
    · intro history resolver' backend' hresolver' hbackend' hhistory
      obtain ⟨hleaves, hnew⟩ := leaves_of_no_generation hends hgenerations
      rw [← kept_after x.before history] at hnew
      exact next_of_leaves (hleaves.after hhistory) hnew hresolver' hbackend'

/-- A type with one field. -/
def lettersSchema : Schema :=
  ⟨[⟨"Query", none, .object [] [⟨"c", none, [], .named "String" false, none⟩]⟩,
    ⟨"String", none, .scalar⟩], some "Query", none, none, []⟩

def lettersRequest : Request where
  target := .json
  output := some "operations.json"
  flat := false
  only := none
  options := Options.standard
  schemaTag := none
  templateTag := defaultTag

/-- The one query asks for a field that is not there. -/
def lettersSession : Session :=
  opened clientOfAll none ["proj"] none ⟨treeOf "a.graphql" "query A { d }", ["proj"], []⟩

def repair : List Happening := [.edit (treeOf "a.graphql" "query A { c }"), .told "a.graphql"]

/-- The first run has no schema, the second one a query that is wrong, and the third one neither the
one nor the other, although the resolver fails again. -/
theorem runs_load_once_and_fail_cleanly_repaired :
    let outage : Work Schema := throw (.schema "registry unavailable")
    let x₁ := record lettersRequest outage (fun _ => pure 1) lettersSession
    let x₂ := record lettersRequest (pure lettersSchema) (fun _ => pure 1) x₁.after
    let x₃ := record lettersRequest outage (fun _ => pure 1) (x₂.after.after repair)
    (∃ answer, x₂.calls =
      .resolved answer :: answer.toOption.toList.flatMap (x₂.before.callsFor lettersRequest)) ∧
    (∃ f, x₂.outcome = .error f) ∧
    (∃ schema, loadedIn [x₁, x₂] = some schema ∧
      x₃.calls = x₃.before.callsFor lettersRequest schema) ∧ x₃.calls.length = 1 := by
  intro outage x₁ x₂ x₃
  let steps : List PipelineStep := [.run outage fun _ => pure 1,
    .run (pure lettersSchema) fun _ => pure 1, .happens (.edit (treeOf "a.graphql" "query A { c }")),
    .happens (.told "a.graphql"), .run outage fun _ => pure 1]
  have hsteps : ∀ resolver backend, .run resolver backend ∈ steps → resolver.OnlyLogs := by
    intro resolver backend h
    simp only [steps, List.mem_cons, PipelineStep.run.injEq, reduceCtorEq, List.not_mem_nil,
      false_or, or_false] at h
    obtain ⟨rfl, -⟩ | ⟨rfl, -⟩ | ⟨rfl, -⟩ := h
    · exact (Work.Asks.throw _).onlyLogs
    · exact (Work.Asks.pure _).onlyLogs
    · exact (Work.Asks.throw _).onlyLogs
  have hsecond : records lettersRequest lettersSession steps = [x₁] ++ x₂ :: [x₃] := rfl
  have hthird : records lettersRequest lettersSession steps = [x₁, x₂] ++ x₃ :: [] := rfl
  obtain ⟨hfirst, -, hfails⟩ := runs_load_once_and_fail_cleanly lettersRequest rfl hsteps hsecond
  obtain ⟨-, hlater, -⟩ := runs_load_once_and_fail_cleanly lettersRequest rfl hsteps hthird
  have hnone : generations x₂ = [] := List.length_eq_zero_iff.1 (by decide +kernel)
  obtain ⟨schema, hschema⟩ := Option.isSome_iff_exists.1
    (show (loadedIn [x₁, x₂]).isSome = true by decide +kernel)
  have hunloaded : loadedIn [x₁] = none := Option.isNone_iff_eq_none.1 (by decide +kernel)
  obtain ⟨f, hf, -⟩ := (hfails hnone).1
  exact ⟨hfirst hunloaded, ⟨f, hf⟩, ⟨schema, hschema, hlater schema hschema⟩, by decide +kernel⟩

end Pipeline
end QueryTypes
