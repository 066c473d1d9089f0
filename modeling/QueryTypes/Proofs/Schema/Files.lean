import QueryTypes.Proofs.Pipeline.Runs
import QueryTypes.Proofs.Schema.Told
import QueryTypes.Watch.Session

/-!
# Schemas from files of any content

Files that are missing, that do not go together or that are no schema are failures to load one.
Bytes that are no text are not, nor is a whole number of too many digits. Main statement: loading
breaks down on a few kinds of files and on no others, and a session that is watched goes on after a
first generation that failed for its schema exactly if loading did not break down.
-/

namespace QueryTypes

/-- A text with a mark in front is no JSON. -/
theorem Json.read_mark (s : List Char) :
    Json.read (String.ofList ('\uFEFF' :: s)) = .error .malformed := by
  have hskip : Json.skip ('\uFEFF' :: s) = '\uFEFF' :: s := rfl
  have hword : Json.word? ('\uFEFF' :: s) = none := rfl
  have hnumber : Json.readNumber ('\uFEFF' :: s) = .error .malformed := rfl
  rw [Json.read, String.toList_ofList, hskip]
  change (Json.readValue (_ + 1) _ >>= _) = _
  rw [Json.readValue, hword, hnumber]
  · rfl
  all_goals simp

namespace SchemaFiles

variable {readers : SchemaReaders} {t : FileTree} {cwd : Location} {paths : List String}

/-- A file is there, but its bytes are no text. -/
def Undecodable (t : FileTree) (cwd : Location) (path : String) : Prop :=
  ∃ b, (t.findText? cwd path).bind t.bytes? = some b ∧ Text.decode? b = none

theorem text_fault_iff {path : String} {f : Fault} :
    text t cwd path = .error (.fault f) ↔ Undecodable t cwd path ∧ f = .undecodable := by
  rw [text, Undecodable]
  cases hb : (t.findText? cwd path).bind t.bytes? with
  | none => simp
  | some b =>
    cases hs : Text.decode? b with
    | none => simp [hs, eq_comm]
    | some s => simp [hs]

theorem ofDeclarationsWith_fault_iff {read : List Char → Except Unmade Schema}
    {texts : List (List Char)} {f : Fault} : ofDeclarationsWith read texts = .error (.fault f) ↔
      read (Text.joinOn '\n' texts) = .error (.breakdown f) :=
  mapError_loadError_iff

/-- An introspection result breaks down loading: it is no text, has a whole number of too many
digits, or tells something of a schema that its reader breaks down on. -/
inductive ResultBreaks (read : Json → Except Unmade Schema) (t : FileTree) (cwd : Location)
    (path : String) : Fault → Prop
  | bytes (h : Undecodable t cwd path) : ResultBreaks read t cwd path .undecodable
  | digits {s : List Char} (hs : text t cwd path = .ok s)
      (h : Json.read (String.ofList s) = .error .tooManyDigits) :
      ResultBreaks read t cwd path (.badValue "too many digits in a whole number")
  | told {s : List Char} {v : Json} {f : Fault} (hs : text t cwd path = .ok s)
      (hv : Json.read (String.ofList s) = .ok v)
      (hsome : ((told v).field? "__schema").isSome = true)
      (h : read (told v) = .error (.breakdown f)) : ResultBreaks read t cwd path f

/-- Declarations break down loading: the first file that cannot be read is no text, or the reader
breaks down on the text of all. -/
inductive DeclarationsBreak (read : List Char → Except Unmade Schema) (t : FileTree)
    (cwd : Location) (files : List String) : Fault → Prop
  | bytes {front rest : List String} {path : String} (hfiles : files = front ++ path :: rest)
      (hfront : ∀ p ∈ front, ∃ s, text t cwd p = .ok s) (h : Undecodable t cwd path) :
      DeclarationsBreak read t cwd files .undecodable
  | declared {texts : List (List Char)} {f : Fault} (hne : files ≠ [])
      (htexts : files.mapM (text t cwd) = .ok texts)
      (h : read (Text.joinOn '\n' texts) = .error (.breakdown f)) :
      DeclarationsBreak read t cwd files f

/-- Files break down loading: an introspection result on its own, or declarations. -/
def Breaks (readers : SchemaReaders) (t : FileTree) (cwd : Location) (files : List String)
    (f : Fault) : Prop :=
  (∃ path, files = [path] ∧ hasEnding path ".json" = true ∧
      ResultBreaks readers.introspection t cwd path f) ∨
    (∀ p ∈ files, hasEnding p ".json" = false) ∧ DeclarationsBreak readers.declarations t cwd files f

/-- Of the files that were collected, one result on its own is loaded, or declarations. -/
theorem load_of_collect {files : List String} (hfiles : collect t cwd paths = .ok files) :
    loadWith readers t cwd paths = (files.find? (hasEnding · ".json")).elim
      (if files.isEmpty then .error (.schema (.noFiles paths))
        else files.mapM (text t cwd) >>= ofDeclarationsWith readers.declarations)
      fun path => if 1 < files.length then .error (.schema .mixed)
        else text t cwd path >>= ofResultText readers path := by
  have hbind (k : List String → Except LoadError Schema) :
      (Except.mapError LoadError.schema (.ok files) >>= k) = k files := rfl
  rw [loadWith, hfiles, hbind]
  split
  · next path hfind =>
    rw [hfind, Option.elim_some]
    exact ite_congr rfl (fun _ => rfl) fun _ => rfl
  · next hfind =>
    rw [hfind, Option.elim_none]
    exact ite_congr rfl (fun _ => rfl) fun _ => rfl

theorem load_of_declarations {files : List String} (hfiles : collect t cwd paths = .ok files)
    (hkind : ∀ p ∈ files, hasEnding p ".json" = false) : loadWith readers t cwd paths =
      if files.isEmpty then .error (.schema (.noFiles paths))
      else files.mapM (text t cwd) >>= ofDeclarationsWith readers.declarations := by
  have hnone : files.find? (hasEnding · ".json") = none := by
    rw [List.find?_eq_none]
    intro p hp
    rw [hkind p hp]
    decide
  rw [load_of_collect hfiles, hnone, Option.elim_none]

theorem load_of_mixed {files : List String} (hfiles : collect t cwd paths = .ok files)
    (hkind : ∃ p ∈ files, hasEnding p ".json" = true) (hmany : 1 < files.length) :
    loadWith readers t cwd paths = .error (.schema .mixed) := by
  obtain ⟨path, hpath⟩ := Option.isSome_iff_exists.1 (List.find?_isSome.2 hkind)
  rw [load_of_collect hfiles, hpath, Option.elim_some, if_pos hmany]

theorem load_of_result {path : String} (hfiles : collect t cwd paths = .ok [path])
    (hkind : hasEnding path ".json" = true) :
    loadWith readers t cwd paths = text t cwd path >>= ofResultText readers path := by
  have hfound : [path].find? (hasEnding · ".json") = some path := by simp [hkind]
  rw [load_of_collect hfiles, hfound, Option.elim_some]
  exact if_neg (Nat.lt_irrefl 1)

theorem load_result_fault_iff {path : String} (hfiles : collect t cwd paths = .ok [path])
    (hkind : hasEnding path ".json" = true) {f : Fault} :
    loadWith readers t cwd paths = .error (.fault f) ↔
      ResultBreaks readers.introspection t cwd path f := by
  rw [load_of_result hfiles hkind, Outcome.bind_eq_error_iff, text_fault_iff]
  constructor
  · rintro (⟨h, rfl⟩ | ⟨s, hs, h⟩)
    · exact .bytes h
    · rw [ofResultText] at h
      split at h
      · cases h
      · split at h
        · rename_i v hv
          obtain ⟨hsome, h⟩ := ofIntrospectionWith_fault_iff.1 h
          exact .told hs hv hsome h
        · cases h
        · rename_i hread
          injection h with h
          injection h with h
          exact h ▸ .digits hs hread
  · have hmark : ∀ {s}, Json.read (String.ofList s) ≠ .error .malformed →
        ¬s.head? = some '\uFEFF' := by
      intro s hread hhead
      obtain ⟨r, rfl⟩ := List.head?_eq_some_iff.1 hhead
      exact hread (Json.read_mark r)
    rintro (h | ⟨hs, h⟩ | ⟨hs, hv, hsome, h⟩)
    · exact .inl ⟨h, rfl⟩
    · exact .inr ⟨_, hs, by rw [ofResultText, if_neg (hmark (by simp [h])), h]⟩
    · refine .inr ⟨_, hs, ?_⟩
      rw [ofResultText, if_neg (hmark (by simp [hv])), hv]
      exact ofIntrospectionWith_fault_iff.2 ⟨hsome, h⟩

theorem load_declarations_fault_iff {files : List String} (hfiles : collect t cwd paths = .ok files)
    (hkind : ∀ p ∈ files, hasEnding p ".json" = false) {f : Fault} :
    loadWith readers t cwd paths = .error (.fault f) ↔
      DeclarationsBreak readers.declarations t cwd files f := by
  rw [load_of_declarations hfiles hkind]
  constructor
  · intro h
    split at h
    · cases h
    · rename_i hsome
      rcases Outcome.bind_eq_error_iff.1 h with h | ⟨texts, htexts, h⟩
      · obtain ⟨front, path, rest, hsplit, hfront, hpath⟩ := Outcome.mapM_eq_error_iff.1 h
        obtain ⟨hbytes, rfl⟩ := text_fault_iff.1 hpath
        exact .bytes hsplit hfront hbytes
      · exact .declared (by simpa using hsome) htexts (ofDeclarationsWith_fault_iff.1 h)
  · rintro (⟨hsplit, hfront, h⟩ | ⟨hne, htexts, h⟩)
    · rw [if_neg (by simp [hsplit])]
      refine Outcome.bind_eq_error_iff.2 (.inl (Outcome.mapM_eq_error_iff.2 ?_))
      exact ⟨_, _, _, hsplit, hfront, text_fault_iff.2 ⟨h, rfl⟩⟩
    · rw [if_neg (by simpa using hne)]
      refine Outcome.bind_eq_error_iff.2 (.inr ⟨_, htexts, ofDeclarationsWith_fault_iff.2 h⟩)

theorem fault_iff_breaks {f : Fault} : loadWith readers t cwd paths = .error (.fault f) ↔
    ∃ files, collect t cwd paths = .ok files ∧ Breaks readers t cwd files f := by
  cases hfiles : collect t cwd paths with
  | error e =>
    have hload : loadWith readers t cwd paths = .error (.schema e) := by
      rw [loadWith, hfiles]
      rfl
    simp [hload]
  | ok files =>
    simp only [Except.ok.injEq, exists_eq_left']
    by_cases hkind : ∀ p ∈ files, hasEnding p ".json" = false
    · rw [load_declarations_fault_iff hfiles hkind, Breaks]
      refine ⟨fun h => .inr ⟨hkind, h⟩, ?_⟩
      rintro (⟨path, rfl, hjson, -⟩ | ⟨-, h⟩)
      · rw [hkind path (by simp)] at hjson
        cases hjson
      · exact h
    · obtain ⟨path, hpath, hjson⟩ : ∃ p ∈ files, hasEnding p ".json" = true := by simpa using hkind
      have hresult : ∀ {f}, Breaks readers t cwd files f ↔
          ∃ path, files = [path] ∧ hasEnding path ".json" = true ∧
            ResultBreaks readers.introspection t cwd path f :=
        or_iff_left fun h => hkind h.1
      rw [hresult]
      by_cases hmany : 1 < files.length
      · rw [load_of_mixed hfiles ⟨path, hpath, hjson⟩ hmany]
        simp only [Except.error.injEq, reduceCtorEq, false_iff, not_exists, not_and]
        rintro path rfl
        exact absurd hmany (by simp)
      · obtain ⟨path, rfl⟩ : ∃ path, files = [path] :=
          List.length_eq_one_iff.1 (Nat.le_antisymm (Nat.not_lt.1 hmany) (List.length_pos_of_mem hpath))
        obtain rfl := List.mem_singleton.1 hpath
        rw [load_result_fault_iff hfiles hjson]
        simp [hjson]

end SchemaFiles

/-! ### A session that is watched -/

section

variable {readers : SchemaReaders} {paths : List String} {e : LoadError}

theorem SchemaOrigin.perform_resolveFiles {w : World} (tag : Option String)
    (h : SchemaFiles.loadWith readers w.tree w.cwd paths = .error e) :
    ∃ log, (resolveFiles readers paths tag).perform w = (.error e.failure, { w with log := log }) := by
  obtain ⟨log, hnote⟩ : ∃ log, ((SchemaOrigin.files paths).noteTag tag).perform w =
      (.ok (), { w with log := log }) := by
    rw [noteTag]
    split
    · exact ⟨_, rfl⟩
    · exact ⟨w.log, rfl⟩
  refine ⟨log, ?_⟩
  simp only [resolveFiles, Work.perform_bind, hnote, Work.perform_get, h, Work.perform_throw]

namespace Pipeline

/-- A generation for a schema from files, made by given readers. -/
def runFiles (readers : SchemaReaders) (paths : List String) (backend : Generation → Work Nat)
    (r : Request) : Job Nat :=
  runWith (Job.ofWork (SchemaOrigin.resolveFiles readers paths r.schemaTag))
    (fun g => Job.ofWork (backend g)) r

/-- A project whose schema comes from files: its generations use the readers of the program. -/
theorem perform_run_files (send : HttpRequest → Work HttpReply) (backend : Generation → Work Nat)
    (r : Request) {s : Session} (horigin : s.project.origin = some (.files paths)) :
    (run send backend r).perform s = (runFiles .standard paths backend r).perform s := by
  have hresolve : s.project.resolve send r.schemaTag =
      SchemaOrigin.resolveFiles .standard paths r.schemaTag := by
    rw [Project.resolve, horigin]
    rfl
  rw [perform_run, hresolve, record_erases, runFiles]

/-- A generation fails as loading its schema does. -/
theorem perform_runFiles (backend : Generation → Work Nat) (r : Request) {s : Session}
    (hkept : s.kept = none)
    (h : SchemaFiles.loadWith readers s.world.tree s.world.cwd paths = .error e) :
    ∃ log, (runFiles readers paths backend r).perform s =
      (.error e.failure, { s with world := { s.world with log := log } }) := by
  have hbegun : (liftM (Job.ofWork (Work.debug "runner" (purpose r))) : Job Unit).perform s =
      (.ok (), begun r s) := rfl
  have hget : (liftM (get : Job Session) : Job Session).perform (begun r s) =
      (.ok (begun r s), begun r s) := rfl
  obtain ⟨log, hresolve⟩ :=
    SchemaOrigin.perform_resolveFiles (w := (begun r s).world) r.schemaTag h
  refine ⟨log, ?_⟩
  have hbegunKept : (begun r s).kept = none := hkept
  simp only [runFiles, runWith, schema, Session.resolveWith, Job.perform_bind, hbegun, hget,
    hbegunKept, Job.perform_ofWork, hresolve]
  rw [hkept]
  rfl

end Pipeline

namespace WatchedSession

variable {around : Surroundings WatchedSession} {w : WatchedSession}

theorem run_outcomeOf {α : Type} (j : Job α) (w : WatchedSession) :
    (outcomeOf j).run w = (match (j.perform w.session).1 with
      | .ok _ => none
      | .error f => some f, { w with session := (j.perform w.session).2 }) := by
  rcases h : j.perform w.session with ⟨r, session⟩
  cases r <;> simp [outcomeOf, h] <;> rfl

/-- The first generation of a session, and what the watcher makes of it. -/
def opening (generation : Job Nat) (state : WatchState) (s : Session) :
    WatchRun × WatchedSession :=
  let around := surroundings s.world.cwd generation
  (WatchRun.start around (Watcher.ofState state) >>= settle around).run (.ofSession s)

theorem opening_of_error {generation : Job Nat} {s s' : Session} {f : Failure}
    (h : generation.perform s = (.error f, s')) (state : WatchState) :
    opening generation state s = (WatchRun.started (surroundings s.world.cwd generation)
      ⟨{ Watcher.ofState state with phase := .generating }, .first⟩ (some f)).run (.ofSession s') := by
  have hgenerate : (surroundings s.world.cwd generation).generate.run (.ofSession s) =
      ((), { ofSession s' with outcome := some (some f) }) := by
    simp only [surroundings, StateT.run_bind, run_outcomeOf, ofSession, h]
    rfl
  simp only [opening, WatchRun.start, Watcher.start, StateT.run_bind, hgenerate]
  rfl

/-- Watching begins after a failure that is not final, and the failure is written down. -/
theorem started_of_not_fatal {cwd : Location} {generation : Job Nat} {f : Failure}
    (hf : Watcher.fatal? (some f) = none) (w : Watcher) (s : Session) :
    let run := ((WatchRun.started (surroundings cwd generation) ⟨w, .first⟩ (some f)).run
      (.ofSession s))
    run.1.stage = .watching ∧
      ⟨.error, "watch", "Initial generation failed, watching anyway: " ++ f.text⟩ ∈
        run.2.session.world.log := by
  let noted : List LogLine := s.world.log ++
    [⟨.error, "watch", "Initial generation failed, watching anyway: " ++ f.text⟩] ++
    [⟨.info, "watch", "Watching for changes in " ++ Text.joinWith ", " w.state.patterns⟩]
  have hsubscribe : (w.subscribe (surroundings cwd generation) (some f)).run (.ofSession s) =
      (pure ((none, { w with phase := .idle, subscribed := true }),
        { ofSession { s with world := { s.world with log := noted } } with
          subscriptions := [⟨w.state, 0⟩] }) : Id _) := rfl
  have hmem : ⟨.error, "watch", "Initial generation failed, watching anyway: " ++ f.text⟩ ∈ noted := by
    simp [noted]
  simp only [WatchRun.started, Watcher.started, hf, StateT.run_bind, hsubscribe, pure_bind]
  cases w.state.strategy <;> exact ⟨rfl, hmem⟩

/-- A failure that is final: the watcher leaves. -/
theorem started_of_fatal {cwd : Location} {generation : Job Nat} {f g : Failure}
    (hf : Watcher.fatal? (some f) = some g) (w : Watcher) (s : Session) :
    ((WatchRun.started (surroundings cwd generation) ⟨w, .first⟩ (some f)).run
      (.ofSession s)).1.stage = .leaving (.failed g) := by
  simp only [WatchRun.started, Watcher.started, hf, pure_bind, WatchRun.leave,
    Watcher.beginShutdown, Watcher.unsubscribe]
  cases w.closed <;> cases w.subscribed <;> rfl

end WatchedSession

/-- Schema files of any content, and readers of any behaviour. For all paths and every tree, loading
a schema breaks down exactly on files that break it down; it gives a schema or fails for a reason in
all other cases. A session that is watched and has no schema yet: where loading fails for a reason,
this is written down and watching begins; where it breaks down, the watcher leaves. -/
theorem SchemaFiles.load_files_fault_iff (readers : SchemaReaders) (paths : List String) :
    (∀ t cwd f, loadWith readers t cwd paths = .error (.fault f) ↔
      ∃ files, collect t cwd paths = .ok files ∧ Breaks readers t cwd files f) ∧
    ∀ (s : Session) (backend : Generation → Work Nat) (r : Request) (state : WatchState),
      s.kept = none →
      let loaded := loadWith readers s.world.tree s.world.cwd paths
      let run := WatchedSession.opening (Pipeline.runFiles readers paths backend r) state s
      (∀ e, loaded = .error (.schema e) → run.1.stage = .watching ∧
        ⟨.error, "watch", "Initial generation failed, watching anyway: " ++ e.message⟩ ∈
          run.2.session.world.log) ∧
      ∀ f, loaded = .error (.fault f) → run.1.stage = .leaving (.failed (.breakdown f)) := by
  refine ⟨fun t cwd f => fault_iff_breaks, ?_⟩
  intro s backend r state hkept
  refine ⟨fun e he => ?_, fun f hf => ?_⟩
  · obtain ⟨log, hrun⟩ := Pipeline.perform_runFiles backend r hkept he
    rw [WatchedSession.opening_of_error hrun]
    exact WatchedSession.started_of_not_fatal rfl _ _
  · obtain ⟨log, hrun⟩ := Pipeline.perform_runFiles backend r hkept hf
    rw [WatchedSession.opening_of_error hrun]
    exact WatchedSession.started_of_fatal rfl _ _

/-- A file whose bytes are no text, and one that is not there: loading breaks down on the first one
and fails for a reason on the second one, and a session that is watched leaves or goes on. -/
theorem SchemaFiles.load_files_fault_iff_bytes :
    let t : FileTree := ⟨[(["p"], .dir), (["p", "s.graphql"], .file ⟨#[0xff]⟩)]⟩
    let s : Session := { (default : Session) with world := ⟨t, ["p"], []⟩, kept := none }
    let r : Request := ⟨.typescript, none, false, none, .standard, none, "gql"⟩
    let opened (path : String) := WatchedSession.opening
      (Pipeline.runFiles .standard [path] (fun _ => pure 0) r) default s
    load t ["p"] ["s.graphql"] = .error (.fault .undecodable) ∧
      (opened "s.graphql").1.stage = .leaving (.failed (.breakdown .undecodable)) ∧
      (opened "x.graphql").1.stage = .watching := by
  intro t s r opened
  have hbytes : Undecodable t ["p"] "s.graphql" := ⟨⟨#[0xff]⟩, by decide +kernel, by decide +kernel⟩
  have hload : load t ["p"] ["s.graphql"] = .error (.fault .undecodable) := by
    refine ((load_files_fault_iff .standard ["s.graphql"]).1 t ["p"] _).2
      ⟨["s.graphql"], by rfl, .inr ⟨?_, ?_⟩⟩
    · decide
    · exact .bytes (List.nil_append _).symm (by simp) hbytes
  have hmissing : load t ["p"] ["x.graphql"] = .error (.schema (.notFound "x.graphql")) := by rfl
  exact ⟨hload, ((load_files_fault_iff .standard ["s.graphql"]).2 s _ r default rfl).2 _ hload,
    (((load_files_fault_iff .standard ["x.graphql"]).2 s _ r default rfl).1 _ hmissing).1⟩

end

end QueryTypes
