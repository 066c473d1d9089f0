import QueryTypes.Proofs.Project.History

/-!
# Projects made ready

The files of a project are loaded by the first call that needs them. What calls do to a session is
said here up to the log: the files that the project holds or finds, the session once they are
loaded, and the session after it was told of a change.
-/

namespace QueryTypes

namespace Session

variable {s : Session} {log : List LogLine}

/-- The session with another log. -/
def noted (s : Session) (log : List LogLine) : Session := { s with world.log := log }

def hushed (s : Session) : Session := s.noted []

/-- The files that the project holds, or else those that it finds. -/
def found (s : Session) : Except Fault (List ClientFile) :=
  match s.project.files with
  | some fs => .ok fs
  | none =>
    match ClientFile.places s.project.globs s.world.tree with
    | .error f => .error f
    | .ok places =>
      match ClientFile.readAll s.project.templateTag s.world.tree places with
      | (_, some f) => .error f
      | (fs, none) => .ok fs

/-- The session with its files loaded, if that can be done. -/
def readied (s : Session) : Session :=
  match s.found with
  | .ok fs => { s with project.files := some fs }
  | .error _ => s

/-- The session with a schema that was loaded. -/
def holding (s : Session) (schema : Schema) : Session :=
  { s with project.schema := some schema, kept := some schema }

/-- What is assembled from the files that the project holds or finds. -/
def assembly (s : Session) (schema : Option Schema) : Except Failure Document :=
  (s.found.mapError .breakdown).bind (ClientFiles.assembled schema)

/-- The known files after a change of one of them. -/
def refreshed (s : Session) (uri : String) (known : List ClientFile) : List ClientFile :=
  match Uri.place? s.world.cwd uri with
  | none => known
  | some l =>
    match ClientFile.lookAgain s.project.globs s.project.templateTag s.world.tree l known with
    | .ok fs => fs
    | .error _ => known

/-- The session after it was told of a change. -/
def told (s : Session) (uri : String) : Session :=
  match s.found with
  | .ok fs => { s with project.files := some (s.refreshed uri fs) }
  | .error _ => s

@[simp] theorem found_noted : (s.noted log).found = s.found := rfl

@[simp] theorem found_holding (schema : Schema) : (s.holding schema).found = s.found := rfl

theorem noted_self (s : Session) : s.noted s.world.log = s := rfl

theorem eq_noted_of_hushed {t : Session} (h : t.hushed = s.hushed) : t = s.noted t.world.log :=
  congrArg (fun u => u.noted t.world.log) h

theorem eq_of_hushed {t : Session} (h : t.hushed = s.hushed) :
    t.project = s.project ∧ t.kept = s.kept := by
  rw [eq_noted_of_hushed h]
  exact ⟨rfl, rfl⟩

theorem found_of_files {fs : List ClientFile} (h : s.project.files = some fs) : s.found = .ok fs := by
  rw [found, h]

theorem readied_of_found {fs : List ClientFile} (h : s.found = .ok fs) :
    s.readied = { s with project.files := some fs } := by
  rw [readied, h]

theorem readied_of_not_found {f : Fault} (h : s.found = .error f) : s.readied = s := by
  rw [readied, h]

theorem readied_of_files {fs : List ClientFile} (h : s.project.files = some fs) : s.readied = s := by
  rw [readied_of_found (found_of_files h), ← h]

theorem readied_noted : (s.noted log).readied = s.readied.noted log := by
  unfold readied
  rw [found_noted]
  cases s.found <;> rfl

theorem readied_holding (schema : Schema) :
    (s.holding schema).readied = s.readied.holding schema := by
  unfold readied
  rw [found_holding]
  cases s.found <;> rfl

theorem found_readied (s : Session) : s.readied.found = s.found := by
  cases h : s.found with
  | error f => rw [readied_of_not_found h, h]
  | ok fs => rw [readied_of_found h]; rfl

theorem readied_readied (s : Session) : s.readied.readied = s.readied := by
  cases h : s.found with
  | error f => rw [readied_of_not_found h, readied_of_not_found h]
  | ok fs => exact readied_of_files (by rw [readied_of_found h])

theorem assembly_readied (s : Session) (schema : Option Schema) :
    s.readied.assembly schema = s.assembly schema := by
  rw [assembly, assembly, found_readied]

/-- Nothing but the files is new in a session made ready. -/
theorem readied_eq (s : Session) : s.readied = { s with project.files := s.readied.project.files } := by
  cases h : s.found with
  | error f => rw [readied_of_not_found h]
  | ok fs => rw [readied_of_found h]

/-- The files of a session made ready are those that it had or, for the first time, those found. -/
theorem files_readied (s : Session) :
    s.readied.project.files = s.project.files ∨ s.project.files = none ∧
      ∃ fs, s.readied.project.files = some fs ∧ s.found = .ok fs := by
  cases hfiles : s.project.files with
  | some fs => exact .inl (by rw [readied_of_files hfiles, hfiles])
  | none =>
    cases hfound : s.found with
    | error f => exact .inl (by rw [readied_of_not_found hfound, hfiles])
    | ok fs => exact .inr ⟨rfl, fs, by rw [readied_of_found hfound], rfl⟩

theorem perform_files_eq (s : Session) :
    ∃ log, files.perform s = (s.found.mapError .breakdown, s.readied.noted log) := by
  cases hfiles : s.project.files with
  | some fs =>
    refine ⟨s.world.log, ?_⟩
    rw [perform_files hfiles, found_of_files hfiles, readied_of_files hfiles, noted_self]
    rfl
  | none =>
    unfold files load
    simp only [Job.perform_bind, Job.perform_get, hfiles]
    cases hplaces : ClientFile.places s.project.globs s.world.tree with
    | error f =>
      have hfound : s.found = .error f := by rw [found, hfiles]; simp only [hplaces]
      refine ⟨s.world.log, ?_⟩
      rw [hfound, readied_of_not_found hfound, noted_self]
      simp only [Option.map_none, Job.perform_bind, Job.perform_setFiles, Job.perform_throw]
      rw [← hfiles]
      rfl
    | ok places =>
      rcases hread : ClientFile.readAll s.project.templateTag s.world.tree places with ⟨fs, fault⟩
      cases fault with
      | some f =>
        have hfound : s.found = .error f := by rw [found, hfiles]; simp only [hplaces, hread]
        refine ⟨s.world.log, ?_⟩
        rw [hfound, readied_of_not_found hfound, noted_self]
        simp only [hread, Option.map_none, Job.perform_bind, Job.perform_setFiles, Job.perform_throw]
        rw [← hfiles]
        rfl
      | none =>
        have hfound : s.found = .ok fs := by rw [found, hfiles]; simp only [hplaces, hread]
        rw [hfound, readied_of_found hfound]
        simp only [hread, Job.perform_bind, Job.perform_setFiles, Job.perform_ofWork,
          Work.perform_debug]
        exact ⟨_, rfl⟩

/-- Checking and assembling does to a session what loading its files does. -/
theorem perform_assembled_eq (s : Session) :
    ∃ log, assembled.perform s = (s.assembly s.project.schema, s.readied.noted log) := by
  obtain ⟨log, hfiles⟩ := perform_files_eq s
  refine ⟨log, ?_⟩
  unfold assembled assembly
  simp only [Job.perform_bind, hfiles]
  cases hfound : s.found with
  | error f => rfl
  | ok fs =>
    rw [readied_of_found hfound]
    simp [Except.mapError, noted, Except.bind]

theorem assembled_holding (s : Session) (schema : Schema) :
    (assembled.perform (s.holding schema)).1 = s.assembly (some schema) := by
  obtain ⟨log, hassembled⟩ := perform_assembled_eq (s.holding schema)
  rw [hassembled]
  rfl

theorem meet_told_of_files {fs : List ClientFile} (h : s.project.files = some fs) (uri : String) :
    ∃ log, s.meet (.told uri) = (s.told uri).noted log := by
  unfold meet told
  rw [found_of_files h]
  rcases perform_fileChanged_cases h uri with
    ⟨l, fs', log, hplace, hlook, hcall⟩ | ⟨⟨e, hcall⟩, hunread⟩
  · refine ⟨log, ?_⟩
    simp only [hcall, refreshed, hplace, hlook]
    rfl
  · refine ⟨s.world.log, ?_⟩
    have hsame : s.refreshed uri fs = fs := by
      unfold refreshed
      cases hplace : Uri.place? s.world.cwd uri with
      | none => rfl
      | some l =>
        cases hlook : ClientFile.lookAgain s.project.globs s.project.templateTag s.world.tree l fs
        with
        | error f => simp only [hlook]
        | ok fs' => exact absurd (ClientFile.readable_of_lookAgain hlook) (hunread l hplace)
    simp only [hcall, hsame]
    rw [← h]
    rfl

/-- A change makes the files load first, and is then looked at. -/
theorem meet_told (s : Session) (uri : String) :
    ∃ log, s.meet (.told uri) = (s.told uri).noted log := by
  obtain ⟨log, hfiles⟩ := perform_files_eq s
  cases hfound : s.found with
  | error f =>
    refine ⟨log, ?_⟩
    rw [hfound, readied_of_not_found hfound] at hfiles
    rw [meet, told, hfound]
    unfold fileChanged
    simp only [Job.perform_bind, hfiles]
    rfl
  | ok fs =>
    rw [hfound] at hfiles
    have hloaded : (s.readied.noted log).project.files = some fs := by
      rw [readied_of_found hfound]
      rfl
    have hlater : s.meet (.told uri) = (s.readied.noted log).meet (.told uri) := by
      unfold meet fileChanged
      simp only [Job.perform_bind, hfiles, perform_files hloaded, Except.mapError]
    obtain ⟨log', hmeet⟩ := meet_told_of_files hloaded uri
    refine ⟨log', ?_⟩
    rw [hlater, hmeet]
    simp only [told, found_noted, hfound, readied_of_found hfound]
    rfl

theorem told_noted (uri : String) : (s.noted log).told uri = (s.told uri).noted log := by
  unfold told
  rw [found_noted]
  cases s.found <;> rfl

theorem told_holding (schema : Schema) (uri : String) :
    (s.holding schema).told uri = (s.told uri).holding schema := by
  unfold told
  rw [found_holding]
  cases s.found <;> rfl

theorem told_readied (s : Session) (uri : String) : s.readied.told uri = s.told uri := by
  cases h : s.found with
  | error f => rw [readied_of_not_found h]
  | ok fs =>
    rw [told, told, found_readied, h, readied_of_found h]
    rfl

/-- What happens to a project is nothing to its schema. -/
theorem schema_meet (s : Session) (h : Happening) :
    (s.meet h).kept = s.kept ∧ (s.meet h).project.schema = s.project.schema := by
  cases h with
  | edit tree => exact ⟨rfl, rfl⟩
  | told uri =>
    obtain ⟨log, hmeet⟩ := meet_told s uri
    rw [hmeet, told]
    cases s.found <;> exact ⟨rfl, rfl⟩

end Session
end QueryTypes
