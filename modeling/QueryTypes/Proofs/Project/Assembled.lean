import Mathlib.Data.List.Nodup
import Mathlib.Data.List.Induction
import QueryTypes.Proofs.Outcome
import QueryTypes.Proofs.Project.Job
import QueryTypes.Proofs.Table

/-!
# Assembled documents

The tables of operations and fragments keep the first definition of each name, and none without a
name. Another pass over the same files, with names it has seen, reports definitions without a name
and names that come again. Main statements: that pass reports one entry for each such definition in
reading order, and a document is assembled only when it has nothing to report, with every definition
in its place.
-/

namespace QueryTypes
namespace ClientFiles

variable {files : List ClientFile} {before ds : List Definition} {d : Definition} {l : Location}
  {seen : Seen}

def operationName? (d : Definition) : Option String :=
  d.operation?.bind fun o => o.name.map Name.text

def fragmentName? (d : Definition) : Option String := d.fragment?.map fun f => f.name.text

def operationNames (ds : List Definition) : List String := ds.filterMap operationName?

def fragmentNames (ds : List Definition) : List String := ds.filterMap fragmentName?

/-- An operation without a name. -/
def Nameless (d : Definition) : Prop := ∃ o, d.operation? = some o ∧ o.name = none

/-- The entry for a definition that stands behind others, if it has no name or one of theirs. -/
def objections (l : Location) (before : List Definition) : Definition → List Diagnostic
  | .operation o =>
    match o.name with
    | none => [.about ("Anonymous operations are not supported (" ++ Location.text l ++ ")") o.origin]
    | some n =>
      if n.text ∈ operationNames before then [repeatedName n.text "operation" o.origin] else []
  | .fragment f =>
    if f.name.text ∈ fragmentNames before then [repeatedName f.name.text "fragment" f.origin] else []
  | _ => []

def fileObjections (l : Location) (before ds : List Definition) : List Diagnostic :=
  ds.zipIdx.flatMap fun p => objections l (before ++ ds.take p.2) p.1

/-- All entries, file by file: what could not be read in a file, then the entries for its
definitions, each seen behind all definitions before it. -/
def report (files : List ClientFile) : List Diagnostic :=
  files.zipIdx.flatMap fun p =>
    p.1.problems ++ fileObjections p.1.place (definitions (files.take p.2)) p.1.definitions

/-- Definitions of which none is without a name, and none has the name of another of its kind. -/
structure Distinct (ds : List Definition) : Prop where
  named : ∀ d ∈ ds, ¬ Nameless d
  operations : (operationNames ds).Nodup
  fragments : (fragmentNames ds).Nodup

theorem operationNames_append (ds es : List Definition) :
    operationNames (ds ++ es) = operationNames ds ++ operationNames es := List.filterMap_append

theorem fragmentNames_append (ds es : List Definition) :
    fragmentNames (ds ++ es) = fragmentNames ds ++ fragmentNames es := List.filterMap_append

theorem operationNames_singleton (d : Definition) :
    operationNames [d] = (operationName? d).toList := by
  cases hd : operationName? d <;> simp [operationNames, hd]

theorem fragmentNames_singleton (d : Definition) :
    fragmentNames [d] = (fragmentName? d).toList := by
  cases hd : fragmentName? d <;> simp [fragmentNames, hd]

theorem distinct_nil : Distinct [] := ⟨by simp, List.nodup_nil, List.nodup_nil⟩

theorem nodup_append_toList_iff {xs : List String} {o : Option String} :
    (xs ++ o.toList).Nodup ↔ xs.Nodup ∧ ∀ n, o = some n → n ∉ xs := by
  cases o with
  | none => simp
  | some n =>
    rw [Option.toList_some, List.nodup_append]
    constructor
    · rintro ⟨hxs, -, hne⟩
      refine ⟨hxs, ?_⟩
      rintro m hm hmem
      exact hne m hmem n (by simp) (Option.some.inj hm).symm
    · rintro ⟨hxs, hn⟩
      refine ⟨hxs, by simp, ?_⟩
      intro m hm k hk hmk
      rw [List.mem_singleton] at hk
      rw [hmk, hk] at hm
      exact hn n rfl hm

theorem distinct_snoc_iff : Distinct (before ++ [d]) ↔ Distinct before ∧ ¬ Nameless d ∧
    (∀ n, operationName? d = some n → n ∉ operationNames before) ∧
      ∀ n, fragmentName? d = some n → n ∉ fragmentNames before := by
  constructor
  · rintro ⟨hnamed, hoperations, hfragments⟩
    rw [operationNames_append, operationNames_singleton, nodup_append_toList_iff] at hoperations
    rw [fragmentNames_append, fragmentNames_singleton, nodup_append_toList_iff] at hfragments
    have hbefore : ∀ e ∈ before, ¬ Nameless e := fun e he => hnamed e (List.mem_append_left _ he)
    exact ⟨⟨hbefore, hoperations.1, hfragments.1⟩, hnamed d (by simp), hoperations.2, hfragments.2⟩
  · rintro ⟨⟨hbefore, hoperations, hfragments⟩, hd, hoperation, hfragment⟩
    refine ⟨?_, ?_, ?_⟩
    · intro e he
      rcases List.mem_append.1 he with he | he
      · exact hbefore e he
      · rwa [List.mem_singleton.1 he]
    · rw [operationNames_append, operationNames_singleton, nodup_append_toList_iff]
      exact ⟨hoperations, hoperation⟩
    · rw [fragmentNames_append, fragmentNames_singleton, nodup_append_toList_iff]
      exact ⟨hfragments, hfragment⟩

theorem Distinct.of_append (h : Distinct (before ++ ds)) : Distinct before := by
  induction ds using List.reverseRecOn with
  | nil => simpa using h
  | append_singleton ds d ih =>
    rw [← List.append_assoc] at h
    exact ih (distinct_snoc_iff.1 h).1

/-! ### Names that were seen -/

structure Seen.Holds (seen : Seen) (before : List Definition) : Prop where
  operations : ∀ n, n ∈ seen.operations ↔ n ∈ operationNames before
  fragments : ∀ n, n ∈ seen.fragments ↔ n ∈ fragmentNames before

theorem seen_checkDefinition (l : Location) (seen : Seen) (d : Definition) :
    (checkDefinition l seen d).1 =
      ⟨(operationName? d).toList ++ seen.operations, (fragmentName? d).toList ++ seen.fragments⟩ := by
  cases d with
  | operation o => cases hname : o.name <;>
      simp [checkDefinition, operationName?, fragmentName?, Definition.operation?,
        Definition.fragment?, hname]
  | _ => rfl

theorem Seen.Holds.checkDefinition (h : seen.Holds before) (l : Location) (d : Definition) :
    (checkDefinition l seen d).1.Holds (before ++ [d]) ∧
      (checkDefinition l seen d).2 = objections l before d := by
  constructor
  · rw [seen_checkDefinition]
    constructor
    · intro n
      rw [operationNames_append, operationNames_singleton, List.mem_append, List.mem_append,
        h.operations, or_comm]
    · intro n
      rw [fragmentNames_append, fragmentNames_singleton, List.mem_append, List.mem_append,
        h.fragments, or_comm]
  · cases d with
    | operation o => cases hname : o.name <;>
        simp [ClientFiles.checkDefinition, objections, hname, h.operations]
    | fragment f => simp [ClientFiles.checkDefinition, objections, h.fragments]
    | _ => rfl

theorem flatMap_zipIdx_cons {α β : Type} (x : α) (xs : List α) (g : α × Nat → List β) :
    (x :: xs).zipIdx.flatMap g = g (x, 0) ++ xs.zipIdx.flatMap fun p => g (p.1, p.2 + 1) := by
  rw [List.zipIdx_cons, List.flatMap_cons, List.zipIdx_succ, List.flatMap_map]

theorem fileObjections_cons (l : Location) (before : List Definition) (d : Definition)
    (ds : List Definition) : fileObjections l before (d :: ds) =
      objections l before d ++ fileObjections l (before ++ [d]) ds := by
  rw [fileObjections, flatMap_zipIdx_cons]
  simp [fileObjections]

theorem Seen.Holds.checkDefinitions (h : seen.Holds before) (l : Location)
    (ds : List Definition) :
    (checkDefinitions l seen ds).1.Holds (before ++ ds) ∧
      (checkDefinitions l seen ds).2 = fileObjections l before ds := by
  induction ds generalizing before seen with
  | nil => exact ⟨by simpa [ClientFiles.checkDefinitions] using h, rfl⟩
  | cons d ds ih =>
    obtain ⟨hseen, hfound⟩ := h.checkDefinition l d
    obtain ⟨hrest, hrestfound⟩ := ih hseen
    rw [List.append_assoc, List.singleton_append] at hrest
    refine ⟨hrest, ?_⟩
    rw [fileObjections_cons, ← hfound, ← hrestfound]
    rfl

/-- The pass with the names that it has seen reports what the definitions before each one say. -/
theorem ownProblems_eq_report (files : List ClientFile) :
    ownProblems ⟨[], []⟩ files = report files := by
  -- the names that were seen are those of all files before, which the induction moves on
  have hgeneral : ∀ (files : List ClientFile) (seen : Seen) (before : List Definition),
      seen.Holds before → ownProblems seen files = files.zipIdx.flatMap fun p =>
        p.1.problems ++
          fileObjections p.1.place (before ++ definitions (files.take p.2)) p.1.definitions := by
    intro files
    induction files with
    | nil => exact fun _ _ _ => rfl
    | cons f files ih =>
      intro seen before h
      obtain ⟨hseen, hfound⟩ := h.checkDefinitions f.place f.definitions
      have hrest := ih _ _ hseen
      simp only [ownProblems]
      rw [hfound, hrest, flatMap_zipIdx_cons]
      simp [definitions]
  have h : Seen.Holds ⟨[], []⟩ [] := ⟨by simp [operationNames], by simp [fragmentNames]⟩
  simpa [report] using hgeneral files ⟨[], []⟩ [] h

/-! ### Nothing to report -/

theorem objections_eq_nil_iff : objections l before d = [] ↔ ¬ Nameless d ∧
    (∀ n, operationName? d = some n → n ∉ operationNames before) ∧
      ∀ n, fragmentName? d = some n → n ∉ fragmentNames before := by
  cases d with
  | operation o =>
    cases hname : o.name <;>
      simp [objections, Nameless, operationName?, fragmentName?, Definition.operation?,
        Definition.fragment?, hname]
  | fragment f =>
    simp [objections, Nameless, operationName?, fragmentName?, Definition.operation?,
      Definition.fragment?]
  | _ =>
    simp [objections, Nameless, operationName?, fragmentName?, Definition.operation?,
      Definition.fragment?]

theorem fileObjections_eq_nil_iff (h : Distinct before) :
    fileObjections l before ds = [] ↔ Distinct (before ++ ds) := by
  induction ds generalizing before with
  | nil => simpa [fileObjections] using h
  | cons d ds ih =>
    rw [fileObjections_cons, List.append_eq_nil_iff, objections_eq_nil_iff]
    have hsplit : before ++ d :: ds = before ++ [d] ++ ds := by simp
    rw [hsplit]
    constructor
    · rintro ⟨hd, hds⟩
      exact (ih (distinct_snoc_iff.2 ⟨h, hd⟩)).1 hds
    · intro hall
      have hd := hall.of_append
      exact ⟨(distinct_snoc_iff.1 hd).2, (ih hd).2 hall⟩

theorem report_append_singleton (files : List ClientFile) (f : ClientFile) :
    report (files ++ [f]) =
      report files ++ (f.problems ++ fileObjections f.place (definitions files) f.definitions) := by
  rw [report, List.zipIdx_append, List.flatMap_append]
  congr 1
  · apply List.flatMap_congr
    intro p hp
    have hlt : p.2 < files.length := by simpa using List.snd_lt_add_of_mem_zipIdx hp
    rw [List.take_append_of_le_length (Nat.le_of_lt hlt)]
  · simp

/-- There is nothing to report when every file could be read, every operation has a name, and every
name is used once among operations and once among fragments. -/
theorem report_eq_nil_iff :
    report files = [] ↔ (∀ f ∈ files, f.problems = []) ∧ Distinct (definitions files) := by
  induction files using List.reverseRecOn with
  | nil => simpa [report, definitions] using distinct_nil
  | append_singleton files f ih =>
    have hdefinitions : definitions (files ++ [f]) = definitions files ++ f.definitions := by
      simp [definitions]
    rw [report_append_singleton, List.append_eq_nil_iff, ih, List.append_eq_nil_iff, hdefinitions]
    constructor
    · rintro ⟨⟨hread, hdistinct⟩, hproblems, hobjections⟩
      refine ⟨?_, (fileObjections_eq_nil_iff hdistinct).1 hobjections⟩
      intro g hg
      rcases List.mem_append.1 hg with hg | hg
      · exact hread g hg
      · rwa [List.mem_singleton.1 hg]
    · rintro ⟨hread, hdistinct⟩
      have hbefore := hdistinct.of_append
      exact ⟨⟨fun g hg => hread g (List.mem_append_left _ hg), hbefore⟩, hread f (by simp),
        (fileObjections_eq_nil_iff hbefore).2 hdistinct⟩

/-! ### What is assembled -/

theorem values_operations (h : Distinct (definitions files)) :
    (operations files).values = (definitions files).filterMap Definition.operation? := by
  have hkeys : (((definitions files).filterMap fun d => d.operation?.bind fun o =>
      o.name.map fun n => (n.text, o)).map Prod.fst).Nodup := by
    have hnames : ((definitions files).filterMap fun d =>
        d.operation?.bind fun o => o.name.map Name.text).Nodup := h.operations
    rw [List.map_filterMap]
    simpa [Function.comp_def, Option.map_bind] using hnames
  rw [operations, Table.ofListFirst_of_nodup hkeys, Table.values, List.map_filterMap]
  apply List.filterMap_congr
  intro d hd
  have hnamed := h.named d hd
  cases ho : d.operation? with
  | none => rfl
  | some o =>
    cases hname : o.name with
    | none => exact absurd ⟨o, ho, hname⟩ hnamed
    | some n => simp [hname]

theorem values_fragments (h : Distinct (definitions files)) :
    (fragments files).values = (definitions files).filterMap Definition.fragment? := by
  have hkeys : (((definitions files).filterMap fun d =>
      d.fragment?.map fun f => (f.name.text, f)).map Prod.fst).Nodup := by
    have hnames : ((definitions files).filterMap fun d =>
        d.fragment?.map fun f => f.name.text).Nodup := h.fragments
    rw [List.map_filterMap]
    simpa [Function.comp_def] using hnames
  rw [fragments, Table.ofListFirst_of_nodup hkeys, Table.values, List.map_filterMap]
  apply List.filterMap_congr
  intro d hd
  cases d.fragment? <;> rfl

/-- The tables leave nothing out of files with nothing to report. -/
theorem document_eq (h : Distinct (definitions files)) :
    document files = Document.ofDefinitions (definitions files) := by
  rw [document, values_operations h, values_fragments h]
  rfl

/-- The schema, if there is one, is sound and finds nothing wrong. -/
def Accepted (s : Option Schema) (files : List ClientFile) : Prop :=
  ∀ schema, s = some schema → schemaProblems schema files = .ok []

variable {s : Option Schema}

theorem problems_of_report (h : report files ≠ []) : problems s files = .ok (report files) := by
  unfold problems
  rw [ownProblems_eq_report]
  cases hreport : report files with
  | nil => exact absurd hreport h
  | cons p ps => rfl

theorem problems_of_schema {schema : Schema} (h : report files = []) :
    problems (some schema) files = schemaProblems schema files := by
  unfold problems
  rw [ownProblems_eq_report, h]

theorem problems_none (files : List ClientFile) : problems none files = .ok (report files) := by
  unfold problems
  rw [ownProblems_eq_report]
  cases report files <;> rfl

theorem problems_eq_nil_iff : problems s files = .ok [] ↔ report files = [] ∧ Accepted s files := by
  by_cases hreport : report files = []
  · cases s with
    | none => simp [problems_none, Accepted]
    | some schema => simp [problems_of_schema hreport, hreport, Accepted]
  · simp [problems_of_report hreport, hreport]

/-- How the outcome of assembling follows from what is wrong with the files. -/
theorem assembled_eq (s : Option Schema) (files : List ClientFile) :
    assembled s files = match problems s files with
      | .error e => .error e
      | .ok (p :: ps) => .error (.validation "Validation of GraphQL query document failed"
          ((p :: ps).map Diagnostic.text))
      | .ok [] =>
        if (operations files).isEmpty && (fragments files).isEmpty then .error .nothingToGenerate
        else .ok (document files) := by
  rw [assembled, assemble, validity]
  cases problems s files with
  | error e => rfl
  | ok found =>
    cases found with
    | cons p ps => rfl
    | nil =>
      change (if _ then _ else _) = _
      split <;> rfl

theorem operations_isEmpty_iff (h : Distinct (definitions files)) :
    (operations files).isEmpty = true ↔ (definitions files).filterMap Definition.operation? = [] := by
  rw [← values_operations h, Table.values, List.map_eq_nil_iff, List.isEmpty_iff]

theorem fragments_isEmpty_iff (h : Distinct (definitions files)) :
    (fragments files).isEmpty = true ↔ (definitions files).filterMap Definition.fragment? = [] := by
  rw [← values_fragments h, Table.values, List.map_eq_nil_iff, List.isEmpty_iff]

theorem exists_breakdown_of_schemaProblems {schema : Schema} {e : Failure}
    (h : schemaProblems schema files = .error e) : ∃ f, e = .breakdown f := by
  unfold schemaProblems at h
  cases hbroken : schema.complaints with
  | cons c cs =>
    rw [hbroken] at h
    exact ⟨_, (Except.error.inj h).symm⟩
  | nil =>
    rw [hbroken] at h
    cases hc : Validation.complaints schema (document files) with
    | error d =>
      rw [hc] at h
      exact ⟨_, (Except.error.inj h).symm⟩
    | ok ds =>
      rw [hc] at h
      exact absurd h (by simp [Except.mapError])

theorem exists_breakdown_of_problems {e : Failure} (h : problems s files = .error e) :
    ∃ f, e = .breakdown f := by
  by_cases hreport : report files = []
  · cases s with
    | none => simp [problems_none] at h
    | some schema =>
      rw [problems_of_schema hreport] at h
      exact exists_breakdown_of_schemaProblems h
  · simp [problems_of_report hreport] at h

theorem document_isEmpty_iff (h : Distinct (definitions files)) :
    ((operations files).isEmpty && (fragments files).isEmpty) = true ↔
      (definitions files).filterMap Definition.operation? = [] ∧
        (definitions files).filterMap Definition.fragment? = [] := by
  rw [Bool.and_eq_true, operations_isEmpty_iff h, fragments_isEmpty_iff h]

theorem assembled_of_report (h : report files ≠ []) :
    assembled s files = .error (.validation "Validation of GraphQL query document failed"
      ((report files).map Diagnostic.text)) := by
  rw [assembled_eq, problems_of_report h]
  cases hreport : report files with
  | nil => exact absurd hreport h
  | cons p ps => rfl

theorem assembled_eq_ok_iff {d : Document} : assembled s files = .ok d ↔
    report files = [] ∧ Accepted s files ∧
      ((definitions files).filterMap Definition.operation? ≠ [] ∨
        (definitions files).filterMap Definition.fragment? ≠ []) ∧
      d = Document.ofDefinitions (definitions files) := by
  rw [← and_assoc, ← problems_eq_nil_iff, assembled_eq]
  cases hproblems : problems s files with
  | error e => simp
  | ok found =>
    cases found with
    | cons p ps => simp
    | nil =>
      have hdistinct := (report_eq_nil_iff.1 (problems_eq_nil_iff.1 hproblems).1).2
      rw [← document_eq hdistinct, ← not_and_or, ← document_isEmpty_iff hdistinct]
      by_cases hempty : ((operations files).isEmpty && (fragments files).isEmpty) = true
      · simp [hempty]
      · simp [hempty, eq_comm]

theorem assembled_eq_noDefinitions_iff : (∃ m, assembled s files = .error (.noDefinitions m)) ↔
    report files = [] ∧ Accepted s files ∧
      (definitions files).filterMap Definition.operation? = [] ∧
        (definitions files).filterMap Definition.fragment? = [] := by
  rw [← and_assoc, ← problems_eq_nil_iff, assembled_eq]
  cases hproblems : problems s files with
  | error e =>
    obtain ⟨f, rfl⟩ := exists_breakdown_of_problems hproblems
    simp
  | ok found =>
    cases found with
    | cons p ps => simp
    | nil =>
      have hdistinct := (report_eq_nil_iff.1 (problems_eq_nil_iff.1 hproblems).1).2
      rw [← document_isEmpty_iff hdistinct]
      by_cases hempty : ((operations files).isEmpty && (fragments files).isEmpty) = true
      · simp [hempty, Failure.nothingToGenerate]
      · simp [hempty]

/-- Without a schema, a document that is not assembled for its problems has some to report. -/
theorem report_ne_nil_of_validation {m : String} {ps : List String}
    (h : assembled none files = .error (.validation m ps)) : report files ≠ [] := by
  intro hreport
  rw [assembled_eq, problems_none, hreport] at h
  by_cases hempty : ((operations files).isEmpty && (fragments files).isEmpty) = true
  · simp [hempty, Failure.nothingToGenerate] at h
  · simp [hempty] at h

theorem map_name_operations (h : ∀ d ∈ ds, ¬ Nameless d) :
    (ds.filterMap Definition.operation?).map (fun o => o.name.map Name.text) =
      (operationNames ds).map some := by
  rw [List.map_filterMap, operationNames, List.map_filterMap]
  apply List.filterMap_congr
  intro d hd
  cases ho : d.operation? with
  | none => simp [operationName?, ho]
  | some o =>
    cases hname : o.name with
    | none => exact absurd ⟨o, ho, hname⟩ (h d hd)
    | some n => simp [operationName?, ho, hname]

theorem Distinct.names (h : Distinct ds) :
    (∀ o ∈ (Document.ofDefinitions ds).operations, ∃ n, o.name = some n) ∧
      ((Document.ofDefinitions ds).operations.map fun o => o.name.map Name.text).Nodup ∧
      ((Document.ofDefinitions ds).fragments.map fun f => f.name.text).Nodup := by
  refine ⟨?_, ?_, ?_⟩
  · intro o ho
    obtain ⟨d, hd, ho⟩ := List.mem_filterMap.1 ho
    apply Option.ne_none_iff_exists'.1
    intro hname
    exact h.named d hd ⟨o, ho, hname⟩
  · rw [Document.ofDefinitions, map_name_operations h.named]
    exact List.Nodup.map (fun _ _ heq => Option.some.inj heq) h.operations
  · have hfragments := h.fragments
    rw [fragmentNames] at hfragments
    rw [Document.ofDefinitions, List.map_filterMap]
    exact hfragments

theorem not_flawed_iff : ¬ ((∃ f ∈ files, f.problems ≠ []) ∨
      (∃ o ∈ (definitions files).filterMap Definition.operation?, o.name = none) ∨
      ¬ (operationNames (definitions files)).Nodup ∨
      ¬ (fragmentNames (definitions files)).Nodup) ↔ report files = [] := by
  have hnamed : (∀ d ∈ definitions files, ¬ Nameless d) ↔
      ¬ ∃ o ∈ (definitions files).filterMap Definition.operation?, o.name = none := by
    simp only [Nameless, List.mem_filterMap]
    grind
  rw [report_eq_nil_iff]
  constructor
  · intro h
    simp only [not_or, not_not, ← hnamed] at h
    obtain ⟨hread, hnames, hoperations, hfragments⟩ := h
    exact ⟨by simpa using hread, hnames, hoperations, hfragments⟩
  · rintro ⟨hread, hnames, hoperations, hfragments⟩
    simp only [not_or, not_not, ← hnamed]
    exact ⟨by simpa using hread, hnames, hoperations, hfragments⟩

end ClientFiles

namespace Session

open ClientFiles

variable {s : Session} {files : List ClientFile}

theorem perform_assembled (h : s.project.files = some files) :
    assembled.perform s = (ClientFiles.assembled s.project.schema files, s) := by
  simp [assembled, Session.files, Job.perform_bind, h]

/-- A loaded project is assembled into all of its operations followed by all of its fragments, in
reading order, or not at all. It is not if a file could not be read, an operation has no name, or a
name is used twice among operations or among fragments; then there is one entry for each of these,
in reading order. -/
theorem assembled_keeps_all (h : s.project.files = some files) :
    let outcome := (assembled.perform s).1
    let operations := (definitions files).filterMap Definition.operation?
    let fragments := (definitions files).filterMap Definition.fragment?
    let flawed := (∃ f ∈ files, f.problems ≠ []) ∨ (∃ o ∈ operations, o.name = none) ∨
      ¬ (operationNames (definitions files)).Nodup ∨ ¬ (fragmentNames (definitions files)).Nodup
    (∀ d, outcome = .ok d ↔ ¬ flawed ∧ Accepted s.project.schema files ∧
      (operations ≠ [] ∨ fragments ≠ []) ∧ d = ⟨operations, fragments⟩) ∧
    (∀ d, outcome = .ok d → (∀ o ∈ d.operations, ∃ n, o.name = some n) ∧
      (d.operations.map fun o => o.name.map Name.text).Nodup ∧
      (d.fragments.map fun f => f.name.text).Nodup) ∧
    (flawed → outcome = .error (.validation "Validation of GraphQL query document failed"
      ((report files).map Diagnostic.text))) ∧
    (s.project.schema = none → ¬ flawed → ∀ m ps, outcome ≠ .error (.validation m ps)) ∧
    ((∃ m, outcome = .error (.noDefinitions m)) ↔ ¬ flawed ∧ Accepted s.project.schema files ∧
      operations = [] ∧ fragments = []) := by
  intro outcome operations fragments flawed
  have houtcome : outcome = ClientFiles.assembled s.project.schema files :=
    congrArg Prod.fst (perform_assembled h)
  have hflawed : ¬ flawed ↔ report files = [] := not_flawed_iff
  rw [houtcome, hflawed]
  refine ⟨fun d => assembled_eq_ok_iff, ?_, ?_, ?_, assembled_eq_noDefinitions_iff⟩
  · intro d hd
    obtain ⟨hreport, -, -, rfl⟩ := assembled_eq_ok_iff.1 hd
    exact (report_eq_nil_iff.1 hreport).2.names
  · intro hbad
    exact assembled_of_report fun hreport => hflawed.2 hreport hbad
  · intro hnone hreport m ps hproblems
    rw [hnone] at hproblems
    exact report_ne_nil_of_validation hproblems hreport

def plainOperation (name : Option String) : Operation :=
  ⟨.query, name.map fun n => ⟨n, none⟩, [], [], [], none⟩

def plainFragment (name : String) : Fragment := ⟨⟨name, none⟩, ⟨"T", none⟩, [], [], none⟩

def loadedWith (files : List ClientFile) : Session :=
  ⟨default, { (default : Project) with files := some files, schema := none }, none⟩

/-- The fragment stands in front of the first operation and behind the second one is a declaration. -/
def mixedFiles : List ClientFile := [
  ⟨["a.graphql"], [.fragment (plainFragment "F"), .operation (plainOperation "A")], []⟩,
  ⟨["b.graphql"], [.operation (plainOperation "F"), .type default], []⟩]

theorem assembled_keeps_all_mixed :
    ((assembled.perform (loadedWith mixedFiles)).1 =
      .ok ⟨[plainOperation "A", plainOperation "F"], [plainFragment "F"]⟩) := by
  refine ((assembled_keeps_all (s := loadedWith mixedFiles) rfl).1 _).2 ⟨?_, ?_, ?_, rfl⟩
  · decide
  · intro schema h
    exact absurd h (by simp [loadedWith])
  · exact .inl (List.cons_ne_nil _ _)

example : (report [
    ⟨["a"], [.operation (plainOperation none), .operation (plainOperation "A")], [⟨"unreadable", []⟩]⟩,
    ⟨["b"], [.operation (plainOperation "A"), .fragment (plainFragment "A")], []⟩]).map
      Diagnostic.message = ["unreadable", "Anonymous operations are not supported (/a)",
        "There are multiple definitions for the 'A' operation"] := by
  decide

end Session
end QueryTypes
