import QueryTypes.Proofs.Execution.Collect
import QueryTypes.Proofs.Shape.Occurrences

/-!
# Occurrences and entries of a level

Each field that an executor reaches on an object occurs on the level. An occurrence without a
condition is reached on every object of the type that the level is for. Every key that occurs has one
entry. It takes its field and type from the first occurrence, and the selections of all of them.
-/

namespace QueryTypes

/-- The occurrence is one of the given field. -/
structure Occurrence.Of (occ : Occurrence) (node : FieldNode) : Prop where
  key : occ.key = node.key
  field : occ.field = node.head.name
  selections : occ.selections = node.selections

namespace Level

variable {E : Execution} {s : Schema} {table : Table Fragment} {visiting : List String}
  {t parent target : NamedType} {conditional : Bool} {ss : List Selection} {occ : Occurrence}
  {node : FieldNode} {c : Option String}

theorem conditionType_eq_ok_iff :
    conditionType s parent c = .ok target ↔
      c = none ∧ parent = target ∨ ∃ n, c = some n ∧ s.composite? n = some target := by
  cases c with
  | none => simp [conditionType]
  | some n =>
    simp only [conditionType, Schema.composite?_eq_some_iff]
    cases hn : s.type? n with
    | none => simp [hn]
    | some u =>
      by_cases hu : u.isComposite = true
      · suffices u = target → target.isComposite = true by simpa [hu, hn] using this
        rintro rfl
        exact hu
      · suffices u = target → target.isComposite = false by simpa [hu, hn] using this
        rintro rfl
        simpa using hu

theorem conditionType_some_iff {n : String} :
    conditionType s parent (some n) = .ok target ↔ s.composite? n = some target := by
  simp [conditionType_eq_ok_iff]

theorem isA_of_meets (htarget : conditionType E.schema parent c = .ok target)
    (hmeets : E.meets t c = true) (ha : E.schema.isA t parent = true) :
    E.schema.isA t target = true := by
  rcases conditionType_eq_ok_iff.1 htarget with ⟨rfl, rfl⟩ | ⟨n, rfl, hn⟩
  · exact ha
  · rw [Execution.meets, (Schema.composite?_eq_some_iff.1 hn).1] at hmeets
    exact hmeets

theorem meets_of_isA (htarget : conditionType E.schema parent c = .ok target)
    (ha : E.schema.isA t target = true) : E.meets t c = true := by
  rcases conditionType_eq_ok_iff.1 htarget with ⟨rfl, rfl⟩ | ⟨n, rfl, hn⟩
  · rfl
  · rw [Execution.meets, (Schema.composite?_eq_some_iff.1 hn).1]
    exact ha

theorem mem_of_conditionType (htarget : conditionType s parent c = .ok target)
    (hparent : parent ∈ s.types) : target ∈ s.types := by
  rcases conditionType_eq_ok_iff.1 htarget with ⟨-, rfl⟩ | ⟨n, -, hn⟩
  · exact hparent
  · exact Schema.mem_of_composite? hn

theorem Occurs.mem_types (h : Occurs s table visiting parent conditional ss occ)
    (hparent : parent ∈ s.types) : occ.parent ∈ s.types := by
  induction h with
  | field => exact hparent
  | inline _ ht _ ih => exact ih (mem_of_conditionType ht hparent)
  | spread _ _ _ ht _ ih => exact ih (mem_of_conditionType ht hparent)

theorem Occurs.conditional_of (h : Occurs s table visiting parent conditional ss occ)
    (hc : conditional = true) : occ.conditional = true := by
  induction h with
  | field => exact hc
  | inline _ _ _ ih => exact ih (by simp [hc])
  | spread _ _ _ _ _ ih => exact ih (by simp [hc])

theorem Occurs.alwaysApplies_of
    (h : Occurs s table visiting target (conditional || !alwaysApplies s target parent) ss occ)
    (hocc : occ.conditional = false) : alwaysApplies s target parent = true := by
  cases hap : alwaysApplies s target parent with
  | true => rfl
  | false =>
    rw [h.conditional_of (by simp [hap])] at hocc
    exact absurd hocc (by simp)

/-- What an executor reaches on an object occurs on a level for the same selections, on a type
that the object has if it has the one of the level. -/
theorem exists_occurs_of_reachesApart (h : Execution.ReachesApart E t visiting ss node) {n : Nat}
    {os : List Occurrence} (hroom : Room E.fragments visiting n)
    (hos : collect E.schema E.fragments n visiting parent conditional ss = .ok os) :
    ∃ occ, Occurs E.schema E.fragments visiting parent conditional ss occ ∧ occ.Of node ∧
      (E.schema.isA t parent = true → E.schema.isA t occ.parent = true) := by
  induction h generalizing n os parent conditional with
  | field hmem => exact ⟨_, .field hmem, ⟨rfl, rfl, rfl⟩, id⟩
  | inline hmem _ hmeets _ ih =>
    rw [collect_eq] at hos
    obtain ⟨here, hhere⟩ := exists_of_occurrences hos _ hmem
    rw [occurrence] at hhere
    obtain ⟨target, htarget, hhere⟩ := Outcome.bind_eq_ok_iff.1 hhere
    rw [← collect_eq] at hhere
    obtain ⟨occ, hocc, hof, hparent⟩ := ih hroom hhere
    exact ⟨occ, .inline hmem htarget hocc, hof,
      fun ha => hparent (isA_of_meets htarget hmeets ha)⟩
  | spread hmem _ hnew hf hmeets _ ih =>
    rw [collect_eq] at hos
    obtain ⟨here, hhere⟩ := exists_of_occurrences hos _ hmem
    obtain ⟨m, rfl, hroom'⟩ := hroom.enter hnew hf
    rw [occurrence, followOf, if_neg (by simpa using hnew), hf] at hhere
    obtain ⟨target, htarget, hhere⟩ := Outcome.bind_eq_ok_iff.1 hhere
    obtain ⟨occ, hocc, hof, hparent⟩ := ih hroom' hhere
    exact ⟨occ, .spread hmem hnew hf htarget hocc, hof,
      fun ha => hparent (isA_of_meets htarget hmeets ha)⟩

theorem isA_of_alwaysApplies (hs : s.Distinct) (hparent : parent ∈ s.types)
    (htarget : target ∈ s.types) (h : alwaysApplies s target parent = true)
    (ha : s.isA t parent = true) : s.isA t target = true := by
  rw [alwaysApplies, Bool.or_eq_true, beq_iff_eq, Bool.and_eq_true, Bool.and_eq_true,
    Bool.not_eq_true'] at h
  rcases h with h | ⟨⟨hta, hpa⟩, hcovers⟩
  · rw [hs.eq_of_name htarget hparent h]
    exact ha
  · rcases Schema.isA_iff.1 ha with hname | ⟨habs, -⟩
    · exact Schema.isA_iff.2 (.inr ⟨hta, (Schema.covers_congr hname).symm.trans hcovers⟩)
    · rw [hpa] at habs
      exact absurd habs (by simp)

/-- An occurrence without a condition is reached on every object of the type of the level. -/
theorem Occurs.reaches (hs : E.schema.Distinct)
    (h : Occurs E.schema E.fragments visiting parent conditional ss occ)
    (hplain : Execution.Plain E.fragments ss) (hparent : parent ∈ E.schema.types)
    (hocc : occ.conditional = false) (ha : E.schema.isA t parent = true) :
    ∃ node, Execution.Reaches E t ss node ∧ occ.Of node ∧ E.schema.isA t occ.parent = true := by
  induction h with
  | field hmem => exact ⟨_, .field hmem (hplain.admits hmem), ⟨rfl, rfl, rfl⟩, ha⟩
  | inline hmem htarget ho ih =>
    have hmem' := mem_of_conditionType htarget hparent
    have ha' := isA_of_alwaysApplies hs hparent hmem' (ho.alwaysApplies_of hocc) ha
    obtain ⟨node, hr, hof, hp⟩ := ih (hplain.mono fun _ hsel => .inline hmem hsel) hmem' hocc ha'
    exact ⟨node, .inline hmem (hplain.admits hmem) (meets_of_isA htarget ha') hr, hof, hp⟩
  | spread hmem hnew hf htarget ho ih =>
    have hmem' := mem_of_conditionType htarget hparent
    have ha' := isA_of_alwaysApplies hs hparent hmem' (ho.alwaysApplies_of hocc) ha
    obtain ⟨node, hr, hof, hp⟩ := ih (hplain.mono fun _ hsel => .spread hmem hf hsel) hmem' hocc ha'
    exact ⟨node, .spread hmem (hplain.admits hmem) hf (meets_of_isA htarget ha') hr, hof, hp⟩

end Level

/-! ### Entries -/

namespace Level

/-- The entry is made of the occurrences that have its key. -/
structure Merges (s : Schema) (table : Table Fragment) (parent : NamedType) (ss : List Selection)
    (e : Entry) : Prop where
  first : ∃ occ, Occurs s table [] parent false ss occ ∧ occ.key = e.key ∧
    occ.field = e.field ∧ occ.parent = e.parent
  mem_selections_iff : ∀ sel, sel ∈ e.selections ↔
    ∃ occ, Occurs s table [] parent false ss occ ∧ occ.key = e.key ∧ sel ∈ occ.selections
  conditional_iff : e.conditional = false ↔
    ∃ occ, Occurs s table [] parent false ss occ ∧ occ.key = e.key ∧ occ.conditional = false

variable {E : Execution} {s : Schema} {table : Table Fragment} {t parent : NamedType}
  {ss : List Selection} {os : List Occurrence} {es : List Entry} {e : Entry} {occ : Occurrence}
  {node : FieldNode}

theorem mem_groupBy_iff {α : Type} {key : α → String} {xs : List α} {g : String × List α} :
    g ∈ groupBy key xs ↔ (∃ x ∈ xs, key x = g.1) ∧ g.2 = xs.filter fun x => key x == g.1 := by
  simp only [groupBy, List.mem_map, List.mem_eraseDups]
  constructor
  · rintro ⟨k, hk, rfl⟩
    exact ⟨hk, rfl⟩
  · rintro ⟨hk, hg⟩
    exact ⟨g.1, hk, by rw [← hg]⟩

theorem merges_of_entry {k : String} (hos : ∀ occ, occ ∈ os ↔ Occurs s table [] parent false ss occ)
    (h : entry k (os.filter fun o => o.key == k) = some e) :
    e.key = k ∧ Merges s table parent ss e := by
  have hmem : ∀ o, o ∈ os.filter (fun o => o.key == k) ↔
      Occurs s table [] parent false ss o ∧ o.key = k := by
    intro o
    rw [List.mem_filter, hos, beq_iff_eq]
  generalize os.filter (fun o => o.key == k) = group at h hmem
  cases group with
  | nil => simp [entry] at h
  | cons o rest =>
    obtain rfl := Option.some.inj h
    obtain ⟨ho, hk⟩ := (hmem o).1 List.mem_cons_self
    refine ⟨rfl, ⟨o, ho, hk, rfl, rfl⟩, ?_, ?_⟩
    · intro sel
      simp only [List.mem_flatMap, hmem, and_assoc]
    · rw [List.all_eq_false]
      simp only [hmem, Bool.not_eq_true, and_assoc]

theorem exists_entry_of_mem {k : String} (hocc : occ ∈ os) (hk : occ.key = k) :
    ∃ e, entry k (os.filter fun o => o.key == k) = some e := by
  have hin : occ ∈ os.filter fun o => o.key == k := List.mem_filter.2 ⟨hocc, by simp [hk]⟩
  generalize os.filter (fun o => o.key == k) = group at hin
  cases group with
  | nil => simp at hin
  | cons o rest => exact ⟨_, rfl⟩

theorem merges_of_entries (h : entries s table parent ss = .ok es) :
    (∀ e ∈ es, Merges s table parent ss e) ∧
      ∀ occ, Occurs s table [] parent false ss occ → ∃ e ∈ es, e.key = occ.key := by
  rw [entries] at h
  obtain ⟨os, hos, h⟩ := Outcome.bind_eq_ok_iff.1 h
  obtain rfl := Except.ok.inj h
  have hmem : ∀ occ, occ ∈ os ↔ Occurs s table [] parent false ss occ :=
    fun occ => mem_collect_iff hos
  constructor
  · intro e he
    obtain ⟨g, hg, he⟩ := List.mem_filterMap.1 he
    rw [(mem_groupBy_iff.1 hg).2] at he
    exact (merges_of_entry hmem he).2
  · intro occ hocc
    have hin := (hmem occ).2 hocc
    obtain ⟨e, he⟩ := exists_entry_of_mem hin rfl
    have hg : (occ.key, os.filter fun o => o.key == occ.key) ∈ groupBy Occurrence.key os :=
      mem_groupBy_iff.2 ⟨⟨occ, hin, rfl⟩, rfl⟩
    exact ⟨e, List.mem_filterMap.2 ⟨_, hg, he⟩, (merges_of_entry hmem he).1⟩

theorem exists_collect_of_entries (h : entries s table parent ss = .ok es) :
    ∃ os, collect s table (table.length + 1) [] parent false ss = .ok os := by
  rw [entries] at h
  obtain ⟨os, hos, -⟩ := Outcome.bind_eq_ok_iff.1 h
  exact ⟨os, hos⟩

theorem key_of_entry {k : String} (h : entry k os = some e) : e.key = k := by
  cases os with
  | nil => simp [entry] at h
  | cons o rest =>
    obtain rfl := Option.some.inj h
    rfl

/-- The entries are those of the keys, each one made of all occurrences of its key. -/
theorem exists_groups_of_entries (h : entries s table parent ss = .ok es) :
    ∃ os, collect s table (table.length + 1) [] parent false ss = .ok os ∧
      es.map Entry.key = (os.map Occurrence.key).eraseDups ∧
      ∀ e ∈ es, entry e.key (os.filter fun o => o.key == e.key) = some e := by
  rw [entries] at h
  obtain ⟨os, hos, h⟩ := Outcome.bind_eq_ok_iff.1 h
  obtain rfl := Except.ok.inj h
  refine ⟨os, hos, ?_, ?_⟩
  · rw [groupBy, List.filterMap_map, List.map_filterMap]
    refine (List.filterMap_congr fun k hk => ?_).trans List.filterMap_some
    obtain ⟨o, ho, hkey⟩ := List.mem_map.1 (List.mem_eraseDups.1 hk)
    obtain ⟨e, he⟩ := exists_entry_of_mem ho hkey
    simp [he, key_of_entry he]
  · intro e he
    obtain ⟨g, hg, he⟩ := List.mem_filterMap.1 he
    rw [(mem_groupBy_iff.1 hg).2] at he
    rw [key_of_entry he, he]

/-- What an executor reaches on an object has an entry, which merges an occurrence of it. -/
theorem exists_entry_of_reaches (h : entries E.schema E.fragments parent ss = .ok es)
    (hr : Execution.ReachesApart E t [] ss node) :
    ∃ occ, Occurs E.schema E.fragments [] parent false ss occ ∧ occ.Of node ∧
      (E.schema.isA t parent = true → E.schema.isA t occ.parent = true) ∧
      ∃ e ∈ es, e.key = node.key := by
  obtain ⟨os, hos⟩ := exists_collect_of_entries h
  obtain ⟨occ, hocc, hof, hparent⟩ := exists_occurs_of_reachesApart hr room_nil hos
  obtain ⟨e, he, hkey⟩ := (merges_of_entries h).2 occ hocc
  exact ⟨occ, hocc, hof, hparent, e, he, hkey.trans hof.key⟩

end Level

end QueryTypes
