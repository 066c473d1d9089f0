import QueryTypes.Proofs.Shape.Literals

/-!
# Blocks that begin with the name of the type

Where every block begins with `__typename`, the first selection of that key on a level stands on the
type of the level. At the top of an operation, where the field is not added, it stands on the root
type or on the condition of a selection there. The fields that are added to blocks make such a
document of every one that asks for the name of the type first, wherever it does.
-/

namespace QueryTypes

open Execution (deep deepAll)

namespace Selection

variable {check check' : Selection → Bool} {sel : Selection} {ss : List Selection}

/-- There are no selections, or the first one asks for the name of the type. -/
def isHeaded (ss : List Selection) : Bool := ss.isEmpty || ss.head?.any isTypename

/-- If one of the selections asks for the name of the type, the first one does. -/
def isOrderly (ss : List Selection) : Bool := !ss.any isTypename || ss.head?.any isTypename

/-- The field `__typename` has its own key, no other field has it, and the block below is as it
should be. -/
def hasBlock (block : List Selection → Bool) : Selection → Bool
  | .field h _ below => (h.key == "__typename") == (h.name == "__typename") && block below
  | .spread .. => true
  | .inline _ _ below _ => block below

theorem isTypename_addTypename (sel : Selection) : sel.addTypename.isTypename = sel.isTypename := by
  cases sel <;> rfl

theorem addTypenames_eq_map (ss : List Selection) : addTypenames ss = ss.map addTypename := by
  induction ss with
  | nil => rfl
  | cons sel ss ih => rw [addTypenames, ih, List.map_cons]

theorem any_isTypename_addTypenames (ss : List Selection) :
    (addTypenames ss).any isTypename = ss.any isTypename := by
  rw [addTypenames_eq_map, List.any_map]
  exact congrArg (List.any ss) (funext isTypename_addTypename)

theorem isHeaded_withTypename (h : isOrderly ss = true) :
    isHeaded (withTypename (addTypenames ss)) = true := by
  cases ss with
  | nil => rfl
  | cons sel rest =>
    rw [withTypename, any_isTypename_addTypenames, addTypenames]
    by_cases hany : (sel :: rest).any isTypename = true
    · rw [isOrderly, hany] at h
      rw [hany, Bool.or_true, if_pos rfl, isHeaded, List.head?_cons, Option.any_some,
        isTypename_addTypename]
      simpa using h
    · rw [if_neg (by simpa using hany)]
      rfl

theorem isHeaded_flatMap {α : Type} {below : α → List Selection} {xs : List α}
    (h : ∀ x ∈ xs, isHeaded (below x) = true) : isHeaded (xs.flatMap below) = true := by
  induction xs with
  | nil => rfl
  | cons x xs ih =>
    rw [List.flatMap_cons]
    have hx := h x List.mem_cons_self
    cases hbelow : below x with
    | nil => exact ih fun y hy => h y (List.mem_cons_of_mem _ hy)
    | cons sel rest =>
      rw [hbelow] at hx
      exact hx

mutual
/-- What a check asks for before the names of types are added gives what one asks for then. -/
theorem deep_addTypename_of (htypename : deep check' typenameField = true)
    (hcheck : ∀ sel : Selection, check sel = true → check' sel.addTypename = true) :
    (sel : Selection) → deep check sel = true → deep check' sel.addTypename = true
  | .field h b ss, hsel => by
    rw [deep, Bool.and_eq_true] at hsel
    rw [addTypename, deep, Bool.and_eq_true]
    exact ⟨hcheck _ hsel.1, deepAll_withTypename_of htypename hcheck ss hsel.2⟩
  | .spread n ds o, hsel => hcheck _ hsel
  | .inline c ds ss o, hsel => by
    rw [deep, Bool.and_eq_true] at hsel
    rw [addTypename, deep, Bool.and_eq_true]
    exact ⟨hcheck _ hsel.1, deepAll_withTypename_of htypename hcheck ss hsel.2⟩

theorem deepAll_addTypenames_of (htypename : deep check' typenameField = true)
    (hcheck : ∀ sel : Selection, check sel = true → check' sel.addTypename = true) :
    (ss : List Selection) → deepAll check ss = true → deepAll check' (addTypenames ss) = true
  | [], _ => rfl
  | sel :: rest, hss => by
    rw [deepAll, Bool.and_eq_true] at hss
    rw [addTypenames, deepAll, Bool.and_eq_true]
    exact ⟨deep_addTypename_of htypename hcheck sel hss.1,
      deepAll_addTypenames_of htypename hcheck rest hss.2⟩

theorem deepAll_withTypename_of (htypename : deep check' typenameField = true)
    (hcheck : ∀ sel : Selection, check sel = true → check' sel.addTypename = true)
    (ss : List Selection) (hss : deepAll check ss = true) :
    deepAll check' (withTypename (addTypenames ss)) = true := by
  rw [deepAll_withTypename (by simpa [typenameField, deep, deepAll] using htypename)]
  exact deepAll_addTypenames_of htypename hcheck ss hss
end

theorem hasBlock_addTypename (h : sel.hasBlock isOrderly = true) :
    sel.addTypename.hasBlock isHeaded = true := by
  cases sel with
  | field head b ss =>
    rw [hasBlock, Bool.and_eq_true] at h
    rw [addTypename, hasBlock, Bool.and_eq_true]
    exact ⟨h.1, isHeaded_withTypename h.2⟩
  | spread n ds o => rfl
  | inline c ds ss o => exact isHeaded_withTypename h

end Selection

/-- Every block of the document, those of operations aside, is as it should be. -/
structure Document.HasBlocks (block : List Selection → Bool) (d : Document) : Prop where
  operations : ∀ o ∈ d.operations, deepAll (Selection.hasBlock block) o.selections = true
  fragments : ∀ f ∈ d.fragments, block f.selections = true ∧
    deepAll (Selection.hasBlock block) f.selections = true

theorem Document.HasBlocks.addTypename {d : Document} (h : d.HasBlocks Selection.isOrderly) :
    d.addTypename.HasBlocks Selection.isHeaded where
  operations o ho := by
    obtain ⟨o, hmem, rfl⟩ := List.mem_map.1 ho
    exact Selection.deepAll_addTypenames_of rfl (fun _ => Selection.hasBlock_addTypename) _
      (h.operations o hmem)
  fragments f hf := by
    obtain ⟨f, hmem, rfl⟩ := List.mem_map.1 hf
    obtain ⟨hblock, hdeep⟩ := h.fragments f hmem
    exact ⟨Selection.isHeaded_withTypename hblock,
      Selection.deepAll_withTypename_of rfl (fun _ => Selection.hasBlock_addTypename) _ hdeep⟩

/-! ### The first selection of the key -/

theorem Schema.possibleTypes_of_isObject {s : Schema} {t : NamedType} (h : t.isObject = true) :
    s.possibleTypes t = [t] := by
  obtain ⟨name, description, body⟩ := t
  cases body with
  | object is fs => rfl
  | scalar | interface | union | enum | input => cases h

/-- The type that a condition or a fragment leads to. -/
def Selection.target? (s : Schema) (table : Table Fragment) : Selection → Option NamedType
  | .inline (some c) .. => s.composite? c.text
  | .spread n .. => (table.get? n.text).bind fun f => s.composite? f.condition.text
  | _ => none

theorem Selection.target?_addTypename (s : Schema) (d : Document) (sel : Selection) :
    sel.addTypename.target? s d.addTypename.fragmentTable = sel.target? s d.fragmentTable := by
  cases sel with
  | field h b ss => rfl
  | spread n ds o =>
    rw [addTypename, target?, target?, get?_addTypename, Option.bind_map]
    rfl
  | inline c ds ss o => cases c <;> rfl

namespace Level

variable {s : Schema} {table : Table Fragment} {parent : NamedType} {conditional : Bool}
  {ss : List Selection} {sel : Selection} {os : List Occurrence} {es : List Entry} {e : Entry}
  {occ : Occurrence} {follow : Follow} {n : Nat}

/-- The first of the fields that has the key for the name of the type. -/
def typename? (os : List Occurrence) : Option Occurrence :=
  os.find? fun o => o.key == "__typename"

theorem typename?_append {os os' : List Occurrence} (h : typename? (os ++ os') = some occ) :
    typename? os = some occ ∨ typename? os' = some occ := by
  rw [typename?, List.find?_append, Option.or_eq_some_iff] at h
  exact h.imp_right And.right

theorem parent_of_headed (hss : Selection.isHeaded ss = true)
    (hos : occurrences s follow parent conditional ss = .ok os) (hocc : typename? os = some occ) :
    occ.parent = parent := by
  cases ss with
  | nil =>
    obtain rfl := Except.ok.inj hos
    simp [typename?] at hocc
  | cons sel rest =>
    rw [Selection.isHeaded, List.isEmpty_cons, Bool.false_or, List.head?_cons, Option.any_some]
      at hss
    cases sel with
    | spread | inline => simp [Selection.isTypename] at hss
    | field h b below =>
      rw [Selection.isTypename, Bool.and_eq_true, beq_iff_eq, Option.isNone_iff_eq_none] at hss
      rw [occurrences] at hos
      obtain ⟨here, hhere, hos⟩ := Outcome.bind_eq_ok_iff.1 hos
      obtain ⟨later, -, hos⟩ := Outcome.bind_eq_ok_iff.1 hos
      obtain rfl := Except.ok.inj hhere
      obtain rfl := Except.ok.inj hos
      have hkey : h.key = "__typename" := by rw [FieldHead.key, hss.2, Option.getD_none, hss.1]
      rw [typename?, List.singleton_append, List.find?_cons_of_pos (by simpa using hkey)] at hocc
      rw [← Option.some.inj hocc]

/-- In front of a selection stands the type that it is on, or the one that it leads to. -/
theorem parent_of_occurrence (htable : ∀ name f, table.get? name = some f →
      Selection.isHeaded f.selections = true)
    (hsel : sel.hasBlock Selection.isHeaded = true)
    (hos : occurrence s (followOf s table n []) parent conditional sel = .ok os)
    (hocc : typename? os = some occ) :
    occ.parent = parent ∨ sel.target? s table = some occ.parent := by
  cases sel with
  | field h b below =>
    obtain rfl := Except.ok.inj hos
    exact .inl (by rw [List.mem_singleton.1 (List.mem_of_find?_eq_some hocc)])
  | spread name ds o =>
    rw [occurrence] at hos
    cases n with
    | zero =>
      obtain rfl := Except.ok.inj hos
      simp [typename?] at hocc
    | succ n =>
      rw [followOf, if_neg (by simp)] at hos
      cases hf : table.get? name.text with
      | none =>
        rw [hf] at hos
        exact absurd hos (by simp)
      | some f =>
        rw [hf] at hos
        obtain ⟨target, ht, hos⟩ := Outcome.bind_eq_ok_iff.1 hos
        rw [collect_eq] at hos
        -- the fragment is not inside itself here, so its whole block was gone through
        right
        rw [Selection.target?, hf, Option.bind_some, parent_of_headed (htable _ f hf) hos hocc]
        exact conditionType_some_iff.1 ht
  | inline c ds below o =>
    rw [occurrence] at hos
    obtain ⟨target, ht, hos⟩ := Outcome.bind_eq_ok_iff.1 hos
    rw [parent_of_headed hsel hos hocc]
    cases c with
    | none => exact .inl (Except.ok.inj ht).symm
    | some c => exact .inr (conditionType_some_iff.1 ht)

theorem parent_of_occurrences (htable : ∀ name f, table.get? name = some f →
      Selection.isHeaded f.selections = true)
    (hss : ∀ sel ∈ ss, sel.hasBlock Selection.isHeaded = true)
    (hos : occurrences s (followOf s table n []) parent conditional ss = .ok os)
    (hocc : typename? os = some occ) :
    occ.parent = parent ∨ ∃ sel ∈ ss, sel.target? s table = some occ.parent := by
  induction ss generalizing os with
  | nil =>
    obtain rfl := Except.ok.inj hos
    simp [typename?] at hocc
  | cons sel rest ih =>
    rw [occurrences] at hos
    obtain ⟨here, hhere, hos⟩ := Outcome.bind_eq_ok_iff.1 hos
    obtain ⟨later, hlater, hos⟩ := Outcome.bind_eq_ok_iff.1 hos
    obtain rfl := Except.ok.inj hos
    obtain ⟨hsel, hrest⟩ := List.forall_mem_cons.1 hss
    rcases typename?_append hocc with hocc | hocc
    · refine (parent_of_occurrence htable hsel hhere hocc).imp_right fun ht => ?_
      exact ⟨sel, List.mem_cons_self, ht⟩
    · refine (ih hrest hlater hocc).imp_right fun ⟨sel', hsel', ht⟩ => ?_
      exact ⟨sel', List.mem_cons_of_mem _ hsel', ht⟩

theorem exists_typename_of_entries (hes : entries s table parent ss = .ok es) (he : e ∈ es)
    (hkey : e.key = "__typename") : ∃ os occ,
      occurrences s (followOf s table (table.length + 1) []) parent false ss = .ok os ∧
      typename? os = some occ ∧ occ.parent = e.parent := by
  obtain ⟨os, hos, -, hgroups⟩ := exists_groups_of_entries hes
  have hgroup := hgroups e he
  rw [hkey] at hgroup
  rw [collect_eq] at hos
  cases hfilter : os.filter fun o => o.key == "__typename" with
  | nil =>
    rw [hfilter] at hgroup
    simp [entry] at hgroup
  | cons occ rest =>
    rw [hfilter] at hgroup
    refine ⟨os, occ, hos, ?_, ?_⟩
    · rw [typename?, ← List.head?_filter, hfilter, List.head?_cons]
    · rw [← Option.some.inj hgroup]

theorem isHeaded_of_entries (hes : entries s table parent ss = .ok es) (he : e ∈ es)
    (htable : ∀ name f, table.get? name = some f →
      deepAll (Selection.hasBlock Selection.isHeaded) f.selections = true)
    (hss : deepAll (Selection.hasBlock Selection.isHeaded) ss = true) :
    Selection.isHeaded e.selections = true := by
  obtain ⟨os, hos, -, hgroups⟩ := exists_groups_of_entries hes
  have hgroup := hgroups e he
  have hheaded : ∀ occ ∈ os.filter fun o => o.key == e.key,
      Selection.isHeaded occ.selections = true := by
    intro occ hocc
    have hoccurs := (mem_collect_iff hos).1 (List.mem_filter.1 hocc).1
    obtain ⟨⟨head, b, -, -, hcheck⟩, -⟩ := hoccurs.check htable hss
    rw [Selection.hasBlock, Bool.and_eq_true] at hcheck
    exact hcheck.2
  generalize os.filter (fun o => o.key == e.key) = group at hgroup hheaded
  cases group with
  | nil => simp [entry] at hgroup
  | cons occ rest =>
    rw [← Option.some.inj hgroup]
    exact Selection.isHeaded_flatMap hheaded

end Level

namespace ShapeContext

variable {cx : ShapeContext} {root q : NamedType} {all tt : List Selection}

/-- All blocks of fragments begin with the name of the type. -/
def FragmentsHeaded (cx : ShapeContext) : Prop :=
  ∀ n f, cx.fragments.get? n = some f → Selection.isHeaded f.selections = true ∧
    deepAll (Selection.hasBlock Selection.isHeaded) f.selections = true

/-- The blocks of all levels but the first one begin with the name of the type. -/
theorem Nested.isHeaded (h : Nested cx root all q tt) (htable : cx.FragmentsHeaded)
    (hall : deepAll (Selection.hasBlock Selection.isHeaded) all = true) :
    deepAll (Selection.hasBlock Selection.isHeaded) tt = true ∧
      (q = root ∧ tt = all ∨ Selection.isHeaded tt = true) := by
  induction h with
  | here => exact ⟨hall, .inl ⟨rfl, rfl⟩⟩
  | inside _ hes he hopens ih =>
    have hmerges := (Level.merges_of_entries hes).1 _ he
    exact ⟨hmerges.check (fun n f hf => (htable n f hf).2) ih.1,
      .inr (Level.isHeaded_of_entries hes he (fun n f hf => (htable n f hf).2) ih.1)⟩

/-- Where blocks begin with the name of the type, the first selection of it speaks for all. -/
theorem telling_of_headed (hroot : root.isObject = true) (htable : cx.FragmentsHeaded)
    (hall : deepAll (Selection.hasBlock Selection.isHeaded) all = true)
    (hmeets : ∀ sel ∈ all, ∀ t, sel.target? cx.schema cx.fragments = some t →
      cx.schema.isA root t = true) : Telling cx root all := by
  intro q tt es hnested hes e he
  obtain ⟨hblocks, hheaded⟩ := hnested.isHeaded htable hall
  have hkeyed : ∀ occ, Level.Occurs cx.schema cx.fragments [] q false tt occ →
      (occ.key = "__typename" ↔ occ.field = "__typename") := by
    intro occ hocc
    obtain ⟨⟨head, b, hkey, hname, hcheck⟩, -⟩ :=
      hocc.check (fun n f hf => (htable n f hf).2) hblocks
    rw [Selection.hasBlock, Bool.and_eq_true, beq_iff_eq, hkey, hname] at hcheck
    simpa using hcheck.1
  obtain ⟨first, hfirst, hfirstkey, hfield, -⟩ := ((Level.merges_of_entries hes).1 e he).first
  have hkey : e.key = "__typename" ↔ e.field = "__typename" := by
    rw [← hfirstkey, ← hfield]
    exact hkeyed first hfirst
  refine ⟨fun occ hocc hsame => ?_, fun htypename t ht => ?_⟩
  · rw [← hkeyed occ hocc, hsame, hkey]
  · obtain ⟨os, occ, hos, hocc, hparent⟩ :=
      Level.exists_typename_of_entries hes he (hkey.2 htypename)
    rw [← hparent]
    rcases hheaded with ⟨rfl, rfl⟩ | hheaded
    -- nothing is added to the block of an operation, but the root type is an object type
    · rw [Schema.possibleTypes_of_isObject hroot, List.mem_singleton] at ht
      obtain rfl := ht
      have hsels : ∀ sel ∈ tt, sel.hasBlock Selection.isHeaded = true :=
        fun sel hsel => Execution.check_of_deep (Execution.deep_of_mem hblocks hsel)
      rcases Level.parent_of_occurrences (fun n f hf => (htable n f hf).1) hsels hos hocc with
        hown | ⟨sel, hsel, htarget⟩
      · rw [hown]
        exact Schema.isA_self
      · exact hmeets sel hsel _ htarget
    · rw [Level.parent_of_headed hheaded hos hocc]
      exact Schema.isA_of_mem_possibleTypes ht

end ShapeContext
end QueryTypes
