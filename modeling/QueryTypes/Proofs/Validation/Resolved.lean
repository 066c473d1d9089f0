import QueryTypes.Proofs.Cycle
import QueryTypes.Proofs.Document.Uses
import QueryTypes.Proofs.Execution.Collect
import QueryTypes.Proofs.Validation.Known

/-!
# Names that lead somewhere

In a valid document every spread names a fragment, every condition a composite type and every
variable has a type that the schema knows. No fragment leads back to itself, so the fragments stand
in an order in which each one spreads earlier ones only.
-/

namespace QueryTypes

open Execution (deep deepAll)

variable {s : Schema} {table table' : Table Fragment} {d : Document} {n : String}
  {ss : List Selection}

/-- A spread names a fragment, and a condition a composite type. -/
def Selection.resolves (s : Schema) (table : Table Fragment) : Selection → Bool
  | .field .. => true
  | .spread n _ _ => table.has n.text
  | .inline none .. => true
  | .inline (some c) .. => (s.composite? c.text).isSome

/-- All names in the selections lead somewhere. -/
def Resolved (s : Schema) (table : Table Fragment) (ss : List Selection) : Prop :=
  deepAll (Selection.resolves s table) ss = true

/-- The types, conditions and fragments that are named at a visit are all right. -/
structure Visit.IsResolved (s : Schema) (table : Table Fragment) (v : Visit) : Prop where
  types : Validation.typesKnown s v = []
  conditions : Validation.conditionsComposite s v = []
  fragments : Validation.fragmentsKnown table v = []

namespace Validation

theorem type?_of_typesKnown {o : Option Origin} (h : typesKnown s (.typeName n o) = []) :
    ∃ t, s.type? n = some t := by
  rw [typesKnown] at h
  split at h
  · rename_i hsome
    exact Option.isSome_iff_exists.1 hsome
  · cases h

theorem has_of_fragmentsKnown {p : Option NamedType} {name : Name} {ds : List Directive}
    {o : Option Origin} (h : fragmentsKnown table (.spread p name ds o) = []) :
    table.has name.text = true := by
  rw [fragmentsKnown] at h
  split at h
  · assumption
  · cases h

theorem composite?_of_barred {c : Name} {o : Option Origin}
    (ht : typesKnown s (.typeName c.text o) = []) (hc : barredCondition s c = false) :
    (s.composite? c.text).isSome = true := by
  obtain ⟨t, ht⟩ := type?_of_typesKnown ht
  rw [barredCondition, ht, Option.any_some, Bool.not_eq_false'] at hc
  rw [Schema.composite?, ht, Option.filter_some, if_pos hc]
  rfl

theorem not_barred_of_inline {p : Option NamedType} {c : Name} {ds : List Directive}
    {o : Option Origin} (h : conditionsComposite s (.inline p (some c) ds o) = []) :
    barredCondition s c = false := by
  rw [conditionsComposite] at h
  split at h
  · cases h
  · rename_i hc
    simpa using hc

theorem not_barred_of_fragment {f : Fragment} (h : conditionsComposite s (.fragment f) = []) :
    barredCondition s f.condition = false := by
  rw [conditionsComposite] at h
  split at h
  · cases h
  · rename_i hc
    simpa using hc

end Validation

mutual
theorem resolves_of_visits : (sel : Selection) → {scope : Scope} →
    (∀ v ∈ sel.visits s scope, v.IsResolved s table) →
    deep (Selection.resolves s table) sel = true
  | .field h b ss, scope, hv => by
    simp only [Selection.visits, List.mem_append, or_imp, forall_and] at hv
    rw [deep, Selection.resolves, Bool.true_and]
    exact resolved_of_visits ss hv.1.2
  | .spread n ds o, scope, hv =>
    Validation.has_of_fragmentsKnown (hv _ List.mem_cons_self).fragments
  | .inline none ds ss o, scope, hv => by
    simp only [Selection.visits, List.mem_append, or_imp, forall_and] at hv
    rw [deep, Selection.resolves, Bool.true_and]
    exact resolved_of_visits ss hv.2
  | .inline (some c) ds ss o, scope, hv => by
    simp only [Selection.visits, List.mem_append, or_imp, forall_and] at hv
    obtain ⟨⟨⟨hnames, -⟩, -⟩, hbelow⟩ := hv
    have hc := Validation.not_barred_of_inline (hnames _ List.mem_cons_self).conditions
    have ht := (hnames (.typeName c.text c.origin) (by simp)).types
    rw [deep, Selection.resolves, Validation.composite?_of_barred ht hc, Bool.true_and]
    exact resolved_of_visits ss hbelow

theorem resolved_of_visits : (ss : List Selection) → {scope : Scope} →
    (∀ v ∈ Selection.allVisits s scope ss, v.IsResolved s table) → Resolved s table ss
  | [], _, _ => rfl
  | sel :: rest, scope, hv => by
    simp only [Selection.allVisits, List.mem_append, or_imp, forall_and] at hv
    rw [Resolved, deepAll, resolves_of_visits sel hv.1, Bool.true_and]
    exact resolved_of_visits rest hv.2
end

/-! ### The order of fragments -/

mutual
theorem Selection.mem_spreadNames : (sel : Selection) → n ∈ sel.spreads →
    n ∈ (sel.spreadNames.1 ++ sel.spreadNames.2).map Name.text
  | .field h b ss, hn => by simpa [spreadNames] using mem_splitSpreads ss hn
  | .spread name ds o, hn => by simpa [spreadNames, spreads] using hn
  | .inline c ds ss o, hn => by simpa [spreadNames] using mem_splitSpreads ss hn

theorem Selection.mem_splitSpreads : (ss : List Selection) → n ∈ Selection.allSpreads ss →
    n ∈ ((Selection.splitSpreads ss).1 ++ (Selection.splitSpreads ss).2).map Name.text
  | [], hn => by simp [allSpreads] at hn
  | sel :: rest, hn => by
    rw [allSpreads, List.mem_append] at hn
    simp only [splitSpreads, List.map_append, List.mem_append]
    rcases hn with hn | hn
    · have hmem := sel.mem_spreadNames hn
      rw [List.map_append, List.mem_append] at hmem
      tauto
    · have hmem := mem_splitSpreads rest hn
      rw [List.map_append, List.mem_append] at hmem
      tauto
end

namespace Validation

theorem spreadsOf_subset_targets (table : Table Fragment) (n : String) :
    spreadsOf table n ⊆ Cycle.targets (spreadSteps table) n := by
  intro m hm
  rw [spreadsOf] at hm
  rw [Cycle.targets, spreadSteps]
  cases hf : table.get? n with
  | none => simp [hf] at hm
  | some f =>
    rw [hf] at hm
    have hmem := Selection.mem_splitSpreads f.selections hm
    rw [List.map_map]
    exact hmem

theorem mem_keys_of_spreadSteps {table : Table Fragment} (n : String) (h : spreadSteps table n ≠ []) :
    n ∈ table.keys := by
  rw [spreadSteps] at h
  cases hf : table.get? n with
  | none => simp [hf] at h
  | some f => exact Table.mem_keys_of_get? hf

/-- The fragments that were visited without a way back being found stand in an order. -/
theorem exists_settled_of_go {visits : List Visit} {visited order : List String} {i : Nat}
    (hst : Cycle.Progress (spreadSteps table) [] (⟨visited, []⟩ : Cycle.Search Name) order)
    (h : Findings.ofHistory.go (noCycles table) visited i visits = []) :
    ∃ order', Cycle.Settled (Cycle.targets (spreadSteps table)) order' ∧ order ⊆ order' ∧
      ∀ f, .fragment f ∈ visits → f.name.text ∈ order' := by
  induction visits generalizing visited order i with
  | nil => exact ⟨order, hst.settled, List.Subset.refl _, by simp⟩
  | cons v visits ih =>
    rw [Findings.ofHistory.go, List.append_eq_nil_iff, List.map_eq_nil_iff] at h
    obtain ⟨hfound, hrest⟩ := h
    by_cases hv : ∃ f, v = .fragment f
    · obtain ⟨f, rfl⟩ := hv
      have hnone := List.map_eq_nil_iff.1 hfound
      obtain ⟨order₁, hst₁, hsub₁, hmem₁⟩ := hst.fromName mem_keys_of_spreadSteps hnone
      -- only what was visited is remembered from one fragment to the next
      have hst₂ : Cycle.Progress (spreadSteps table) []
          (⟨(noCycles table visited (.fragment f)).1, []⟩ : Cycle.Search Name) order₁ :=
        ⟨hst₁.settled, hst₁.mem_visited_iff, hst₁.disjoint⟩
      obtain ⟨order', hsettled, hsub, hmem⟩ := ih hst₂ hrest
      refine ⟨order', hsettled, List.Subset.trans hsub₁ hsub, fun g hg => ?_⟩
      rcases List.mem_cons.1 hg with hg | hg
      · obtain rfl := Visit.fragment.inj hg
        exact hsub hmem₁
      · exact hmem g hg
    · have hsame : (noCycles table visited v).1 = visited := by
        unfold noCycles
        split
        · exact absurd ⟨_, rfl⟩ hv
        · rfl
      rw [hsame] at hrest
      obtain ⟨order', hsettled, hsub, hmem⟩ := ih hst hrest
      refine ⟨order', hsettled, hsub, fun g hg => ?_⟩
      rcases List.mem_cons.1 hg with hg | hg
      · exact absurd ⟨g, hg.symm⟩ hv
      · exact hmem g hg

end Validation

/-! ### Documents -/

/-- All that is named in a document leads somewhere, and no fragment back to itself. -/
structure Document.Resolved (s : Schema) (d : Document) : Prop where
  operations : ∀ o ∈ d.operations, QueryTypes.Resolved s d.fragmentTable o.selections
  fragments : ∀ f ∈ d.fragments, QueryTypes.Resolved s d.fragmentTable f.selections
  conditions : ∀ f ∈ d.fragments, (s.composite? f.condition.text).isSome = true
  inputs : ∀ o ∈ d.operations, ∀ v ∈ o.variableDefs, (s.type? v.type.leaf).isSome = true
  order : ∃ order, Cycle.Settled (spreadsOf d.fragmentTable) order ∧
    ∀ n ∈ d.fragmentTable.keys, n ∈ order

theorem mem_documentVisits_of_operation {o : Operation} {v : Visit} (ho : o ∈ d.operations)
    (hv : v ∈ s.operationVisits o) : v ∈ s.documentVisits d :=
  List.mem_append_left _ (List.mem_flatMap.2 ⟨o, ho, hv⟩)

theorem mem_documentVisits_of_fragment {f : Fragment} {v : Visit} (hf : f ∈ d.fragments)
    (hv : v ∈ s.fragmentVisits f) : v ∈ s.documentVisits d :=
  List.mem_append_right _ (List.mem_flatMap.2 ⟨f, hf, hv⟩)

theorem resolved_of_documentVisits
    (hv : ∀ v ∈ s.documentVisits d, v.IsResolved s d.fragmentTable)
    (horder : Findings.ofHistory (Validation.noCycles d.fragmentTable) [] (s.documentVisits d) = []) :
    d.Resolved s where
  operations o ho := by
    have hscope : ∀ v ∈ Selection.allVisits s
        ⟨(s.rootType? o.kind).filter NamedType.isObject, none⟩ o.selections,
        v.IsResolved s d.fragmentTable := by
      refine fun v hmem => hv v (mem_documentVisits_of_operation ho ?_)
      simp [Schema.operationVisits, hmem]
    exact resolved_of_visits _ hscope
  fragments f hf := by
    have hscope : ∀ v ∈ Selection.allVisits s ⟨s.composite? f.condition.text, none⟩ f.selections,
        v.IsResolved s d.fragmentTable := by
      refine fun v hmem => hv v (mem_documentVisits_of_fragment hf ?_)
      simp [Schema.fragmentVisits, hmem]
    exact resolved_of_visits _ hscope
  conditions f hf := by
    have hfragment := hv (.fragment f) (mem_documentVisits_of_fragment hf (by
      simp [Schema.fragmentVisits]))
    have htype := hv (.typeName f.condition.text f.condition.origin)
      (mem_documentVisits_of_fragment hf (by simp [Schema.fragmentVisits]))
    exact Validation.composite?_of_barred htype.types
      (Validation.not_barred_of_fragment hfragment.conditions)
  inputs o ho v hmem := by
    have htype := hv (.typeName v.type.leaf v.leafOrigin) (mem_documentVisits_of_operation ho (by
      refine List.mem_append_left _ (List.mem_append_left _ (List.mem_append_left _
        (List.mem_append_left _ (List.mem_cons_of_mem _ (List.mem_flatMap.2 ⟨v, hmem, ?_⟩)))))
      simp [Schema.inputVisits]))
    exact Option.isSome_iff_exists.2 (Validation.type?_of_typesKnown htype.types)
  order := by
    have hstart : Cycle.Progress (Validation.spreadSteps d.fragmentTable) []
        (⟨[], []⟩ : Cycle.Search Name) [] := ⟨.nil, by simp, by simp⟩
    obtain ⟨order, hsettled, -, hall⟩ := Validation.exists_settled_of_go hstart horder
    refine ⟨order, hsettled.mono (Validation.spreadsOf_subset_targets _), fun n hn => ?_⟩
    obtain ⟨f, hf⟩ := Option.isSome_iff_exists.1 (Table.has_iff.2 hn)
    obtain ⟨hmem, rfl⟩ := fragment_of_get? hf
    refine hall f (mem_documentVisits_of_fragment hmem ?_)
    simp [Schema.fragmentVisits]

theorem resolved_of_complaints (hc : Validation.complaints s d = .ok []) : d.Resolved s := by
  obtain ⟨found, hfound, hnil⟩ := Validation.complaints_eq_nil_iff.1 hc
  rw [Validation.findings] at hfound
  obtain ⟨first, -, hfound⟩ := Outcome.bind_eq_ok_iff.1 hfound
  obtain rfl := Except.ok.inj hfound
  refine resolved_of_documentVisits (fun v hv => ⟨?_, ?_, ?_⟩) (hnil _ (by simp))
  · exact Validation.rule_eq_nil (hnil _ (by simp)) hv
  · exact Validation.rule_eq_nil (hnil _ (by simp)) hv
  · exact Validation.rule_eq_nil (hnil _ (by simp)) hv

/-! ### Names of types that are added -/

theorem deepAll_withTypename {check : Selection → Bool} (htypename : check typenameField = true)
    (ss : List Selection) : deepAll check (withTypename ss) = deepAll check ss := by
  have hdeep : deep check typenameField = true := by
    rw [typenameField, deep, deepAll, Bool.and_true]
    exact htypename
  rw [withTypename]
  split
  · rfl
  · rw [deepAll, hdeep, Bool.true_and]

mutual
/-- A check that passes the names of types, and minds no blocks, does not see that they are added. -/
theorem deep_addTypename {check : Selection → Bool} (htypename : check typenameField = true)
    (hcheck : ∀ sel : Selection, check sel.addTypename = check sel) :
    (sel : Selection) → deep check sel.addTypename = deep check sel
  | .field h b ss => by
    have hsame := hcheck (.field h b ss)
    rw [Selection.addTypename] at hsame ⊢
    rw [deep, deep, hsame, deepAll_withTypename htypename, deepAll_addTypenames htypename hcheck]
  | .spread n ds o => rfl
  | .inline c ds ss o => by
    have hsame := hcheck (.inline c ds ss o)
    rw [Selection.addTypename] at hsame ⊢
    rw [deep, deep, hsame, deepAll_withTypename htypename, deepAll_addTypenames htypename hcheck]

theorem deepAll_addTypenames {check : Selection → Bool} (htypename : check typenameField = true)
    (hcheck : ∀ sel : Selection, check sel.addTypename = check sel) :
    (ss : List Selection) → deepAll check (Selection.addTypenames ss) = deepAll check ss
  | [] => rfl
  | sel :: rest => by
    rw [Selection.addTypenames, deepAll, deep_addTypename htypename hcheck,
      deepAll_addTypenames htypename hcheck, deepAll]
end

theorem resolves_addTypename (s : Schema) (table : Table Fragment) (sel : Selection) :
    sel.addTypename.resolves s table = sel.resolves s table := by
  cases sel with
  | field h b ss => rfl
  | spread n ds o => rfl
  | inline c ds ss o => cases c <;> rfl

/-- Whether names lead somewhere depends on the names of the fragments alone. -/
theorem resolves_congr (h : ∀ n, table.has n = table'.has n) :
    Selection.resolves s table = Selection.resolves s table' := by
  funext sel
  cases sel with
  | field h b ss => rfl
  | spread n ds o => exact h n.text
  | inline c ds ss o => cases c <;> rfl

theorem has_addTypename (d : Document) (n : String) :
    d.fragmentTable.has n = d.addTypename.fragmentTable.has n := by
  rw [Table.has, Table.has, get?_addTypename, Option.isSome_map]

theorem Document.Resolved.addTypename (h : d.Resolved s) : d.addTypename.Resolved s where
  operations o ho := by
    obtain ⟨o, hmem, rfl⟩ := List.mem_map.1 ho
    rw [QueryTypes.Resolved, ← resolves_congr (has_addTypename d)]
    exact (deepAll_addTypenames rfl (resolves_addTypename _ _) _).trans (h.operations o hmem)
  fragments f hf := by
    obtain ⟨f, hmem, rfl⟩ := List.mem_map.1 hf
    rw [QueryTypes.Resolved, ← resolves_congr (has_addTypename d)]
    exact ((deepAll_withTypename rfl _).trans
      (deepAll_addTypenames rfl (resolves_addTypename _ _) _)).trans (h.fragments f hmem)
  conditions f hf := by
    obtain ⟨f, hmem, rfl⟩ := List.mem_map.1 hf
    exact h.conditions f hmem
  inputs o ho := by
    obtain ⟨o, hmem, rfl⟩ := List.mem_map.1 ho
    exact h.inputs o hmem
  order := by
    obtain ⟨order, hsettled, hall⟩ := h.order
    refine ⟨order, hsettled.mono fun n => ?_, fun n hn => hall n ?_⟩
    · rw [spreadsOf_addTypename]
      exact List.Subset.refl _
    · rw [← Table.has_iff] at hn ⊢
      rwa [has_addTypename]

end QueryTypes
