import QueryTypes.Proofs.Document.Walks
import QueryTypes.Proofs.Shape.Presence
import QueryTypes.Proofs.Shape.Undirected

/-!
# Optional properties

A property is optional if no selection of its key is sure: each one stands inside a type condition
that an object of the type there may fail. Directives do not count, so a key that `@skip` and
`@include` can remove altogether may well be required.
-/

namespace QueryTypes

/-- Every object of the type meets the condition, by its name or as an object of one type. -/
def Schema.Certain (s : Schema) (t target : NamedType) : Prop :=
  target.name = t.name ∨ t.isAbstract = false ∧ s.isA t target = true

/-- A way to a field on which every type condition is certain for the type that it stands on. -/
inductive Sure (s : Schema) (table : Table Fragment) : NamedType → List Selection → FieldNode → Prop
  | field {t : NamedType} {ss below : List Selection} {h : FieldHead} {b : Option Origin} :
      .field h b below ∈ ss → Sure s table t ss ⟨h, below⟩
  | inline {t target : NamedType} {ss below : List Selection} {c : Option Name}
      {ds : List Directive} {o : Option Origin} {node : FieldNode} :
      .inline c ds below o ∈ ss → Level.conditionType s t (c.map Name.text) = .ok target →
        s.Certain t target → Sure s table target below node → Sure s table t ss node
  | spread {t target : NamedType} {ss : List Selection} {n : Name} {ds : List Directive}
      {o : Option Origin} {f : Fragment} {node : FieldNode} :
      .spread n ds o ∈ ss → table.get? n.text = some f →
        s.composite? f.condition.text = some target → s.Certain t target →
        Sure s table target f.selections node → Sure s table t ss node

namespace Level

variable {s : Schema} {table : Table Fragment} {visiting visiting' : List String}
  {t parent target : NamedType} {conditional : Bool} {ss : List Selection} {occ : Occurrence}
  {node : FieldNode}

theorem alwaysApplies_iff : alwaysApplies s target parent = true ↔ s.Certain parent target := by
  rw [alwaysApplies, Schema.Certain, Schema.isA_iff, Bool.or_eq_true, beq_iff_eq, Bool.and_eq_true,
    Bool.and_eq_true, Bool.not_eq_true']
  constructor
  · rintro (hname | ⟨⟨htarget, hparent⟩, hcovers⟩)
    · exact .inl hname
    · exact .inr ⟨hparent, .inr ⟨htarget, hcovers⟩⟩
  · rintro (hname | ⟨hparent, hname | ⟨htarget, hcovers⟩⟩)
    · exact .inl hname
    · exact .inl hname
    · exact .inr ⟨⟨htarget, hparent⟩, hcovers⟩

theorem Occurs.anti (h : Occurs s table visiting parent conditional ss occ)
    (hsub : ∀ n ∈ visiting', n ∈ visiting) : Occurs s table visiting' parent conditional ss occ := by
  induction h generalizing visiting' with
  | field hmem => exact .field hmem
  | inline hmem ht _ ih => exact .inline hmem ht (ih hsub)
  | spread hmem hn hf ht _ ih =>
    refine .spread hmem (fun h => hn (hsub _ h)) hf ht (ih ?_)
    intro m hm
    rcases List.mem_cons.1 hm with rfl | hm
    · exact List.mem_cons_self
    · exact List.mem_cons_of_mem _ (hsub m hm)

/-- An unconditional occurrence is at the end of a way that is sure. -/
theorem Occurs.sure (h : Occurs s table visiting parent conditional ss occ)
    (hocc : occ.conditional = false) : ∃ node, Sure s table parent ss node ∧ occ.Of node := by
  induction h with
  | field hmem => exact ⟨_, .field hmem, ⟨rfl, rfl, rfl⟩⟩
  | inline hmem ht ho ih =>
    obtain ⟨node, hnode, hof⟩ := ih hocc
    exact ⟨node, .inline hmem ht (alwaysApplies_iff.1 (ho.alwaysApplies_of hocc)) hnode, hof⟩
  | spread hmem _ hf ht ho ih =>
    obtain ⟨node, hnode, hof⟩ := ih hocc
    exact ⟨node, .spread hmem hf (conditionType_some_iff.1 ht)
      (alwaysApplies_iff.1 (ho.alwaysApplies_of hocc)) hnode, hof⟩

/-- The field occurs without a condition, outside the given fragments. -/
def Free (s : Schema) (table : Table Fragment) (avoid : List String) (t : NamedType)
    (ss : List Selection) (node : FieldNode) : Prop :=
  ∃ occ, Occurs s table avoid t false ss occ ∧ occ.conditional = false ∧ occ.Of node

/-- The field occurs without a condition in a fragment of that name, outside the given ones. -/
def FreeIn (s : Schema) (table : Table Fragment) (avoid : List String) (n : String)
    (node : FieldNode) : Prop :=
  ∃ f target, table.get? n = some f ∧ s.composite? f.condition.text = some target ∧
    Free s table avoid target f.selections node

theorem Free.anti {avoid avoid' : List String} (h : Free s table avoid t ss node)
    (hsub : ∀ n ∈ avoid', n ∈ avoid) : Free s table avoid' t ss node := by
  obtain ⟨occ, hocc, hrest⟩ := h
  exact ⟨occ, hocc.anti hsub, hrest⟩

theorem FreeIn.anti {avoid avoid' : List String} {n : String} (h : FreeIn s table avoid n node)
    (hsub : ∀ n ∈ avoid', n ∈ avoid) : FreeIn s table avoid' n node := by
  obtain ⟨f, target, hf, htarget, hfree⟩ := h
  exact ⟨f, target, hf, htarget, hfree.anti hsub⟩

/-- A sure way goes around the given fragments, or its rest after the last one of them does. Where
it starts makes no difference inside a fragment, whose condition alone says what type is there. -/
theorem Sure.free_or (h : Sure s table t ss node) (avoid : List String) :
    Free s table avoid t ss node ∨ ∃ n ∈ avoid, FreeIn s table avoid n node := by
  induction h generalizing avoid with
  | field hmem => exact .inl ⟨_, .field hmem, rfl, ⟨rfl, rfl, rfl⟩⟩
  | inline hmem htarget hcertain _ ih =>
    rcases ih avoid with ⟨occ, hocc, hrest⟩ | hin
    · refine .inl ⟨occ, .inline hmem htarget ?_, hrest⟩
      rw [alwaysApplies_iff.2 hcertain]
      exact hocc
    · exact .inr hin
  | @spread t target ss n ds o f node hmem hf htarget hcertain _ ih =>
    have hsub : ∀ m ∈ avoid, m ∈ n.text :: avoid := fun m => List.mem_cons_of_mem _
    have hfree : ∀ f' target', table.get? n.text = some f' →
        s.composite? f'.condition.text = some target' →
        Free s table (n.text :: avoid) target' f'.selections node →
        Free s table avoid t ss node ∨ ∃ n ∈ avoid, FreeIn s table avoid n node := by
      intro f' target' hf' htarget' hfree
      by_cases hn : n.text ∈ avoid
      · exact .inr ⟨n.text, hn, f', target', hf', htarget', hfree.anti hsub⟩
      · obtain rfl := Option.some.inj (hf.symm.trans hf')
        obtain rfl := Option.some.inj (htarget.symm.trans htarget')
        obtain ⟨occ, hocc, hrest⟩ := hfree
        refine .inl ⟨occ, .spread hmem hn hf (conditionType_some_iff.2 htarget) ?_, hrest⟩
        rw [alwaysApplies_iff.2 hcertain]
        exact hocc
    rcases ih (n.text :: avoid) with hin | ⟨m, hm, hin⟩
    · exact hfree f target hf htarget hin
    · rcases List.mem_cons.1 hm with rfl | hm
      · obtain ⟨f', target', hf', htarget', hin⟩ := hin
        exact hfree f' target' hf' htarget' hin
      · exact .inr ⟨m, hm, hin.anti hsub⟩

/-- An entry is unconditional exactly if a sure way leads to its key. -/
theorem Merges.conditional_eq_false_iff {e : Entry} (h : Merges s table parent ss e) :
    e.conditional = false ↔ ∃ node, Sure s table parent ss node ∧ node.key = e.key := by
  rw [h.conditional_iff]
  constructor
  · rintro ⟨occ, hocc, hkey, hcertain⟩
    obtain ⟨node, hnode, hof⟩ := hocc.sure hcertain
    exact ⟨node, hnode, hof.key.symm.trans hkey⟩
  · rintro ⟨node, hnode, hkey⟩
    obtain ⟨occ, hocc, hcertain, hof⟩ := (Sure.free_or hnode []).resolve_right (by simp)
    exact ⟨occ, hocc, hof.key.trans hkey, hcertain⟩

end Level

namespace ShapeContext

variable {cx : ShapeContext} {N M : ShapeTree} {path : List String}

/-- No way to the key is left once `@skip` and `@include` have removed what they remove. -/
def SwitchedOff (E : Execution) (ss : List Selection) (k : String) : Prop :=
  ¬ ∃ node, Way E.fragments (fun sel => E.admits sel.directives) ss node ∧ node.key = k

/-- A field that a variable can remove. -/
def switchedSchema : Schema :=
  ⟨[plainType "Query" [("a", "String")], ⟨"String", none, .scalar⟩, ⟨"Boolean", none, .scalar⟩],
    some "Query", none, none, []⟩

def switchedOperation : Operation where
  kind := .query
  name := some ⟨"Q", none⟩
  variableDefs := [⟨⟨"x", none⟩, .named "Boolean" true, none, none, none, [], none⟩]
  directives := []
  selections := [.field ⟨none, "a", [], [⟨"include", [⟨⟨"if", none⟩, .ref "x" none⟩], none⟩], none⟩
    none []]
  origin := none

def switchedFile : ClientFile := ⟨["q.graphql"], [.operation switchedOperation], []⟩

def switched : ShapeContext := ⟨switchedSchema, (ClientFiles.document [switchedFile]).fragmentTable,
  ⟨[], false, ""⟩⟩

theorem switched_valid : ClientFiles.validity (some switched.schema) [switchedFile] = .ok () :=
  Validation.validity_of_findings rfl (by decide +kernel) (by decide +kernel)

theorem required_when_switchedOff :
    ClientFiles.validity (some switched.schema) [switchedFile] = .ok () ∧
      ∃ values m, switched.operation switchedOperation = .ok m ∧
      (∃ o ∈ m.objects, ∃ p ∈ o.properties, p.name = "a" ∧ p.optional = false) ∧
      SwitchedOff (switched.execution values) switchedOperation.selections "a" := by
  refine ⟨switched_valid, fun _ => false, _, rfl,
    ⟨_, List.mem_cons_self, _, List.mem_cons_self, rfl, rfl⟩, ?_⟩
  rintro ⟨node, hway, -⟩
  cases hway with
  | field hmem hadmits =>
    obtain ⟨rfl, rfl, rfl⟩ := Selection.field.inj (List.mem_singleton.1 hmem)
    exact absurd hadmits (by decide)
  | inline hmem => simp [switchedOperation] at hmem
  | spread hmem => simp [switchedOperation] at hmem

theorem Grown.optional_iff (h : Grown cx M) : ∀ p ∈ M.properties, (p.optional = true ↔
    ¬ ∃ node, Sure cx.schema cx.fragments M.parent M.selections node ∧ node.key = p.name) := by
  intro p hp
  obtain ⟨es, hes⟩ := h.levelled
  obtain ⟨e, he, hdeclares⟩ := hes.property p hp
  have hmerges := (Level.merges_of_entries hes.entries).1 e he
  rw [hdeclares.optional, hdeclares.name, ← hmerges.conditional_eq_false_iff, Bool.not_eq_false]

/-- Properties are optional by type conditions alone: on every level of every module those for
whose keys no selection is sure. Without any directives the same modules are built and the same
files put out. -/
theorem optional_by_conditions (cx : ShapeContext) :
    (∀ d m, cx.moduleOf d = .ok m → ∃ N, Built cx N d ∧ m.objects = N.flatten ∧
      ∀ path M, N.at? path = some M → ∀ p ∈ M.properties, (p.optional = true ↔
        ¬ ∃ node, Sure cx.schema cx.fragments M.parent M.selections node ∧ node.key = p.name)) ∧
    (∀ o, cx.undirected.operation o.undirected = cx.operation o) ∧
    (∀ f, cx.undirected.fragment f.undirected = cx.fragment f) ∧
    ∀ l layouts e, Types.emit l layouts { e with document := e.document.undirected } =
      Types.emit l layouts e := by
  refine ⟨fun d m h => ?_, cx.operation_undirected, cx.fragment_undirected, Types.emit_undirected⟩
  obtain ⟨N, t, n, ss, hbuilt, hobjects, hgrow⟩ := exists_built h
  obtain ⟨-, -, hgrown⟩ := grown_of_grow hgrow
  exact ⟨N, hbuilt, hobjects, fun path M hM => (hgrown.at? hM).optional_iff⟩

theorem optional_by_conditions_switched :
    ∃ m N, switched.moduleOf (.inl switchedOperation) = .ok m ∧
      Built switched N (.inl switchedOperation) ∧
      ∃ p ∈ N.properties, p.name = "a" ∧ p.optional = false := by
  obtain ⟨m, hm⟩ : ∃ m, switched.moduleOf (.inl switchedOperation) = .ok m := ⟨_, rfl⟩
  obtain ⟨N, hbuilt, -, hoptional⟩ := (optional_by_conditions switched).1 _ m hm
  refine ⟨m, N, hm, hbuilt, ?_⟩
  cases hbuilt with
  | operation hroot hN =>
    obtain rfl := Option.some.inj hroot
    obtain ⟨-, hselections, -⟩ := grown_of_grow hN
    have hkeys : (switched.operationTree (plainType "Query" [("a", "String")])
        switchedOperation).toOption.map ShapeTree.keys = some ["a"] := rfl
    rw [hN] at hkeys
    have ha : "a" ∈ N.keys := by
      rw [Option.some.inj hkeys]
      exact List.mem_cons_self
    obtain ⟨p, hp, hname⟩ := List.mem_map.1 ha
    have hsure : ∃ node, Sure switched.schema switched.fragments N.parent N.selections node ∧
        node.key = p.name := by
      rw [hselections, hname]
      exact ⟨_, .field List.mem_cons_self, rfl⟩
    have hcertain := (hoptional [] N rfl p hp).not.2 (not_not.2 hsure)
    exact ⟨p, hp, hname, by simpa using hcertain⟩

end ShapeContext
end QueryTypes
