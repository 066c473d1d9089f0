import QueryTypes.Output.Types
import QueryTypes.Proofs.Shape.Building

/-!
# Definitions on their own

What is built for a definition depends on the definition and on the fragments that it involves, and
on nothing else in the document: an excerpt with only these gives the same module, or the same
failure.
-/

namespace QueryTypes

variable {s : Schema} {table table' : Table Fragment} {ss : List Selection} {n : String}

namespace Document

/-- What shapes depend on, for a document. -/
def context (d : Document) (s : Schema) (scalars : ScalarMap) : ShapeContext :=
  ⟨s, d.fragmentTable, scalars⟩

/-- What is selected in a definition. -/
def selectionsOf : Operation ⊕ Fragment → List Selection :=
  Sum.elim Operation.selections Fragment.selections

/-- The document with nothing but one definition and the fragments that it uses. -/
def excerpt (d : Document) : Operation ⊕ Fragment → Document
  | .inl o => ⟨[o], d.fragments.filter fun f => (o.uses d.fragmentTable).contains f.name.text⟩
  | .inr f => ⟨[], d.fragments.filter fun g =>
      g.name.text == f.name.text || (f.uses d.fragmentTable).contains g.name.text⟩

variable {d : Document} {x : Operation ⊕ Fragment} {f : Fragment}

theorem mem_fragments_excerpt_iff : f ∈ (d.excerpt x).fragments ↔ f ∈ d.fragments ∧
    ((∃ g, x = .inr g ∧ g.name.text = f.name.text) ∨
      Involves d.fragmentTable (selectionsOf x) f.name.text) := by
  have hkey : f ∈ d.fragments → f.name.text ∈ d.fragmentTable.keys := mem_keys_fragmentTable
  cases x with
  | inl o =>
    rw [excerpt, List.mem_filter, List.contains_iff_mem, Operation.mem_uses_iff,
      leads_iff_involves]
    simp only [reduceCtorEq, false_and, exists_false, false_or, selectionsOf, Sum.elim_inl]
    tauto
  | inr g =>
    rw [excerpt, List.mem_filter, Bool.or_eq_true, List.contains_iff_mem, Fragment.mem_uses_iff,
      leads_iff_involves, beq_iff_eq]
    simp only [Sum.inr.injEq, exists_eq_left', selectionsOf, Sum.elim_inr]
    have hsymm : f.name.text = g.name.text ↔ g.name.text = f.name.text := eq_comm
    tauto

/-- In the excerpt the same fragments are found wherever the definition leads. -/
theorem agree_excerpt (d : Document) (x : Operation ⊕ Fragment) :
    AgreeOn d.fragmentTable (d.excerpt x).fragmentTable (selectionsOf x) := by
  intro n hn
  have hfilter : ∀ p : String → Bool, (n ∈ d.fragmentTable.keys → p n = true) →
      d.fragmentTable.get? n =
        (Table.ofList ((d.fragments.filter fun f => p f.name.text).map
          fun f => (f.name.text, f))).get? n := by
    intro p hp
    have hmap : (d.fragments.filter fun f => p f.name.text).map (fun f => (f.name.text, f)) =
        (d.fragments.map fun f => (f.name.text, f)).filter fun q => p q.1 := by
      rw [List.filter_map]
      rfl
    rw [hmap, Table.get?_ofList_filter fun hkey => hp (Table.mem_keys_ofList_iff.2 hkey)]
    rfl
  cases x with
  | inl o =>
    refine hfilter (fun n => (o.uses d.fragmentTable).contains n) fun hkey => ?_
    rw [List.contains_iff_mem]
    exact Operation.mem_uses_iff.2 ⟨hn, hkey⟩
  | inr f =>
    refine hfilter (fun n => n == f.name.text || (f.uses d.fragmentTable).contains n)
      fun hkey => ?_
    rw [Bool.or_eq_true, beq_iff_eq, List.contains_iff_mem, Fragment.mem_uses_iff]
    by_cases hname : n = f.name.text
    · exact .inl hname
    · exact .inr ⟨⟨hn, hkey⟩, hname⟩

end Document

/-! ### What building depends on -/

namespace Level

variable {visiting : List String} {parent : NamedType} {conditional : Bool} {occ : Occurrence}
  {e : Entry}

theorem exists_of_mem_allSpreads (h : n ∈ Selection.allSpreads ss) :
    ∃ sel ∈ ss, n ∈ sel.spreads := by
  induction ss with
  | nil => simp [Selection.allSpreads] at h
  | cons sel ss ih =>
    rw [Selection.allSpreads, List.mem_append] at h
    rcases h with h | h
    · exact ⟨sel, List.mem_cons_self, h⟩
    · obtain ⟨sel', hsel', hn⟩ := ih h
      exact ⟨sel', List.mem_cons_of_mem _ hsel', hn⟩

theorem Occurs.leads (h : Occurs s table visiting parent conditional ss occ)
    (hn : n ∈ Selection.allSpreads occ.selections) :
    Leads table (Selection.allSpreads ss) n := by
  induction h with
  | field hmem => exact .spread (Selection.mem_allSpreads_of_mem hmem hn)
  | inline hmem _ _ ih =>
    exact (ih hn).mono fun m hm => Selection.mem_allSpreads_of_mem hmem hm
  | spread hmem _ hf _ _ ih =>
    have hleads := ih hn
    rw [← spreadsOf_of_get? hf] at hleads
    exact Leads.trans (.spread (Selection.mem_allSpreads_of_mem hmem List.mem_cons_self)) hleads

theorem Merges.agree (h : Merges s table parent ss e) (hsame : AgreeOn table table' ss) :
    AgreeOn table table' e.selections := by
  refine hsame.of_leads fun n hn => ?_
  obtain ⟨sel, hsel, hn⟩ := exists_of_mem_allSpreads hn
  obtain ⟨occ, hocc, -, hsel⟩ := (h.mem_selections_iff sel).1 hsel
  exact hocc.leads (Selection.mem_allSpreads_of_mem hsel hn)

theorem agree_of_entries {es : List Entry} (hes : entries s table parent ss = .ok es)
    (hsame : AgreeOn table table' ss) : ∀ e ∈ es, AgreeOn table table' e.selections :=
  fun e he => ((merges_of_entries hes).1 e he).agree hsame

theorem entries_congr (hsame : AgreeOn table table' ss) :
    entries s table' parent ss = entries s table parent ss := by
  obtain ⟨r, hr⟩ := exists_yields s table [] parent false ss
  rw [hr.entries, (hr.congr hsame).entries]

end Level

namespace ShapeContext

variable {cx : ShapeContext} {name : String} {parent : NamedType} {e : Entry} {es : List Entry}

/-- The same schema and scalars with other fragments. -/
def withTable (cx : ShapeContext) (table : Table Fragment) : ShapeContext :=
  { cx with fragments := table }

theorem context_excerpt (s : Schema) (scalars : ScalarMap) (d : Document)
    (x : Operation ⊕ Fragment) : (d.excerpt x).context s scalars =
      (d.context s scalars).withTable (d.excerpt x).fragmentTable := rfl

theorem part_congr {k : Nat} (h : ∀ child t, (cx.withTable table').objects k child t
      e.selections = cx.objects k child t e.selections) :
    (cx.withTable table').part k name e = cx.part k name e := by
  simp only [part, h]
  rfl

theorem parts_congr {k : Nat} (h : ∀ e ∈ es, ∀ child t,
      (cx.withTable table').objects k child t e.selections =
        cx.objects k child t e.selections) :
    (cx.withTable table').parts k name es = cx.parts k name es := by
  have hparts : es.mapM ((cx.withTable table').part k name) = es.mapM (cx.part k name) := by
    induction es with
    | nil => rw [List.mapM_nil, List.mapM_nil]
    | cons e es ih =>
      rw [List.mapM_cons, List.mapM_cons, part_congr (h e List.mem_cons_self),
        ih fun e' he' => h e' (List.mem_cons_of_mem _ he')]
  rw [parts, parts, hparts]

theorem objects_congr (hsame : AgreeOn cx.fragments table' ss) (k : Nat) (name : String)
    (parent : NamedType) :
    (cx.withTable table').objects k name parent ss = cx.objects k name parent ss := by
  induction k generalizing name parent ss with
  | zero => rw [objects, objects]
  | succ k ih =>
    have hentries : Level.entries (cx.withTable table').schema
        (cx.withTable table').fragments parent ss =
          Level.entries cx.schema cx.fragments parent ss := Level.entries_congr hsame
    rw [objects_succ, objects_succ, hentries]
    cases hes : Level.entries cx.schema cx.fragments parent ss with
    | error err => simp only [bind, Except.bind]
    | ok es =>
      have hparts : (cx.withTable table').parts k name es = cx.parts k name es :=
        parts_congr fun e he child t => ih (Level.agree_of_entries hes hsame e he) child t
      simp only [bind, Except.bind, hparts]

theorem depth_agree (hsame : AgreeOn cx.fragments table' ss) :
    (cx.withTable table').depth ss = cx.depth ss := by
  refine (depth_congr rfl rfl fun n hn => ?_).symm
  rw [withTable, hsame n hn]

theorem operation_agree {o : Operation} (hsame : AgreeOn cx.fragments table' o.selections) :
    (cx.withTable table').operation o = cx.operation o := by
  have hparameters : ∀ name, (cx.withTable table').parameterShape name o =
      cx.parameterShape name o := fun _ => rfl
  have hschema : (cx.withTable table').schema = cx.schema := rfl
  simp only [operation, depth_agree hsame, objects_congr hsame, hparameters, hschema]

theorem fragment_agree {f : Fragment} (hsame : AgreeOn cx.fragments table' f.selections) :
    (cx.withTable table').fragment f = cx.fragment f := by
  simp only [fragment, depth_agree hsame, objects_congr hsame]
  rfl

theorem moduleOf_agree {x : Operation ⊕ Fragment}
    (hsame : AgreeOn cx.fragments table' (Document.selectionsOf x)) :
    (cx.withTable table').moduleOf x = cx.moduleOf x := by
  cases x with
  | inl o => exact operation_agree hsame
  | inr f => exact fragment_agree hsame

mutual
/-- The rules of building lead to the same outcome, if they lead to one. -/
theorem Builds.congr {r : Except ShapeError (List ObjectShape)} :
    {name : String} → {parent : NamedType} → {ss : List Selection} → Builds cx name parent ss r →
      AgreeOn cx.fragments table' ss → Builds (cx.withTable table') name parent ss r
  | _, _, _, .uncollected hos, hsame => .uncollected (hos.congr hsame)
  | _, _, _, .unfilled hos hes, hsame =>
    .unfilled (hos.congr hsame) (hes.congr (Level.agree_of_entries hos.entries hsame))
  | _, _, _, .built hos hes, hsame =>
    .built (hos.congr hsame) (hes.congr (Level.agree_of_entries hos.entries hsame))

theorem Fills.congr {r : Except ShapeError (List Property × List ObjectShape)} :
    {name : String} → {es : List Entry} → Fills cx name es r →
      (∀ e ∈ es, AgreeOn cx.fragments table' e.selections) →
        Fills (cx.withTable table') name es r
  | _, _, .nil, _ => .nil
  | _, _, .typename hfield hrest, hsame =>
    .typename hfield (hrest.congr (List.forall_mem_cons.1 hsame).2)
  | _, _, .stray hfield herr, _ => .stray hfield herr
  | _, _, .leaf hfield hf ht hrest, hsame =>
    .leaf hfield hf ht (hrest.congr (List.forall_mem_cons.1 hsame).2)
  | _, _, .failing hfield hf ht hbelow, hsame =>
    .failing hfield hf ht (hbelow.congr (List.forall_mem_cons.1 hsame).1)
  | _, _, .object hfield hf ht hbelow hrest, hsame =>
    .object hfield hf ht (hbelow.congr (List.forall_mem_cons.1 hsame).1)
      (hrest.congr (List.forall_mem_cons.1 hsame).2)
end

theorem builds_agree_iff (hsame : AgreeOn cx.fragments table' ss)
    {r : Except ShapeError (List ObjectShape)} :
    Builds (cx.withTable table') name parent ss r ↔ Builds cx name parent ss r := by
  constructor
  · intro h
    have hback : Builds ((cx.withTable table').withTable cx.fragments) name parent ss r :=
      h.congr hsame.symm
    exact hback
  · exact fun h => h.congr hsame

/-- In its excerpt a definition has the module that it has in the document. -/
theorem moduleOf_excerpt (s : Schema) (scalars : ScalarMap) (d : Document)
    (x : Operation ⊕ Fragment) :
    ((d.excerpt x).context s scalars).moduleOf x = (d.context s scalars).moduleOf x := by
  rw [context_excerpt]
  exact moduleOf_agree (d.agree_excerpt x)

end ShapeContext
end QueryTypes
