import QueryTypes.Output.Types
import QueryTypes.Proofs.Shape.Depth

/-!
# Documents without directives

No shape depends on directives: for a document from which they are all taken, the same modules are
built and the same files put out. For an executor such a document is plain.
-/

namespace QueryTypes

def FieldHead.undirected (f : FieldHead) : FieldHead := { f with directives := [] }

mutual
def Selection.undirected : Selection → Selection
  | .field h b ss => .field h.undirected b (Selection.allUndirected ss)
  | .spread n _ o => .spread n [] o
  | .inline c _ ss o => .inline c [] (Selection.allUndirected ss) o

def Selection.allUndirected : List Selection → List Selection
  | [] => []
  | s :: r => s.undirected :: Selection.allUndirected r
end

def Fragment.undirected (f : Fragment) : Fragment :=
  { f with directives := [], selections := Selection.allUndirected f.selections }

def Operation.undirected (o : Operation) : Operation :=
  { o with directives := [], selections := Selection.allUndirected o.selections }

def Document.undirected (d : Document) : Document :=
  ⟨d.operations.map Operation.undirected, d.fragments.map Fragment.undirected⟩

def Occurrence.undirected (o : Occurrence) : Occurrence :=
  { o with selections := Selection.allUndirected o.selections }

def Entry.undirected (e : Entry) : Entry :=
  { e with selections := Selection.allUndirected e.selections }

/-- The fragments of a table without their directives. -/
def Table.undirected (table : Table Fragment) : Table Fragment :=
  table.map (Prod.map id Fragment.undirected)

theorem Table.get?_undirected (table : Table Fragment) (n : String) :
    table.undirected.get? n = (table.get? n).map Fragment.undirected :=
  Table.get?_map Fragment.undirected n table

theorem Document.fragmentTable_undirected (d : Document) :
    d.undirected.fragmentTable = d.fragmentTable.undirected := by
  rw [fragmentTable, fragmentTable, Table.undirected, ← Table.ofList_map]
  simp [Document.undirected, Function.comp_def, Fragment.undirected]

namespace Selection

theorem allUndirected_eq (ss : List Selection) : allUndirected ss = ss.map undirected := by
  induction ss with
  | nil => rfl
  | cons sel ss ih => rw [allUndirected, ih, List.map_cons]

theorem allUndirected_append (ss ss' : List Selection) :
    allUndirected (ss ++ ss') = allUndirected ss ++ allUndirected ss' := by
  rw [allUndirected_eq, allUndirected_eq, allUndirected_eq, List.map_append]

mutual
theorem weight_undirected : (sel : Selection) → sel.undirected.weight = sel.weight
  | .field _ _ ss => by rw [undirected, weight, weight, weights_allUndirected ss]
  | .spread .. => rfl
  | .inline _ _ ss _ => by rw [undirected, weight, weight, weights_allUndirected ss]

theorem weights_allUndirected : (ss : List Selection) → weights (allUndirected ss) = weights ss
  | [] => rfl
  | sel :: rest => by
    rw [allUndirected, weights, weights, weight_undirected sel, weights_allUndirected rest]
end

mutual
theorem spreads_undirected : (sel : Selection) → sel.undirected.spreads = sel.spreads
  | .field _ _ ss => by rw [undirected, spreads, spreads, allSpreads_allUndirected ss]
  | .spread .. => rfl
  | .inline _ _ ss _ => by rw [undirected, spreads, spreads, allSpreads_allUndirected ss]

theorem allSpreads_allUndirected : (ss : List Selection) →
    allSpreads (allUndirected ss) = allSpreads ss
  | [] => rfl
  | sel :: rest => by
    rw [allUndirected, allSpreads, allSpreads, spreads_undirected sel, allSpreads_allUndirected rest]
end

theorem directives_undirected (sel : Selection) : sel.undirected.directives = [] := by
  cases sel <;> rfl

end Selection

namespace Execution

theorem met_undirected {table : Table Fragment} {ss : List Selection} {sel : Selection}
    (hss : ∃ ss', ss = Selection.allUndirected ss') (h : Met table.undirected ss sel) :
    ∃ sel' : Selection, sel = sel'.undirected := by
  have hmem : ∀ {ss : List Selection} {sel : Selection}, (∃ ss', ss = Selection.allUndirected ss') →
      sel ∈ ss → ∃ sel' : Selection, sel = sel'.undirected := by
    rintro _ sel ⟨ss', rfl⟩ h
    rw [Selection.allUndirected_eq] at h
    obtain ⟨sel', -, rfl⟩ := List.mem_map.1 h
    exact ⟨sel', rfl⟩
  induction h with
  | here h => exact hmem hss h
  | field h _ ih =>
    obtain ⟨sel', heq⟩ := hmem hss h
    cases sel' with
    | field h' b' below' => exact ih ⟨below', (Selection.field.inj heq).2.2⟩
    | spread => simp [Selection.undirected] at heq
    | inline => simp [Selection.undirected] at heq
  | inline h _ ih =>
    obtain ⟨sel', heq⟩ := hmem hss h
    cases sel' with
    | field => simp [Selection.undirected] at heq
    | spread => simp [Selection.undirected] at heq
    | inline c' ds' below' o' => exact ih ⟨below', (Selection.inline.inj heq).2.2.1⟩
  | spread _ hf _ ih =>
    rw [Table.get?_undirected, Option.map_eq_some_iff] at hf
    obtain ⟨f', -, rfl⟩ := hf
    exact ih ⟨f'.selections, rfl⟩

/-- An executor finds no directive in a document without directives. -/
theorem plain_undirected (table : Table Fragment) (ss : List Selection) :
    Plain table.undirected (Selection.allUndirected ss) := by
  intro sel hsel d hd
  obtain ⟨sel', rfl⟩ := met_undirected ⟨ss, rfl⟩ hsel
  rw [Selection.directives_undirected] at hd
  simp at hd

end Execution

namespace Level

variable {s : Schema} {table : Table Fragment} {follow follow' : Follow}

mutual
theorem occurrence_undirected
    (hfollow : ∀ parent conditional n, follow' parent conditional n =
      (follow parent conditional n).map (List.map Occurrence.undirected))
    (parent : NamedType) (conditional : Bool) : (sel : Selection) →
    occurrence s follow' parent conditional sel.undirected =
      (occurrence s follow parent conditional sel).map (List.map Occurrence.undirected)
  | .field h b ss => rfl
  | .spread n ds o => hfollow parent conditional n.text
  | .inline c ds ss o => by
    rw [Selection.undirected, occurrence, occurrence]
    cases conditionType s parent (c.map Name.text) with
    | error e => rfl
    | ok target => exact occurrences_undirected hfollow target _ ss

theorem occurrences_undirected
    (hfollow : ∀ parent conditional n, follow' parent conditional n =
      (follow parent conditional n).map (List.map Occurrence.undirected))
    (parent : NamedType) (conditional : Bool) : (ss : List Selection) →
    occurrences s follow' parent conditional (Selection.allUndirected ss) =
      (occurrences s follow parent conditional ss).map (List.map Occurrence.undirected)
  | [] => rfl
  | sel :: rest => by
    rw [Selection.allUndirected, occurrences, occurrences,
      occurrence_undirected hfollow parent conditional sel,
      occurrences_undirected hfollow parent conditional rest]
    cases occurrence s follow parent conditional sel with
    | error e => rfl
    | ok here =>
      cases occurrences s follow parent conditional rest with
      | error e => rfl
      | ok later => exact congrArg Except.ok List.map_append.symm
end

theorem collect_undirected (s : Schema) (table : Table Fragment) (n : Nat)
    (visiting : List String) (parent : NamedType) (conditional : Bool) (ss : List Selection) :
    collect s table.undirected n visiting parent conditional (Selection.allUndirected ss) =
      (collect s table n visiting parent conditional ss).map (List.map Occurrence.undirected) := by
  induction n generalizing visiting parent conditional ss with
  | zero =>
    rw [collect, collect]
    refine occurrences_undirected (fun parent conditional name => ?_) parent conditional ss
    rfl
  | succ n ih =>
    rw [collect, collect]
    refine occurrences_undirected (fun parent conditional name => ?_) parent conditional ss
    by_cases hname : visiting.contains name = true
    · rw [if_pos hname, if_pos hname]
      rfl
    · rw [if_neg hname, if_neg hname, Table.get?_undirected]
      cases table.get? name with
      | none => rfl
      | some f =>
        change (conditionType s parent (some f.condition.text) >>= _) =
          (conditionType s parent (some f.condition.text) >>= _).map _
        cases conditionType s parent (some f.condition.text) with
        | error e => rfl
        | ok target => exact ih _ target _ f.selections

theorem entry_undirected (k : String) (os : List Occurrence) :
    entry k (os.map Occurrence.undirected) = (entry k os).map Entry.undirected := by
  have hselections : (os.map Occurrence.undirected).flatMap Occurrence.selections =
      Selection.allUndirected (os.flatMap Occurrence.selections) := by
    induction os with
    | nil => rfl
    | cons o os ih =>
      rw [List.map_cons, List.flatMap_cons, List.flatMap_cons, Selection.allUndirected_append, ih]
      rfl
  have hconditional : (os.map Occurrence.undirected).all Occurrence.conditional =
      os.all Occurrence.conditional := List.all_map
  cases os with
  | nil => rfl
  | cons o os =>
    rw [List.map_cons] at hselections hconditional ⊢
    rw [entry, hselections, hconditional]
    rfl

theorem entries_undirected (s : Schema) (table : Table Fragment) (parent : NamedType)
    (ss : List Selection) : entries s table.undirected parent (Selection.allUndirected ss) =
      (entries s table parent ss).map (List.map Entry.undirected) := by
  have hlength : table.undirected.length = table.length := List.length_map _
  rw [entries, entries, hlength, collect_undirected]
  cases collect s table (table.length + 1) [] parent false ss with
  | error e => rfl
  | ok os =>
    change Except.ok _ = Except.ok _
    rw [groupBy, groupBy, List.map_map, List.filterMap_map, List.filterMap_map, List.map_filterMap]
    congr 1
    refine List.filterMap_congr fun k _ => ?_
    change entry k ((os.map Occurrence.undirected).filter fun o => o.key == k) = _
    rw [List.filter_map, entry_undirected]
    rfl

end Level

namespace ShapeContext

def undirected (cx : ShapeContext) : ShapeContext := { cx with fragments := cx.fragments.undirected }

variable (cx : ShapeContext)

theorem objects_undirected (n : Nat) (name : String) (parent : NamedType) (ss : List Selection) :
    cx.undirected.objects n name parent (Selection.allUndirected ss) =
      cx.objects n name parent ss := by
  induction n generalizing name parent ss with
  | zero => rw [objects, objects]
  | succ n ih =>
    rw [objects, objects]
    have hentries : Level.entries cx.undirected.schema cx.undirected.fragments parent
        (Selection.allUndirected ss) = (Level.entries cx.schema cx.fragments parent ss).map
          (List.map Entry.undirected) := Level.entries_undirected cx.schema cx.fragments parent ss
    rw [hentries]
    cases Level.entries cx.schema cx.fragments parent ss with
    | error e => simp only [Except.map, bind, Except.bind]
    | ok es =>
      simp only [Except.map, bind, Except.bind, List.mapM_map, Function.comp_def, Entry.undirected, ih]
      rfl

theorem depth_undirected (ss : List Selection) :
    cx.undirected.depth (Selection.allUndirected ss) = cx.depth ss := by
  refine depth_congr (Selection.weights_allUndirected ss) (Selection.allSpreads_allUndirected ss)
    fun n _ => ?_
  have hextent : Fragment.extent ∘ Fragment.undirected = Fragment.extent := by
    funext f
    rw [Function.comp_apply, Fragment.extent, Fragment.undirected, Selection.weights_allUndirected,
      Selection.allSpreads_allUndirected, Fragment.extent]
  change ((Table.undirected cx.fragments).get? n).map _ = _
  rw [Table.get?_undirected, Option.map_map, hextent]

theorem operation_undirected (o : Operation) :
    cx.undirected.operation o.undirected = cx.operation o := by
  rw [operation, operation]
  change (match cx.schema.rootType? o.kind, o.name with | _, _ => _) = _
  simp only [Operation.undirected, depth_undirected, objects_undirected]
  rfl

theorem fragment_undirected (f : Fragment) :
    cx.undirected.fragment f.undirected = cx.fragment f := by
  rw [fragment, fragment]
  simp only [Fragment.undirected, depth_undirected, objects_undirected]
  rfl

end ShapeContext

namespace Types

theorem modules_undirected (cx : ShapeContext) (d : Document) :
    modules cx.undirected d.undirected = modules cx d := by
  have hvalues : cx.undirected.fragments.values = cx.fragments.values.map Fragment.undirected := by
    change List.map Prod.snd (List.map _ cx.fragments) = _
    rw [Table.values, List.map_map, List.map_map]
    rfl
  rw [modules, modules, hvalues, Document.undirected, List.mapM_map, List.mapM_map]
  simp only [Function.comp_def, ShapeContext.operation_undirected, ShapeContext.fragment_undirected]

/-- What is put out does not depend on directives. -/
theorem emit_undirected (l : Language) (layouts : Overrides) (e : Emission) :
    emit l layouts { e with document := e.document.undirected } = emit l layouts e := by
  have hmodules := modules_undirected
    ⟨e.schema, e.document.fragmentTable, ScalarMap.ofOptions e.options⟩ e.document
  rw [ShapeContext.undirected, ← Document.fragmentTable_undirected] at hmodules
  rw [emit, emit]
  simp only [hmodules]
  rfl

end Types
end QueryTypes
