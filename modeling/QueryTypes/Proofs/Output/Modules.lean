import Mathlib.Data.List.Forall2
import QueryTypes.Output.Types
import QueryTypes.Proofs.Shape.Closed
import QueryTypes.Proofs.Shape.Keys

/-!
# Generated modules are closed

When type declarations are written to a file for each operation and fragment, every name that one of
these files mentions is declared in it or imported from the file of the shared types, which is
written whenever anything is imported, and which declares every name that it mentions itself.
-/

namespace QueryTypes

theorem Outcome.forall₂_of_mapM {ε α β : Type} {f : α → Except ε β} {xs : List α} {ys : List β}
    (h : xs.mapM f = .ok ys) : List.Forall₂ (fun x y => f x = .ok y) xs ys := by
  induction xs generalizing ys with
  | nil =>
    obtain rfl := Except.ok.inj h
    exact .nil
  | cons x xs ih =>
    rw [List.mapM_cons] at h
    obtain ⟨y, hy, h⟩ := bind_eq_ok_iff.1 h
    obtain ⟨rest, hrest, h⟩ := bind_eq_ok_iff.1 h
    obtain rfl := Except.ok.inj h
    exact .cons hy (ih hrest)

theorem SharedShapes.isEmpty_of_mem_names {s : SharedShapes} {name : String} (h : name ∈ s.names) :
    s.isEmpty = false := by
  rw [SharedShapes.isEmpty, Bool.and_eq_false_iff, List.isEmpty_eq_false_iff,
    List.isEmpty_eq_false_iff]
  rcases List.mem_append.1 h with h | h
  · exact .inl (List.ne_nil_of_mem (List.mem_map.1 h).choose_spec.1)
  · exact .inr (List.ne_nil_of_mem (List.mem_map.1 h).choose_spec.1)

/-- What the shapes of an emission depend on. -/
def Emission.context (e : Emission) : ShapeContext :=
  ⟨e.schema, e.document.fragmentTable, ScalarMap.ofOptions e.options⟩

namespace Types

open ShapeContext

def sharedPath (l : Language) (e : Emission) (ms : List ModuleShape) : Path :=
  (placement l e).shared (ms.filterMap fun m => m.file.map Path.ofText)

/-- The file is written for the module, with imports from a file at the given path. -/
def IsFileOf (l : Language) (e : Emission) (shared : Path) (m : ModuleShape)
    (f : GeneratedFile) : Prop :=
  ∃ specifier, moduleSpecifier e.cwd f.path.parent shared (placement l e).extension =
      .ok specifier ∧
    f.content = textOfLines ((Style.ofOptions l e.options).moduleLines m specifier)

variable {l : Language} {e : Emission} {files : List GeneratedFile} {ms : List ModuleShape}

theorem moduleClosed_of_modules {cx : ShapeContext} {d : Document} (h : modules cx d = .ok ms) :
    ∀ m ∈ ms, cx.ModuleClosed m := by
  obtain ⟨operations, hoperations, h⟩ := Outcome.bind_eq_ok_iff.1 h
  obtain ⟨fragments, hfragments, h⟩ := Outcome.bind_eq_ok_iff.1 h
  obtain rfl := Except.ok.inj h
  intro m hm
  rcases List.mem_append.1 hm with hm | hm
  · obtain ⟨o, -, ho⟩ := (Outcome.mem_of_mapM hoperations).2 m hm
    exact ShapeContext.moduleClosed_operation ho
  · obtain ⟨f, -, hf⟩ := (Outcome.mem_of_mapM hfragments).2 m hm
    exact ShapeContext.moduleClosed_fragment hf

theorem names_of_modules {cx : ShapeContext} {d : Document} (h : modules cx d = .ok ms) :
    (ms.map fun m => some m.name) = (d.operations.map fun o => o.name.map Name.text) ++
      cx.fragments.values.map fun f => some f.name.text := by
  obtain ⟨operations, hoperations, h⟩ := Outcome.bind_eq_ok_iff.1 h
  obtain ⟨fragments, hfragments, h⟩ := Outcome.bind_eq_ok_iff.1 h
  obtain rfl := Except.ok.inj h
  rw [List.map_append]
  congr 1
  · exact Outcome.map_of_mapM (fun o m ho => ShapeContext.name_of_operation ho) hoperations
  · exact Outcome.map_of_mapM (fun f m hf => congrArg some (ShapeContext.name_of_fragment hf))
      hfragments

/-- The file is placed where the module belongs. -/
def IsPlacedFor (p : Placement) (m : ModuleShape) (f : GeneratedFile) : Prop :=
  f.path = p.module (m.file.map Path.ofText) m.name ∧ f.source = m.file.map Path.ofText

/-! ### What an emission computes, when nothing is overridden -/

def moduleFile (l : Language) (e : Emission) (shared : Path) (m : ModuleShape) :
    Except Failure GeneratedFile := do
  let source := m.file.map Path.ofText
  let path := (placement l e).module source m.name
  let specifier ← (moduleSpecifier e.cwd path.parent shared (placement l e).extension).mapError
    .breakdown
  return ⟨path, textOfLines ((Style.ofOptions l e.options).moduleLines m specifier), source⟩

theorem emit_eq_error {err : ShapeError} (h : modules e.context e.document = .error err) :
    emit l Overrides.none e = .error err.failure := by
  rw [Emission.context] at h
  simp only [emit, h]
  rfl

theorem emit_eq_bundle {path : Path} (hms : modules e.context e.document = .ok ms)
    (hb : (placement l e).bundle? = some path) : emit l Overrides.none e =
      .ok [⟨path, textOfLines ((Style.ofOptions l e.options).bundleLines ms
        (e.context.shared e.options.omitDeprecated ms)), none⟩] := by
  rw [Emission.context] at hms
  simp only [emit, hms, hb]
  rfl

theorem emit_eq_files (hms : modules e.context e.document = .ok ms)
    (hb : (placement l e).bundle? = none) : emit l Overrides.none e = do
      let files ← ms.mapM (moduleFile l e (sharedPath l e ms))
      let shared := e.context.shared e.options.omitDeprecated ms
      if shared.isEmpty then return files
      return files ++ [⟨sharedPath l e ms,
        textOfLines ((Style.ofOptions l e.options).sharedLines shared), none⟩] := by
  rw [Emission.context] at hms
  simp only [emit, hms, hb]
  rfl

theorem exists_modules_of_emit (h : emit l Overrides.none e = .ok files) :
    ∃ ms, modules e.context e.document = .ok ms := by
  cases hms : modules e.context e.document with
  | ok ms => exact ⟨ms, rfl⟩
  | error err =>
    rw [emit_eq_error hms] at h
    cases h

theorem exists_of_emit_bundle {path : Path} (h : emit l Overrides.none e = .ok files)
    (hb : (placement l e).bundle? = some path) :
    ∃ ms, modules e.context e.document = .ok ms ∧
      files = [⟨path, textOfLines ((Style.ofOptions l e.options).bundleLines ms
        (e.context.shared e.options.omitDeprecated ms)), none⟩] := by
  obtain ⟨ms, hms⟩ := exists_modules_of_emit h
  rw [emit_eq_bundle hms hb] at h
  exact ⟨ms, hms, (Except.ok.inj h).symm⟩

theorem placed_of_moduleFile {shared : Path} {m : ModuleShape} {f : GeneratedFile}
    (h : moduleFile l e shared m = .ok f) :
    IsFileOf l e shared m f ∧ IsPlacedFor (placement l e) m f := by
  obtain ⟨specifier, hspecifier, h⟩ := Outcome.bind_eq_ok_iff.1 h
  obtain rfl := Except.ok.inj h
  exact ⟨⟨specifier, Outcome.ok_of_mapError hspecifier, rfl⟩, rfl, rfl⟩

/-- Which files are written, and where: one for each module, and the shared one if it declares
anything. -/
theorem exists_placed_of_emit (h : emit l Overrides.none e = .ok files)
    (hb : (placement l e).bundle? = none) :
    ∃ ms written, modules e.context e.document = .ok ms ∧
      List.Forall₂ (fun m f => IsFileOf l e (sharedPath l e ms) m f ∧
        IsPlacedFor (placement l e) m f) ms written ∧
      files = written ++
        if (e.context.shared e.options.omitDeprecated ms).isEmpty then []
        else [⟨sharedPath l e ms, textOfLines ((Style.ofOptions l e.options).sharedLines
          (e.context.shared e.options.omitDeprecated ms)), none⟩] := by
  obtain ⟨ms, hms⟩ := exists_modules_of_emit h
  rw [emit_eq_files hms hb] at h
  obtain ⟨written, hwritten, h⟩ := Outcome.bind_eq_ok_iff.1 h
  refine ⟨ms, written, hms, (Outcome.forall₂_of_mapM hwritten).imp fun m f => placed_of_moduleFile, ?_⟩
  change (if (e.context.shared e.options.omitDeprecated ms).isEmpty = true then _ else _) = _ at h
  split at h
  · rename_i hempty
    rw [if_pos hempty, List.append_nil]
    exact (Except.ok.inj h).symm
  · rename_i hempty
    rw [if_neg hempty]
    exact (Except.ok.inj h).symm

theorem exists_of_emit (h : emit l Overrides.none e = .ok files)
    (hb : (placement l e).bundle? = none) :
    ∃ ms written, modules e.context e.document = .ok ms ∧
      List.Forall₂ (IsFileOf l e (sharedPath l e ms)) ms written ∧
      files = written ++
        if (e.context.shared e.options.omitDeprecated ms).isEmpty then []
        else [⟨sharedPath l e ms, textOfLines ((Style.ofOptions l e.options).sharedLines
          (e.context.shared e.options.omitDeprecated ms)), none⟩] := by
  obtain ⟨ms, written, hms, hwritten, hfiles⟩ := exists_placed_of_emit h hb
  exact ⟨ms, written, hms, hwritten.imp fun _ _ h => h.1, hfiles⟩

/-- Modules are closed. Whenever declarations are written, and not to a single file, there is one
file for each operation and fragment: its last object type is named for the definition, each result
field of a composite type refers to an object type before it, and every other name is an enum, an
input object or what the type is mapped to as a scalar. It imports exactly the shared types that it
mentions, from a file that is written if anything is imported, declares what is imported, and is
closed itself. -/
theorem modules_closed (l : Language) (e : Emission)
    (h : emit l Overrides.none e = .ok files) (hb : (placement l e).bundle? = none) :
    ∃ ms, modules e.context e.document = .ok ms ∧
      ((ms.map fun m => some m.name) = (e.document.operations.map fun o => o.name.map Name.text) ++
        e.context.fragments.values.map fun f => some f.name.text) ∧
      let shared := e.context.shared e.options.omitDeprecated ms
      (∃ written, List.Forall₂ (IsFileOf l e (sharedPath l e ms)) ms written ∧
        files = written ++ if shared.isEmpty then [] else [⟨sharedPath l e ms,
          textOfLines ((Style.ofOptions l e.options).sharedLines shared), none⟩]) ∧
      (∀ m ∈ ms, e.context.ModuleClosed m ∧ ∀ name ∈ m.imports, name ∈ shared.names) ∧
      ((∃ m ∈ ms, m.imports ≠ []) → shared.isEmpty = false) ∧
      e.context.SharedClosed shared := by
  obtain ⟨ms, written, hms, hwritten, hfiles⟩ := exists_of_emit h hb
  have hclosed := moduleClosed_of_modules hms
  have hdeclared : ∀ m ∈ ms, ∀ name ∈ m.imports,
      name ∈ (e.context.shared e.options.omitDeprecated ms).names :=
    fun m hm name hname => (hclosed m hm).mem_shared hm hname
  refine ⟨ms, hms, names_of_modules hms, ⟨written, hwritten, hfiles⟩,
    fun m hm => ⟨hclosed m hm, hdeclared m hm⟩, ?_, ShapeContext.sharedClosed_shared⟩
  rintro ⟨m, hm, hne⟩
  obtain ⟨name, hname⟩ := List.exists_mem_of_ne_nil _ hne
  exact SharedShapes.isEmpty_of_mem_names (hdeclared m hm name hname)

def plainVariable (name : String) (type : TypeRef) : VariableDefinition :=
  ⟨⟨name, none⟩, type, none, none, none, [], none⟩

def plainQuery (parameters : List VariableDefinition) (selections : List Selection) : Document :=
  ⟨[⟨.query, some ⟨"Q", none⟩, parameters, [], selections, none⟩], []⟩

/-- A query with a variable of an object type, which validation does not let pass. -/
def unvalidated : Emission where
  document := plainQuery [plainVariable "u" (.named "Query" false)] [plainField "a" []]
  schema := ⟨[plainType "Query" [("a", "String")], ⟨"String", none, .scalar⟩], some "Query", none,
    none, []⟩
  output := "out"
  beside := false
  options := { Options.standard with passthroughScalars := true, addTypename := false }
  cwd := []

def unvalidatedModule : ModuleShape where
  name := "Q"
  kind := .operation .query
  file := none
  objects := [⟨"Q", [⟨"a", .layered (.named "String" false) (.scalar "string"), false, none⟩], none⟩]
  arguments := some
    ⟨"QVariables", [⟨"u", .layered (.named "Query" false) (.scalar "Query"), true, none⟩], none⟩

/-- The name of the object type passes for that of a scalar, and nothing declares it. -/
theorem names_output_type_of_unvalidated :
    (∃ files, emit .typescript Overrides.none unvalidated = .ok files) ∧
      (placement .typescript unvalidated).bundle? = none ∧
      modules unvalidated.context unvalidated.document = .ok [unvalidatedModule] ∧
      (∃ a ∈ unvalidatedModule.arguments, ∃ p ∈ a.properties,
        p.type = .layered (.named "Query" false) (.scalar "Query")) ∧
      (∀ n ∈ unvalidated.schema.types, n.isScalar = true →
        unvalidated.context.scalars.typeOf n.name ≠ "Query") ∧
      (∀ n ∈ unvalidated.schema.types, n.name = "Query" → n.isEnum = false ∧ n.isInput = false) ∧
      "Query" ∉ unvalidatedModule.objects.map ObjectShape.name ∧
      "Query" ∉ unvalidatedModule.imports := by
  refine ⟨Outcome.exists_of_isSome (by decide +kernel), by decide +kernel, rfl,
    ⟨_, rfl, _, List.mem_cons_self, rfl⟩, by decide, by decide, by decide, by decide +kernel⟩

/-- An object type below the one for the query, and a filter that can be turned around. -/
def filtered : Emission where
  document := plainQuery [plainVariable "f" (.named "Filter" true)]
    [plainField "item" [plainField "size" []]]
  schema := ⟨[plainType "Query" [("item", "Item")], plainType "Item" [("size", "Int")],
    ⟨"Int", none, .scalar⟩, ⟨"Filter", none, .input [⟨"min", none, .named "Int" false, none, none⟩,
      ⟨"not", none, .named "Filter" false, none, none⟩]⟩], some "Query", none, none, []⟩
  output := "out"
  beside := false
  options := { Options.standard with addTypename := false }
  cwd := []

theorem modules_closed_filtered :
    ∃ ms, modules filtered.context filtered.document = .ok ms ∧
      ms.map ModuleShape.imports = [["Filter"]] ∧
      (∀ m ∈ ms, filtered.context.ModuleClosed m ∧
        m.objects.map ObjectShape.name = ["Q_item", "Q"]) ∧
      (filtered.context.shared false ms).isEmpty = false ∧
      filtered.context.SharedClosed (filtered.context.shared false ms) := by
  obtain ⟨files, hfiles⟩ : ∃ files, emit .typescript Overrides.none filtered = .ok files :=
    Outcome.exists_of_isSome (by decide +kernel)
  obtain ⟨ms, hms, -, -, hclosed, hwritten, hshared⟩ :=
    modules_closed .typescript filtered hfiles (by decide +kernel)
  have hseen : ((modules filtered.context filtered.document).toOption.map fun ms =>
      (ms.map ModuleShape.imports, ms.map fun m => m.objects.map ObjectShape.name)) =
        some ([["Filter"]], [["Q_item", "Q"]]) := by
    decide +kernel
  rw [hms, Except.toOption, Option.map_some] at hseen
  obtain ⟨himports, hobjects⟩ := Prod.mk.inj (Option.some.inj hseen)
  refine ⟨ms, hms, himports, fun m hm => ⟨(hclosed m hm).1, ?_⟩, hwritten ?_, hshared⟩
  · have hmem := List.mem_map_of_mem (f := fun m => m.objects.map ObjectShape.name) hm
    rw [hobjects] at hmem
    exact List.mem_singleton.1 hmem
  · have hmem : ["Filter"] ∈ ms.map ModuleShape.imports := by simp [himports]
    obtain ⟨m, hm, heq⟩ := List.mem_map.1 hmem
    exact ⟨m, hm, by simp [heq]⟩

end Types
end QueryTypes
