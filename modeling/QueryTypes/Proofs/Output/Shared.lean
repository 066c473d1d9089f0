import QueryTypes.Proofs.Output.Modules
import QueryTypes.Proofs.Shape.Needed
import QueryTypes.Proofs.Shape.Rearranged

/-!
# What the shared module declares

Whenever modules are built for all definitions, the shared types are collected from a queue that
starts with the names that the modules mention. The queue runs empty, and then exactly the enums and
input objects are declared that are needed, whatever order the definitions come in.
-/

namespace QueryTypes

namespace ShapeContext

/-- The property that declares a field of an input object. -/
structure DeclaresField (cx : ShapeContext) (f : InputValue) (p : Property) : Prop where
  name : p.name = f.name
  type : ∃ leaf, p.type = .layered f.type leaf
  names : cx.NamesInput p.type
  optional : p.optional = !f.type.isRequired
  description : p.description = f.description

variable {cx : ShapeContext} {ms : List ModuleShape} {omitDeprecated : Bool}

theorem forall₂_inputShape (cx : ShapeContext) (t : NamedType) :
    List.Forall₂ cx.DeclaresField t.inputFields (cx.inputShape t).properties := by
  rw [inputShape, List.forall₂_map_right_iff, List.forall₂_same]
  intro f _
  exact ⟨rfl, cx.exists_leaf_inputType f.type, cx.namesInput_inputType f.type, rfl, rfl⟩

/-- The names that the modules mention, as they wait to be taken. -/
def queued (ms : List ModuleShape) : List String :=
  Text.sorted (ms.flatMap ModuleShape.imports).eraseDups

theorem mem_queued_iff {name : String} : name ∈ queued ms ↔ name ∈ ms.flatMap ModuleShape.imports := by
  rw [queued, Text.mem_sorted, List.mem_eraseDups]

theorem exists_drains_shared (hms : ∀ m ∈ ms, cx.ModuleClosed m) :
    ∃ taken, (∀ taken', Closure.Drains cx.mentions (queued ms) [] taken' ↔ taken' = taken) ∧
      taken.Perm (cx.shared omitDeprecated ms).names := by
  have hknown : ∀ name ∈ queued ms, name ∈ cx.schema.types.map NamedType.name := by
    intro name hname
    obtain ⟨t, ht, -⟩ := exists_needed_of_mem_imports hms (mem_queued_iff.1 hname)
    exact mem_names_of_type? ht
  have hnext : ∀ name, ∀ name' ∈ cx.mentions name, name' ∈ cx.schema.types.map NamedType.name :=
    fun _ _ => mem_names_of_mem_mentions
  obtain ⟨taken, hdrains, hperm⟩ := Closure.exists_drains_reach hnext hknown
  refine ⟨taken, hdrains, hperm.trans ?_⟩
  have hnames : (cx.shared omitDeprecated ms).names.Perm _ := names_shared_perm hms
  rw [sharedNames_congr fun name => mem_queued_iff.symm, sharedNames] at hnames
  exact (hnames.trans (List.mergeSort_perm _ _)).symm

theorem mem_enums_iff (hms : ∀ m ∈ ms, cx.ModuleClosed m) {shape : EnumShape} :
    shape ∈ (cx.shared omitDeprecated ms).enums ↔
      ∃ t, cx.Needed ms t ∧ t.isEnum = true ∧ shape = enumShape omitDeprecated t := by
  change shape ∈ ((cx.sharedTypes ms).filter NamedType.isEnum).map _ ↔ _
  simp only [List.mem_map, List.mem_filter, mem_sharedTypes_iff hms, and_assoc, eq_comm]

theorem mem_inputs_iff (hms : ∀ m ∈ ms, cx.ModuleClosed m) {shape : ObjectShape} :
    shape ∈ (cx.shared omitDeprecated ms).inputs ↔
      ∃ t, cx.Needed ms t ∧ t.isInput = true ∧ shape = cx.inputShape t := by
  change shape ∈ ((cx.sharedTypes ms).filter NamedType.isInput).map _ ↔ _
  simp only [List.mem_map, List.mem_filter, mem_sharedTypes_iff hms, and_assoc, eq_comm]

theorem pairwise_enums (hms : ∀ m ∈ ms, cx.ModuleClosed m) :
    (cx.shared omitDeprecated ms).enums.Pairwise fun a b => a.name < b.name :=
  List.pairwise_map.2 ((pairwise_sharedTypes hms).filter _)

theorem pairwise_inputs (hms : ∀ m ∈ ms, cx.ModuleClosed m) :
    (cx.shared omitDeprecated ms).inputs.Pairwise fun a b => a.name < b.name :=
  List.pairwise_map.2 ((pairwise_sharedTypes hms).filter _)

end ShapeContext

namespace Types

open ShapeContext

variable {e : Emission} {ms : List ModuleShape}

theorem shared_rearranged {d : Document} (hd : e.document.Rearranges d)
    (h : modules e.context e.document = .ok ms) :
    ∃ ms', modules { e with document := d }.context d = .ok ms' ∧
      { e with document := d }.context.shared e.options.omitDeprecated ms' =
        e.context.shared e.options.omitDeprecated ms := by
  have hcx : e.context.Rearranges { e with document := d }.context :=
    ⟨rfl, rfl, Table.nodup_keys_ofList _, hd.fragments⟩
  obtain ⟨ms', hms', hperm⟩ := exists_modules_rearranged hcx hd.operations h
  refine ⟨ms', hms', ?_⟩
  rw [shared_of_perm hperm]
  rfl

/-- The shared types are those that are needed. Whenever modules are built, the queue of names runs
empty, and the names taken are those of the enums and input objects that are declared, each once and
sorted by name: the needed ones and no others, each input object with all its fields as the schema
has them. They are the same for the definitions in any order. -/
theorem shared_types_are_needed (e : Emission) (h : modules e.context e.document = .ok ms) :
    let shared := e.context.shared e.options.omitDeprecated ms
    (∃ taken,
      (∀ taken', Closure.Drains e.context.mentions (queued ms) [] taken' ↔ taken' = taken) ∧
      taken.Perm shared.names) ∧
    (∀ shape, shape ∈ shared.enums ↔ ∃ t, e.context.Needed ms t ∧ t.isEnum = true ∧
      shape = enumShape e.options.omitDeprecated t) ∧
    (∀ shape, shape ∈ shared.inputs ↔ ∃ t, e.context.Needed ms t ∧ t.isInput = true ∧
      shape = e.context.inputShape t) ∧
    (shared.enums.Pairwise fun a b => a.name < b.name) ∧
    (shared.inputs.Pairwise fun a b => a.name < b.name) ∧
    (∀ t, List.Forall₂ e.context.DeclaresField t.inputFields
      (e.context.inputShape t).properties) ∧
    ∀ d, e.document.Rearranges d → ∃ ms', modules { e with document := d }.context d = .ok ms' ∧
      { e with document := d }.context.shared e.options.omitDeprecated ms' = shared := by
  have hms := moduleClosed_of_modules h
  refine ⟨exists_drains_shared hms, fun _ => mem_enums_iff hms, fun _ => mem_inputs_iff hms,
    pairwise_enums hms, pairwise_inputs hms, e.context.forall₂_inputShape, fun d hd => ?_⟩
  exact shared_rearranged hd h

/-- Two queries, of which one has a filter that leads to another and back, and a fragment. -/
def combined : Emission where
  document := ⟨[
      ⟨.query, some ⟨"Q", none⟩, [plainVariable "f" (.named "Filter" true)], [],
        [plainField "a" []], none⟩,
      ⟨.query, some ⟨"P", none⟩, [], [], [plainField "a" [], .spread ⟨"F", none⟩ [] none], none⟩],
    [⟨⟨"F", none⟩, ⟨"Query", none⟩, [], [plainField "state" []], none⟩]⟩
  schema := ⟨[plainType "Query" [("a", "String"), ("state", "State")],
    ⟨"String", none, .scalar⟩, ⟨"Unused", none, .enum []⟩,
    ⟨"State", none, .enum [⟨"ON", none, none⟩]⟩,
    ⟨"Range", none, .input [⟨"within", none, .named "Filter" false, none, none⟩,
      ⟨"unit", none, .named "Unit" true, none, none⟩]⟩,
    ⟨"Unit", none, .enum [⟨"KM", none, none⟩]⟩,
    ⟨"Filter", none, .input [⟨"range", none, .list (.named "Range" true) false, none, none⟩,
      ⟨"not", none, .named "Filter" false, none, none⟩]⟩], some "Query", none, none, []⟩
  output := "out"
  beside := false
  options := { Options.standard with addTypename := false }
  cwd := []

def turned : Document :=
  ⟨combined.document.operations.reverse, combined.document.fragments⟩

theorem shared_types_are_needed_combined :
    ∃ ms, modules combined.context combined.document = .ok ms ∧
      (combined.context.shared false ms).names.Perm ["Unit", "Range", "State", "Filter"] ∧
      (∀ shape ∈ (combined.context.shared false ms).inputs,
        ∃ t, combined.context.Needed ms t ∧ shape = combined.context.inputShape t) ∧
      ∃ ms', modules { combined with document := turned }.context turned = .ok ms' ∧
        { combined with document := turned }.context.shared false ms' =
          combined.context.shared false ms := by
  obtain ⟨ms, hms⟩ : ∃ ms, modules combined.context combined.document = .ok ms :=
    Outcome.exists_of_isSome (by decide +kernel)
  obtain ⟨-, -, hinputs, -, -, -, hturned⟩ := shared_types_are_needed combined hms
  have hseen : ((modules combined.context combined.document).toOption.map fun ms =>
      Closure.reach (combined.context.schema.types.map NamedType.name) combined.context.mentions
        (ms.flatMap ModuleShape.imports)) = some ["Unit", "Range", "State", "Filter"] := by
    decide +kernel
  rw [hms, Except.toOption, Option.map_some] at hseen
  refine ⟨ms, hms, ?_, fun shape hshape => ?_, hturned turned ?_⟩
  · rw [← Option.some.inj hseen]
    exact (names_shared_perm (moduleClosed_of_modules hms)).trans (List.mergeSort_perm _ _)
  · obtain ⟨t, hneeded, -, hshape⟩ := (hinputs shape).1 hshape
    exact ⟨t, hneeded, hshape⟩
  · exact .of_perm (by decide) (List.reverse_perm _).symm (.refl _)

end Types
end QueryTypes
