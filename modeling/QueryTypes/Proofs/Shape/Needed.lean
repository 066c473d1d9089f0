import QueryTypes.Proofs.Closure
import QueryTypes.Proofs.Shape.Closed

/-!
# Shared types that are needed

An enum or input object is needed if a result field or a variable mentions it, or a field of an
input object that is needed. The shared module declares the needed types and no others. The search
for them ends whatever input objects lead to, also when names wait in a queue for it.
-/

namespace QueryTypes.ShapeContext

open Closure (Reachable)

variable {cx : ShapeContext} {ms ms' : List ModuleShape} {t : NamedType} {name k : String}
  {omitDeprecated : Bool} {start start' : List String}

/-- The enums and input objects that the modules mention, inside any layers, and those that input
objects lead to. -/
inductive Needed (cx : ShapeContext) (ms : List ModuleShape) : NamedType → Prop
  | result {m : ModuleShape} {o : ObjectShape} {p : Property} {t : NamedType} :
      m ∈ ms → o ∈ m.objects → p ∈ o.properties → p.HasLeaf t.name →
        cx.schema.type? t.name = some t → t.isEnum = true → Needed cx ms t
  | argument {m : ModuleShape} {o : ObjectShape} {p : Property} {t : NamedType} :
      m ∈ ms → o ∈ m.arguments → p ∈ o.properties → p.HasLeaf t.name →
        cx.schema.type? t.name = some t → t.isEnum = true ∨ t.isInput = true → Needed cx ms t
  | field {u t : NamedType} {f : InputValue} :
      Needed cx ms u → f ∈ u.inputFields → f.type.leaf = t.name →
        cx.schema.type? t.name = some t → t.isEnum = true ∨ t.isInput = true → Needed cx ms t

/-! ### Names and types -/

theorem exists_leaf_inputType (cx : ShapeContext) (type : TypeRef) :
    ∃ leaf, cx.inputType type = .layered type leaf := by
  unfold inputType
  cases cx.schema.type? type.leaf with
  | none => exact ⟨_, rfl⟩
  | some n => exact ⟨_, rfl⟩

theorem shared?_inputType_iff {type : TypeRef} : (cx.inputType type).shared? = some name ↔
    (∃ t, cx.schema.type? name = some t ∧ (t.isEnum = true ∨ t.isInput = true)) ∧
      type.leaf = name := by
  let p : Property := ⟨"", cx.inputType type, false, none⟩
  obtain ⟨leaf, hleaf⟩ := cx.exists_leaf_inputType type
  have htype : p.type = .layered type leaf := hleaf
  have hnames : cx.NamesInput p.type := cx.namesInput_inputType type
  rw [← Property.hasLeaf_iff htype]
  exact hnames.shared?_eq_some_iff

theorem mem_mentions_iff : name ∈ cx.mentions k ↔
    ∃ u, cx.schema.type? k = some u ∧ ∃ f ∈ u.inputFields, f.type.leaf = name ∧
      ∃ t, cx.schema.type? name = some t ∧ (t.isEnum = true ∨ t.isInput = true) := by
  rw [mentions]
  cases cx.schema.type? k with
  | none => simp
  | some u =>
    simp only [List.mem_filterMap, shared?_inputType_iff, Option.some.injEq, exists_eq_left']
    refine exists_congr fun f => and_congr_right fun _ => ?_
    exact and_comm

theorem mem_names_of_mem_mentions (h : name ∈ cx.mentions k) :
    name ∈ cx.schema.types.map NamedType.name := by
  obtain ⟨-, -, -, -, -, t, ht, -⟩ := mem_mentions_iff.1 h
  exact mem_names_of_type? ht

theorem exists_needed_of_mem_imports (hms : ∀ m ∈ ms, cx.ModuleClosed m)
    (h : name ∈ ms.flatMap ModuleShape.imports) :
    ∃ t, cx.schema.type? name = some t ∧ cx.Needed ms t := by
  obtain ⟨m, hm, hname⟩ := List.mem_flatMap.1 h
  obtain ⟨t, ht, hmentions⟩ := ((hms m hm).mem_imports_iff name).1 hname
  obtain rfl := Schema.name_of_type? ht
  rcases hmentions with ⟨henum, o, ho, p, hp, hleaf⟩ | ⟨hkind, o, ho, p, hp, hleaf⟩
  · exact ⟨t, ht, .result hm ho hp hleaf ht henum⟩
  · exact ⟨t, ht, .argument hm ho hp hleaf ht hkind⟩

theorem Needed.type? (h : cx.Needed ms t) : cx.schema.type? t.name = some t := by
  cases h with
  | result _ _ _ _ ht _ => exact ht
  | argument _ _ _ _ ht _ => exact ht
  | field _ _ _ ht _ => exact ht

theorem Needed.kind (h : cx.Needed ms t) : t.isEnum = true ∨ t.isInput = true := by
  cases h with
  | result _ _ _ _ _ henum => exact .inl henum
  | argument _ _ _ _ _ hkind => exact hkind
  | field _ _ _ _ hkind => exact hkind

/-! ### Needed types are those that can be reached -/

theorem Needed.reachable (hms : ∀ m ∈ ms, cx.ModuleClosed m) (h : cx.Needed ms t) :
    Reachable (cx.schema.types.map NamedType.name) cx.mentions (ms.flatMap ModuleShape.imports)
      t.name := by
  induction h with
  | result hm ho hp hleaf ht henum =>
    have himports := ((hms _ hm).mem_imports_iff _).2 ⟨_, ht, .inl ⟨henum, _, ho, _, hp, hleaf⟩⟩
    exact .start (List.mem_flatMap.2 ⟨_, hm, himports⟩) (mem_names_of_type? ht)
  | argument hm ho hp hleaf ht hkind =>
    have himports := ((hms _ hm).mem_imports_iff _).2 ⟨_, ht, .inr ⟨hkind, _, ho, _, hp, hleaf⟩⟩
    exact .start (List.mem_flatMap.2 ⟨_, hm, himports⟩) (mem_names_of_type? ht)
  | field hu hf hleaf ht hkind ih =>
    have hmentions := mem_mentions_iff.2 ⟨_, hu.type?, _, hf, hleaf, _, ht, hkind⟩
    exact .step ih hmentions (mem_names_of_type? ht)

theorem exists_needed_of_reachable (hms : ∀ m ∈ ms, cx.ModuleClosed m)
    (h : Reachable (cx.schema.types.map NamedType.name) cx.mentions
      (ms.flatMap ModuleShape.imports) name) :
    ∃ t, cx.schema.type? name = some t ∧ cx.Needed ms t := by
  induction h with
  | start hname _ => exact exists_needed_of_mem_imports hms hname
  | step _ hmentions _ ih =>
    obtain ⟨u, hu, f, hf, hleaf, t, ht, hkind⟩ := mem_mentions_iff.1 hmentions
    obtain ⟨u', hu', hneeded⟩ := ih
    obtain rfl := Option.some.inj (hu.symm.trans hu')
    obtain rfl := Schema.name_of_type? ht
    exact ⟨t, ht, .field hneeded hf hleaf ht hkind⟩

theorem mem_sharedNames_iff : name ∈ cx.sharedNames start ↔
    Reachable (cx.schema.types.map NamedType.name) cx.mentions start name := by
  rw [sharedNames, Text.mem_sorted, Closure.mem_reach_iff]

/-- The types that the shared module is made of. -/
def sharedTypes (cx : ShapeContext) (ms : List ModuleShape) : List NamedType :=
  (cx.sharedNames (ms.flatMap ModuleShape.imports)).filterMap cx.schema.type?

theorem mem_sharedTypes_iff (hms : ∀ m ∈ ms, cx.ModuleClosed m) :
    t ∈ cx.sharedTypes ms ↔ cx.Needed ms t := by
  rw [sharedTypes, List.mem_filterMap]
  constructor
  · rintro ⟨name, hname, ht⟩
    obtain ⟨t', ht', hneeded⟩ := exists_needed_of_reachable hms (mem_sharedNames_iff.1 hname)
    obtain rfl := Option.some.inj (ht.symm.trans ht')
    exact hneeded
  · intro h
    exact ⟨t.name, mem_sharedNames_iff.2 (h.reachable hms), h.type?⟩

theorem map_name_sharedTypes (hms : ∀ m ∈ ms, cx.ModuleClosed m) :
    (cx.sharedTypes ms).map NamedType.name =
      cx.sharedNames (ms.flatMap ModuleShape.imports) := by
  have hknown : ∀ name ∈ cx.sharedNames (ms.flatMap ModuleShape.imports),
      (cx.schema.type? name).map NamedType.name = some name := by
    intro name hname
    obtain ⟨t, ht, -⟩ := exists_needed_of_reachable hms (mem_sharedNames_iff.1 hname)
    rw [ht, Option.map_some, Schema.name_of_type? ht]
  rw [sharedTypes, List.map_filterMap, List.filterMap_congr hknown, List.filterMap_some]

theorem pairwise_sharedTypes (hms : ∀ m ∈ ms, cx.ModuleClosed m) :
    (cx.sharedTypes ms).Pairwise fun t u => t.name < u.name := by
  rw [← List.pairwise_map, map_name_sharedTypes hms]
  exact Text.pairwise_sorted (Closure.nodup_reach _ _ _)

theorem isEnum_eq_not_isInput (h : t.isEnum = true ∨ t.isInput = true) :
    t.isInput = !t.isEnum := by
  obtain ⟨name, description, body⟩ := t
  cases body <;> simp_all [NamedType.isEnum, NamedType.isInput]

/-- What is declared are the types that were found. -/
theorem names_shared_perm (hms : ∀ m ∈ ms, cx.ModuleClosed m) :
    (cx.shared omitDeprecated ms).names.Perm
      (cx.sharedNames (ms.flatMap ModuleShape.imports)) := by
  have hinputs : (cx.sharedTypes ms).filter NamedType.isInput =
      (cx.sharedTypes ms).filter fun t => !t.isEnum := by
    apply List.filter_congr
    intro t ht
    exact isEnum_eq_not_isInput ((mem_sharedTypes_iff hms).1 ht).kind
  have hsplit := List.filter_append_perm NamedType.isEnum (cx.sharedTypes ms)
  rw [← hinputs] at hsplit
  have hnames : (cx.shared omitDeprecated ms).names =
      ((cx.sharedTypes ms).filter NamedType.isEnum ++
        (cx.sharedTypes ms).filter NamedType.isInput).map NamedType.name := by
    rw [List.map_append, SharedShapes.names, shared, sharedTypes, List.map_map, List.map_map]
    rfl
  rw [hnames, ← map_name_sharedTypes hms]
  exact hsplit.map NamedType.name

/-! ### What the shared module depends on -/

theorem sharedNames_congr (h : ∀ n, n ∈ start ↔ n ∈ start') :
    cx.sharedNames start = cx.sharedNames start' := by
  have hreach : ∀ {start start' : List String}, (∀ n ∈ start, n ∈ start') → ∀ {n : String},
      Reachable (cx.schema.types.map NamedType.name) cx.mentions start n →
        Reachable (cx.schema.types.map NamedType.name) cx.mentions start' n := by
    intro start start' hsub n hn
    induction hn with
    | start hn hk => exact .start (hsub _ hn) hk
    | step _ hn hk ih => exact .step ih hn hk
  apply Text.eq_of_pairwise_lt id (Text.pairwise_sorted (Closure.nodup_reach _ _ _))
    (Text.pairwise_sorted (Closure.nodup_reach _ _ _))
  intro n
  rw [Text.mem_sorted, Text.mem_sorted, Closure.mem_reach_iff, Closure.mem_reach_iff]
  exact ⟨hreach fun n => (h n).1, hreach fun n => (h n).2⟩

theorem shared_of_perm (h : ms.Perm ms') :
    cx.shared omitDeprecated ms = cx.shared omitDeprecated ms' := by
  have himports : cx.sharedNames (ms.flatMap ModuleShape.imports) =
      cx.sharedNames (ms'.flatMap ModuleShape.imports) :=
    sharedNames_congr fun n => (h.flatMap_right _).mem_iff
  rw [shared, shared, himports]

end QueryTypes.ShapeContext
