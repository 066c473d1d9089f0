import QueryTypes.Proofs.Closure
import QueryTypes.Proofs.Schema.Types
import QueryTypes.Proofs.Shape.Tree
import QueryTypes.Proofs.Text.Sorted
import QueryTypes.Shape.Shared

/-!
# Names in type expressions

Every name that a generated module mentions is declared: object types earlier in the same module,
enums and input objects in the shared module, which the module imports them from. All other names
are what scalars are mapped to.
-/

namespace QueryTypes

/-- The property has a type of this name, inside all layers. -/
def Property.HasLeaf (p : Property) (name : String) : Prop :=
  ∃ t leaf, p.type = .layered t leaf ∧ t.leaf = name

theorem Property.hasLeaf_iff {p : Property} {t : TypeRef} {leaf : LeafType}
    (h : p.type = .layered t leaf) {name : String} : p.HasLeaf name ↔ t.leaf = name := by
  constructor
  · rintro ⟨t', leaf', ht, rfl⟩
    obtain ⟨rfl, -⟩ := PropertyType.layered.inj (h.symm.trans ht)
    rfl
  · intro hleaf
    exact ⟨t, leaf, h, hleaf⟩

def SharedShapes.names (s : SharedShapes) : List String :=
  s.enums.map EnumShape.name ++ s.inputs.map ObjectShape.name

namespace ShapeContext

/-- What the type of a result field is written with, after the given object types: an object type
for a composite type, the name of an enum, and what a scalar is mapped to for anything else. -/
inductive NamesResult (cx : ShapeContext) (earlier : List String) : PropertyType → Prop
  | typename (names : List String) : NamesResult cx earlier (.typename names)
  | object {t : TypeRef} {n : NamedType} {name : String} (ht : cx.schema.type? t.leaf = some n)
      (hn : n.isComposite = true) (hname : name ∈ earlier) :
      NamesResult cx earlier (.layered t (.object name))
  | enum {t : TypeRef} {n : NamedType} (ht : cx.schema.type? t.leaf = some n)
      (hn : n.isEnum = true) : NamesResult cx earlier (.layered t (.shared t.leaf))
  | scalar {t : TypeRef} (ht : ∀ n, cx.schema.type? t.leaf = some n →
      n.isComposite = false ∧ n.isEnum = false) :
      NamesResult cx earlier (.layered t (.scalar (cx.scalars.typeOf t.leaf)))

/-- What the type of a variable or of a field of an input object is written with. -/
inductive NamesInput (cx : ShapeContext) : PropertyType → Prop
  | shared {t : TypeRef} {n : NamedType} (ht : cx.schema.type? t.leaf = some n)
      (hn : n.isEnum = true ∨ n.isInput = true) : NamesInput cx (.layered t (.shared t.leaf))
  | scalar {t : TypeRef} (ht : ∀ n, cx.schema.type? t.leaf = some n →
      n.isEnum = false ∧ n.isInput = false) :
      NamesInput cx (.layered t (.scalar (cx.scalars.typeOf t.leaf)))

/-- Object types of which each one refers to earlier ones only. -/
inductive InOrder (cx : ShapeContext) : List ObjectShape → Prop
  | nil : InOrder cx []
  | snoc {os : List ObjectShape} {o : ObjectShape} (hos : InOrder cx os)
      (ho : ∀ p ∈ o.properties, cx.NamesResult (os.map ObjectShape.name) p.type) :
      InOrder cx (os ++ [o])

variable {cx : ShapeContext} {earlier later : List String} {type : PropertyType}

theorem NamesResult.mono (h : cx.NamesResult earlier type) (hsub : ∀ n ∈ earlier, n ∈ later) :
    cx.NamesResult later type := by
  cases h with
  | typename names => exact .typename names
  | object ht hn hname => exact .object ht hn (hsub _ hname)
  | enum ht hn => exact .enum ht hn
  | scalar ht => exact .scalar ht

theorem InOrder.append {os ps : List ObjectShape} (hos : cx.InOrder os) (hps : cx.InOrder ps) :
    cx.InOrder (os ++ ps) := by
  induction hps with
  | nil => rwa [List.append_nil]
  | snoc _ ho ih =>
    rw [← List.append_assoc]
    refine .snoc ih fun p hp => (ho p hp).mono fun n hn => ?_
    rw [List.map_append]
    exact List.mem_append_right _ hn

theorem leaf_eq (cx : ShapeContext) (name : String) :
    (cx.leaf name = .shared name ∧ ∃ n, cx.schema.type? name = some n ∧ n.isEnum = true) ∨
      cx.leaf name = .scalar (cx.scalars.typeOf name) ∧
        ∀ n, cx.schema.type? name = some n → n.isEnum = false := by
  unfold leaf
  cases ht : cx.schema.type? name with
  | none => exact .inr ⟨rfl, by simp⟩
  | some n =>
    by_cases hn : n.isEnum = true
    · exact .inl ⟨if_pos hn, n, rfl, hn⟩
    · refine .inr ⟨if_neg hn, ?_⟩
      intro n' hn'
      obtain rfl := Option.some.inj hn'
      simpa using hn

theorem namesInput_inputType (cx : ShapeContext) (t : TypeRef) :
    cx.NamesInput (cx.inputType t) := by
  unfold inputType
  cases ht : cx.schema.type? t.leaf with
  | none =>
    rcases cx.leaf_eq t.leaf with ⟨-, n, hn, -⟩ | ⟨hleaf, -⟩
    · simp [ht] at hn
    · dsimp only
      rw [hleaf]
      exact .scalar (by simp [ht])
  | some n =>
    have hname := Schema.name_of_type? ht
    dsimp only
    rw [hname]
    by_cases hn : n.isInput = true
    · rw [if_pos hn]
      exact .shared ht (.inr hn)
    · rw [if_neg hn]
      rcases cx.leaf_eq t.leaf with ⟨hleaf, n', hn', henum⟩ | ⟨hleaf, hnone⟩
      · rw [hleaf]
        exact .shared hn' (.inl henum)
      · rw [hleaf]
        refine .scalar fun n' hn' => ⟨hnone n' hn', ?_⟩
        obtain rfl := Option.some.inj (ht.symm.trans hn')
        simpa using hn

/-- What is made of an entry names the object type below it, if there is one. -/
theorem namesResult_of_sprout {n : Nat} {name : String} {e : Entry} {p : Property}
    {b : Option (String × ShapeTree)} (h : cx.sprout (cx.grow n) name e = .ok (p, b)) :
    (b = none ∧ cx.NamesResult [] p.type) ∨
      ∃ k N, b = some (k, N) ∧ (∃ t ss, cx.grow n (name ++ "_" ++ e.key) t ss = .ok N) ∧
        cx.NamesResult [name ++ "_" ++ e.key] p.type := by
  rw [sprout] at h
  by_cases htypename : (e.field == "__typename") = true
  · rw [if_pos htypename] at h
    obtain ⟨rfl, rfl⟩ := Prod.mk.inj (Except.ok.inj h)
    exact .inl ⟨rfl, .typename _⟩
  · rw [if_neg htypename] at h
    obtain ⟨⟨type, description⟩, -, h⟩ := Outcome.bind_eq_ok_iff.1 h
    cases ht : (cx.schema.type? type.leaf).filter NamedType.isComposite with
    | none =>
      simp only [ht] at h
      obtain ⟨rfl, rfl⟩ := Prod.mk.inj (Except.ok.inj h)
      refine .inl ⟨rfl, ?_⟩
      rcases cx.leaf_eq type.leaf with ⟨hleaf, n, hn, henum⟩ | ⟨hleaf, hnone⟩
      · simp only [hleaf]
        exact .enum hn henum
      · simp only [hleaf]
        refine .scalar fun n hn => ⟨?_, hnone n hn⟩
        rw [hn] at ht
        simpa using ht
    | some t =>
      simp only [ht] at h
      obtain ⟨N, hN, h⟩ := Outcome.bind_eq_ok_iff.1 h
      obtain ⟨rfl, rfl⟩ := Prod.mk.inj (Except.ok.inj h)
      obtain ⟨hn, hcomposite⟩ := Option.filter_eq_some_iff.1 ht
      exact .inr ⟨_, N, rfl, ⟨t, e.selections, hN⟩, .object hn hcomposite List.mem_cons_self⟩

/-- Object types in order, the last of which has a name. -/
structure Ends (cx : ShapeContext) (name : String) (os : List ObjectShape) : Prop where
  inOrder : cx.InOrder os
  last : os.getLast?.map ObjectShape.name = some name

theorem Ends.mem {name : String} {os : List ObjectShape} (h : cx.Ends name os) :
    name ∈ os.map ObjectShape.name := by
  obtain ⟨o, ho, rfl⟩ := Option.map_eq_some_iff.1 h.last
  exact List.mem_map_of_mem (List.mem_of_getLast? ho)

theorem mem_flattens {bs : List (String × ShapeTree)} {b : String × ShapeTree} (hb : b ∈ bs)
    {o : ObjectShape} (ho : o ∈ b.2.flatten) : o ∈ ShapeTree.flattens bs := by
  induction bs with
  | nil => simp at hb
  | cons c bs ih =>
    rw [ShapeTree.flattens]
    rcases List.mem_cons.1 hb with rfl | hb
    · exact List.mem_append_left _ ho
    · exact List.mem_append_right _ (ih hb)

theorem inOrder_flattens {bs : List (String × ShapeTree)}
    (h : ∀ b ∈ bs, cx.InOrder b.2.flatten) : cx.InOrder (ShapeTree.flattens bs) := by
  induction bs with
  | nil => exact .nil
  | cons b bs ih =>
    rw [ShapeTree.flattens]
    exact (h b List.mem_cons_self).append (ih fun c hc => h c (List.mem_cons_of_mem _ hc))

theorem ends_flatten {n : Nat} {name : String} {parent : NamedType} {ss : List Selection}
    {N : ShapeTree} (h : cx.grow n name parent ss = .ok N) : cx.Ends name N.flatten := by
  induction n generalizing name parent ss N with
  | zero => exact absurd h (by simp [grow])
  | succ n ih =>
    obtain ⟨m, es, parts, hm, -, hparts, rfl⟩ := exists_parts_of_grow h
    obtain rfl := Nat.succ.inj hm
    have hsprout := (Outcome.mem_of_mapM hparts).2
    have hbranch : ∀ b ∈ parts.filterMap Prod.snd, cx.InOrder b.2.flatten := by
      intro b hb
      obtain ⟨part, hpart, hb⟩ := List.mem_filterMap.1 hb
      obtain ⟨e, -, he⟩ := hsprout part hpart
      rcases namesResult_of_sprout he with ⟨hnone, -⟩ | ⟨k, N, hN, ⟨t, ss, hgrow⟩, -⟩
      · simp [hb] at hnone
      · obtain rfl := Option.some.inj (hb.symm.trans hN)
        exact (ih hgrow).inOrder
    rw [ShapeTree.flatten]
    -- the branches stand before their node, each ending with the object type that is named there
    refine ⟨.snoc (inOrder_flattens hbranch) ?_, by simp⟩
    intro p hp
    obtain ⟨part, hpart, rfl⟩ := List.mem_map.1 hp
    obtain ⟨e, -, he⟩ := hsprout part hpart
    rcases namesResult_of_sprout he with ⟨-, hnames⟩ | ⟨k, N, hN, ⟨t, ss, hgrow⟩, hnames⟩
    · exact hnames.mono (by simp)
    · refine hnames.mono fun m hm => ?_
      rw [List.mem_singleton.1 hm]
      obtain ⟨o, ho, hname⟩ := List.mem_map.1 (ih hgrow).mem
      have hbranches : (k, N) ∈ parts.filterMap Prod.snd := List.mem_filterMap.2 ⟨part, hpart, hN⟩
      exact List.mem_map.2 ⟨o, mem_flattens hbranches ho, hname⟩

theorem InOrder.namesResult {os : List ObjectShape} (h : cx.InOrder os) {o : ObjectShape}
    (ho : o ∈ os) {p : Property} (hp : p ∈ o.properties) :
    ∃ earlier, cx.NamesResult earlier p.type := by
  induction h with
  | nil => simp at ho
  | snoc _ hlast ih =>
    rcases List.mem_append.1 ho with ho | ho
    · exact ih ho
    · obtain rfl := List.mem_singleton.1 ho
      exact ⟨_, hlast p hp⟩

theorem isEnum_of_isComposite {n : NamedType} (h : n.isComposite = true) : n.isEnum = false := by
  obtain ⟨name, description, body⟩ := n
  cases body with
  | enum values => exact absurd h Bool.false_ne_true
  | scalar => rfl
  | object interfaces fields => rfl
  | interface interfaces fields => rfl
  | union members => rfl
  | input fields => rfl

/-- A result field mentions a shared type exactly if its type is an enum. -/
theorem NamesResult.shared?_eq_some_iff {p : Property} (h : cx.NamesResult earlier p.type)
    {name : String} : p.type.shared? = some name ↔
      (∃ n, cx.schema.type? name = some n ∧ n.isEnum = true) ∧ p.HasLeaf name := by
  generalize htype : p.type = type at h
  cases h with
  | typename names => simp [PropertyType.shared?, Property.HasLeaf, htype]
  | object ht hn hname =>
    rw [Property.hasLeaf_iff htype]
    refine iff_of_false (by simp [PropertyType.shared?]) ?_
    rintro ⟨⟨n', hn', henum⟩, rfl⟩
    obtain rfl := Option.some.inj (ht.symm.trans hn')
    simp [isEnum_of_isComposite hn] at henum
  | @enum t n ht hn =>
    rw [Property.hasLeaf_iff htype]
    constructor
    · intro hs
      obtain rfl : t.leaf = name := by simpa [PropertyType.shared?] using hs
      exact ⟨⟨n, ht, hn⟩, rfl⟩
    · rintro ⟨-, rfl⟩
      rfl
  | scalar ht =>
    rw [Property.hasLeaf_iff htype]
    refine iff_of_false (by simp [PropertyType.shared?]) ?_
    rintro ⟨⟨n', hn', henum⟩, rfl⟩
    simp [(ht n' hn').2] at henum

theorem NamesInput.shared?_eq_some_iff {p : Property} (h : cx.NamesInput p.type) {name : String} :
    p.type.shared? = some name ↔
      (∃ n, cx.schema.type? name = some n ∧ (n.isEnum = true ∨ n.isInput = true)) ∧
        p.HasLeaf name := by
  generalize htype : p.type = type at h
  cases h with
  | @shared t n ht hn =>
    rw [Property.hasLeaf_iff htype]
    constructor
    · intro hs
      obtain rfl : t.leaf = name := by simpa [PropertyType.shared?] using hs
      exact ⟨⟨n, ht, hn⟩, rfl⟩
    · rintro ⟨-, rfl⟩
      rfl
  | scalar ht =>
    rw [Property.hasLeaf_iff htype]
    refine iff_of_false (by simp [PropertyType.shared?]) ?_
    rintro ⟨⟨n', hn', hshared⟩, rfl⟩
    simp [(ht n' hn').1, (ht n' hn').2] at hshared

/-- A module that mentions nothing but what it declares, imports or maps scalars to. It imports the
enums that its result fields mention, with the enums and input objects that its variables do. -/
structure ModuleClosed (cx : ShapeContext) (m : ModuleShape) : Prop where
  objects : cx.Ends m.name m.objects
  arguments : ∀ o ∈ m.arguments, ∀ p ∈ o.properties, cx.NamesInput p.type
  imports_ordered : m.imports.Pairwise (· < ·)
  mem_imports_iff : ∀ name, name ∈ m.imports ↔ ∃ n, cx.schema.type? name = some n ∧
    (n.isEnum = true ∧ (∃ o ∈ m.objects, ∃ p ∈ o.properties, p.HasLeaf name) ∨
      (n.isEnum = true ∨ n.isInput = true) ∧
        ∃ o ∈ m.arguments, ∃ p ∈ o.properties, p.HasLeaf name)

theorem mem_imports {m : ModuleShape} {name : String} : name ∈ m.imports ↔
    (∃ o ∈ m.objects, ∃ p ∈ o.properties, p.type.shared? = some name) ∨
      ∃ o ∈ m.arguments, ∃ p ∈ o.properties, p.type.shared? = some name := by
  simp only [ModuleShape.imports, Text.mem_sorted, List.mem_eraseDups, List.mem_flatMap,
    List.mem_append, Option.mem_toList, ObjectShape.shared, List.mem_filterMap]
  constructor
  · rintro ⟨o, ho | ho, hp⟩
    · exact .inl ⟨o, ho, hp⟩
    · exact .inr ⟨o, ho, hp⟩
  · rintro (⟨o, ho, hp⟩ | ⟨o, ho, hp⟩)
    · exact ⟨o, .inl ho, hp⟩
    · exact ⟨o, .inr ho, hp⟩

theorem moduleClosed_of_ends {m : ModuleShape} (hends : cx.Ends m.name m.objects)
    (harguments : ∀ o ∈ m.arguments, ∀ p ∈ o.properties, cx.NamesInput p.type) :
    cx.ModuleClosed m := by
  refine ⟨hends, harguments, Text.pairwise_sorted (Text.nodup_eraseDups _), fun name => ?_⟩
  rw [mem_imports]
  constructor
  · rintro (⟨o, ho, p, hp, hs⟩ | ⟨o, ho, p, hp, hs⟩)
    · obtain ⟨earlier, hnames⟩ := hends.inOrder.namesResult ho hp
      obtain ⟨⟨n, hn, henum⟩, hleaf⟩ := hnames.shared?_eq_some_iff.1 hs
      exact ⟨n, hn, .inl ⟨henum, o, ho, p, hp, hleaf⟩⟩
    · obtain ⟨⟨n, hn, hkind⟩, hleaf⟩ := (harguments o ho p hp).shared?_eq_some_iff.1 hs
      exact ⟨n, hn, .inr ⟨hkind, o, ho, p, hp, hleaf⟩⟩
  · rintro ⟨n, hn, ⟨henum, o, ho, p, hp, hleaf⟩ | ⟨hkind, o, ho, p, hp, hleaf⟩⟩
    · obtain ⟨earlier, hnames⟩ := hends.inOrder.namesResult ho hp
      exact .inl ⟨o, ho, p, hp, hnames.shared?_eq_some_iff.2 ⟨⟨n, hn, henum⟩, hleaf⟩⟩
    · exact .inr ⟨o, ho, p, hp,
        (harguments o ho p hp).shared?_eq_some_iff.2 ⟨⟨n, hn, hkind⟩, hleaf⟩⟩

theorem namesInput_of_parameterShape {name : String} {o : Operation} {arguments : Option ObjectShape}
    (h : cx.parameterShape name o = .ok arguments) :
    ∀ a ∈ arguments, ∀ p ∈ a.properties, cx.NamesInput p.type := by
  unfold parameterShape at h
  split at h
  · obtain rfl := Except.ok.inj h
    simp
  · obtain ⟨properties, hproperties, h⟩ := Outcome.bind_eq_ok_iff.1 h
    obtain rfl := Except.ok.inj h
    intro a ha p hp
    obtain rfl := Option.some.inj ha
    obtain ⟨v, -, hv⟩ := (Outcome.mem_of_mapM hproperties).2 p hp
    split at hv
    · exact absurd hv (by simp [throw, throwThe, MonadExceptOf.throw, bind, Except.bind])
    · obtain rfl := Except.ok.inj hv
      exact cx.namesInput_inputType v.type

theorem moduleClosed_operation {o : Operation} {m : ModuleShape} (h : cx.operation o = .ok m) :
    cx.ModuleClosed m := by
  obtain ⟨root, name, N, -, -, hN, harguments, hname, hobjects⟩ := operation_spec h
  refine moduleClosed_of_ends ?_ (namesInput_of_parameterShape harguments)
  rw [hname, hobjects]
  exact ends_flatten hN

theorem moduleClosed_fragment {f : Fragment} {m : ModuleShape} (h : cx.fragment f = .ok m) :
    cx.ModuleClosed m := by
  obtain ⟨t, N, -, hN, harguments, hname, hobjects⟩ := fragment_spec h
  refine moduleClosed_of_ends ?_ (by simp [harguments])
  rw [hname, hobjects]
  exact ends_flatten hN

theorem name_of_operation {o : Operation} {m : ModuleShape} (h : cx.operation o = .ok m) :
    some m.name = o.name.map Name.text := by
  obtain ⟨root, name, N, -, hname, -, -, hm, -⟩ := operation_spec h
  rw [hm, hname, Option.map_some]

theorem name_of_fragment {f : Fragment} {m : ModuleShape} (h : cx.fragment f = .ok m) :
    m.name = f.name.text := by
  obtain ⟨t, N, -, -, -, hm, -⟩ := fragment_spec h
  exact hm

/-- Shared types that mention nothing but each other and what scalars are mapped to. -/
structure SharedClosed (cx : ShapeContext) (s : SharedShapes) : Prop where
  names : ∀ o ∈ s.inputs, ∀ p ∈ o.properties, cx.NamesInput p.type
  declared : ∀ o ∈ s.inputs, ∀ p ∈ o.properties, ∀ name n, cx.schema.type? name = some n →
    n.isEnum = true ∨ n.isInput = true → p.HasLeaf name → name ∈ s.names

variable {omitDeprecated : Bool} {ms : List ModuleShape}

theorem mem_names_shared_iff {name : String} : name ∈ (cx.shared omitDeprecated ms).names ↔
    name ∈ cx.sharedNames (ms.flatMap ModuleShape.imports) ∧
      ∃ n, cx.schema.type? name = some n ∧ (n.isEnum = true ∨ n.isInput = true) := by
  simp only [SharedShapes.names, shared, List.map_map, List.mem_append, List.mem_map,
    List.mem_filter, List.mem_filterMap]
  constructor
  · rintro (⟨n, ⟨⟨m, hm, hn⟩, hkind⟩, rfl⟩ | ⟨n, ⟨⟨m, hm, hn⟩, hkind⟩, rfl⟩)
    · obtain rfl := Schema.name_of_type? hn
      exact ⟨hm, n, hn, .inl hkind⟩
    · obtain rfl := Schema.name_of_type? hn
      exact ⟨hm, n, hn, .inr hkind⟩
  · rintro ⟨hname, n, hn, hkind | hkind⟩
    · exact .inl ⟨n, ⟨⟨name, hname, hn⟩, hkind⟩, Schema.name_of_type? hn⟩
    · exact .inr ⟨n, ⟨⟨name, hname, hn⟩, hkind⟩, Schema.name_of_type? hn⟩

theorem mem_names_of_type? {name : String} {n : NamedType} (h : cx.schema.type? name = some n) :
    name ∈ cx.schema.types.map NamedType.name :=
  List.mem_map.2 ⟨n, Schema.mem_of_type? h, Schema.name_of_type? h⟩

theorem mem_sharedNames_of_mem {start : List String} {name : String} {n : NamedType}
    (hname : name ∈ start) (h : cx.schema.type? name = some n) : name ∈ cx.sharedNames start := by
  rw [sharedNames, Text.mem_sorted]
  exact (Closure.closed_reach _ cx.mentions start).2 name hname (mem_names_of_type? h)

theorem mem_sharedNames_of_mentions {start : List String} {name name' : String} {n : NamedType}
    (hname : name ∈ cx.sharedNames start) (hmentions : name' ∈ cx.mentions name)
    (h : cx.schema.type? name' = some n) : name' ∈ cx.sharedNames start := by
  rw [sharedNames, Text.mem_sorted] at hname ⊢
  exact (Closure.closed_reach _ cx.mentions start).1.closed name hname name' hmentions
    (mem_names_of_type? h)

/-- The shared module is closed: the search for shared types follows every field of an input
object. -/
theorem sharedClosed_shared : cx.SharedClosed (cx.shared omitDeprecated ms) := by
  have hfield : ∀ o ∈ (cx.shared omitDeprecated ms).inputs, ∀ p ∈ o.properties,
      ∃ name n f, name ∈ cx.sharedNames (ms.flatMap ModuleShape.imports) ∧
        cx.schema.type? name = some n ∧ f ∈ n.inputFields ∧ p.type = cx.inputType f.type := by
    intro o ho p hp
    obtain ⟨n, hn, rfl⟩ := List.mem_map.1 ho
    obtain ⟨name, hname, hn⟩ := List.mem_filterMap.1 (List.mem_filter.1 hn).1
    obtain ⟨f, hf, rfl⟩ := List.mem_map.1 hp
    exact ⟨name, n, f, hname, hn, hf, rfl⟩
  constructor
  · intro o ho p hp
    obtain ⟨_, _, f, -, -, -, htype⟩ := hfield o ho p hp
    rw [htype]
    exact cx.namesInput_inputType f.type
  · intro o ho p hp name n hn hkind hleaf
    obtain ⟨owner, t, f, howner, ht, hf, htype⟩ := hfield o ho p hp
    have hnames : cx.NamesInput p.type := by
      rw [htype]
      exact cx.namesInput_inputType f.type
    have hshared := hnames.shared?_eq_some_iff.2 ⟨⟨n, hn, hkind⟩, hleaf⟩
    have hmentions : name ∈ cx.mentions owner := by
      rw [mentions, ht]
      exact List.mem_filterMap.2 ⟨f, hf, by rw [← htype, hshared]⟩
    exact mem_names_shared_iff.2 ⟨mem_sharedNames_of_mentions howner hmentions hn, n, hn, hkind⟩

theorem ModuleClosed.mem_shared {m : ModuleShape} (h : cx.ModuleClosed m) (hm : m ∈ ms)
    {name : String} (hname : name ∈ m.imports) : name ∈ (cx.shared omitDeprecated ms).names := by
  obtain ⟨n, hn, hkind⟩ := (h.mem_imports_iff name).1 hname
  refine mem_names_shared_iff.2 ⟨mem_sharedNames_of_mem ?_ hn, n, hn, ?_⟩
  · exact List.mem_flatMap.2 ⟨m, hm, hname⟩
  · exact hkind.elim (fun h => .inl h.1) And.left

end ShapeContext
end QueryTypes
