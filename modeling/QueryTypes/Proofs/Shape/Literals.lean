import QueryTypes.Proofs.Shape.Answered
import QueryTypes.Proofs.Shape.Names

/-!
# Generated type names

The type generated for a key that asks for `__typename` is made of the names of the object types
that the first selection of the key stands for. It names the type of an object exactly if that
selection is on a type which the object has, whatever other selections of the key there are.
-/

namespace QueryTypes

/-- The string literals that a type is written with. -/
def PropertyType.literals : PropertyType → List String
  | .typename names => names
  | .layered .. => []

namespace Schema

theorem mem_possibleTypes_of_isA {s : Schema} {t u : NamedType} (hs : s.Distinct)
    (ht : t ∈ s.types) (ho : t.isObject = true) (hu : u ∈ s.types) (ha : s.isA t u = true) :
    t ∈ s.possibleTypes u := by
  rcases isA_iff.1 ha with hname | ⟨habs, hcovers⟩
  · obtain rfl := hs.eq_of_name hu ht hname
    obtain ⟨name, description, body⟩ := u
    cases body with
    | object is fs => exact List.mem_singleton.2 rfl
    | scalar | interface | union | enum | input => cases ho
  · obtain ⟨name, description, body⟩ := u
    cases body with
    | interface is fs =>
      have hmem := (hs.covers_interface_iff ht (by simp [NamedType.isComposite, ho]) rfl).1 hcovers
      exact List.mem_filter.2 ⟨ht, by simpa [ho] using hmem⟩
    | union ms =>
      refine List.mem_filterMap.2 ⟨t.name, ?_, hs.type?_name ht⟩
      simpa [covers] using hcovers
    | scalar | object | enum | input => cases habs

end Schema

/-- Where a response has a field `__typename`, it has the name of the type of the object there. -/
def Answer.Tells (a : Answer) (E : Execution) (ss : List Selection) : Prop :=
  ∀ types path c, a.Holds types path c → ∀ node,
    Execution.Lives E (types ++ [c.1]) (path ++ [node.key]) ss node →
      node.head.name = "__typename" → (node.key, .leaf c.1.name) ∈ c.2

namespace Execution

variable {E : Execution} {t : NamedType} {ss : List Selection} {ms : List (String × Reply)}
  {node : FieldNode}

theorem Answers.exists_collects (h : Answers E t ss ms) :
    ∃ nodes seen, Collects E t [] ss nodes seen := by
  cases h with
  | mk hcollects => exact ⟨_, _, hcollects⟩

theorem Answers.told (h : Answers E t ss ms) (hr : Reaches E t ss node)
    (hname : ∀ other, Reaches E t ss other → other.key = node.key →
      other.head.name = "__typename") : (node.key, .leaf t.name) ∈ ms := by
  obtain ⟨hcollects, hkeys, -, htold⟩ := h
  obtain ⟨first, hfirst, hhead⟩ := exists_first (hcollects.mem_iff.2 hr)
  have htypename := hname first (hcollects.mem_iff.1 hfirst)
    (mem_group_iff.1 (List.mem_of_mem_head? hhead)).2
  have hasked := (mem_keys_iff (k := node.key) hkeys).2 ⟨Builtin.typenameField, by
    rw [asked?, hhead, Option.bind_some, htypename]
    exact Schema.fieldOf?_typename⟩
  obtain ⟨member, hmember, hkey⟩ := List.mem_map.1 hasked
  obtain ⟨k, v⟩ := member
  obtain rfl : k = node.key := hkey
  rw [← htold _ v first hmember hhead htypename]
  exact hmember

/-- Where fields with one key have one name, every type name that is asked for is told. -/
theorem Stands.tells (hE : E.Fit) {a : Answer} (h : Stands E a.1 ss) (ha : Answers E a.1 ss a.2)
    (huniform : Uniform E ss) : a.Tells E ss := by
  intro types path c hholds node hlives hname
  obtain ⟨ss', hc, -, hreach⟩ := h.of_holds hE hholds ha huniform
  refine hc.told ((hreach node).2 hlives) fun other hother hkey => ?_
  have hlives' := (hreach other).1 hother
  rw [hkey] at hlives'
  exact (huniform _ _ node other hlives hlives').trans hname

end Execution

namespace ShapeTree

/-- One of the literals generated for the key is the name of the type. -/
def Names (M : ShapeTree) (k : String) (t : NamedType) : Prop :=
  ∃ p ∈ M.properties, p.name = k ∧ t.name ∈ p.type.literals

/-- The first selection of the key asks for the type name on a type that an object has. -/
def Heads (cx : ShapeContext) (M : ShapeTree) (k : String) (t : NamedType) : Prop :=
  ∃ es, Level.entries cx.schema cx.fragments M.parent M.selections = .ok es ∧
    ∃ e ∈ es, e.key = k ∧ e.field = "__typename" ∧ cx.schema.isA t e.parent = true

/-- Wherever a field `__typename` lives, there is an object type which is in the given relation to
the key of the field and the type of the object. -/
def Truthful (N : ShapeTree) (names : ShapeTree → String → NamedType → Prop) (E : Execution)
    (ss : List Selection) (a : Answer) : Prop :=
  ∀ types path c, a.Holds types path c → ∀ node,
    Execution.Lives E (types ++ [c.1]) (path ++ [node.key]) ss node →
      node.head.name = "__typename" → ∃ M, N.at? path = some M ∧ names M node.key c.1

end ShapeTree

namespace ShapeContext

open Execution

variable {cx : ShapeContext} {root t t' u : NamedType} {all ss : List Selection}
  {N M B : ShapeTree} {es : List Entry} {e : Entry} {k : String} {path : List String}
  {values : String → Bool} {nodes : List FieldNode} {node : FieldNode} {seen : List String}

theorem mem_typenames_iff (hs : cx.schema.Distinct) (ht : t ∈ cx.schema.types)
    (ho : t.isObject = true) (hu : u ∈ cx.schema.types) :
    t.name ∈ cx.typenames u ↔ cx.schema.isA t u = true := by
  rw [typenames]
  by_cases habs : u.isAbstract = true
  · rw [if_pos habs, Text.mem_sorted, List.mem_map]
    constructor
    · rintro ⟨w, hw, hname⟩
      obtain rfl := hs.eq_of_name (Schema.mem_of_mem_possibleTypes hu hw) ht hname
      exact Schema.isA_of_mem_possibleTypes hw
    · exact fun ha => ⟨t, Schema.mem_possibleTypes_of_isA hs ht ho hu ha, rfl⟩
  · rw [if_neg habs, List.mem_singleton, Schema.isA_iff]
    constructor
    · exact fun hname => .inl hname.symm
    · rintro (hname | ⟨habs', -⟩)
      · exact hname.symm
      · exact absurd habs' habs

/-- The literals that an entry leads to. -/
def literals (cx : ShapeContext) (e : Entry) : List String :=
  if e.field = "__typename" then cx.typenames e.parent else []

theorem literals_of_sprout {n : Nat} {name : String} {part : Property × Option (String × ShapeTree)}
    (h : cx.sprout (cx.grow n) name e = .ok part) : part.1.type.literals = cx.literals e := by
  rw [sprout] at h
  rw [literals]
  by_cases htypename : e.field = "__typename"
  · rw [if_pos (by simpa using htypename)] at h
    rw [if_pos htypename, ← Except.ok.inj h]
    rfl
  · rw [if_neg (by simpa using htypename)] at h
    rw [if_neg htypename]
    obtain ⟨⟨type, description⟩, -, h⟩ := Outcome.bind_eq_ok_iff.1 h
    cases hc : (cx.schema.type? type.leaf).filter NamedType.isComposite with
    | none =>
      simp only [hc] at h
      rw [← Except.ok.inj h]
      rfl
    | some t =>
      simp only [hc] at h
      obtain ⟨b, -, h⟩ := Outcome.bind_eq_ok_iff.1 h
      rw [← Except.ok.inj h]
      rfl

theorem Grown.map_literals (h : Grown cx M)
    (hes : Level.entries cx.schema cx.fragments M.parent M.selections = .ok es) :
    M.properties.map (fun p => (p.name, p.type.literals)) =
      es.map fun e => (e.key, cx.literals e) := by
  obtain ⟨n, name, es', parts, hes', hparts, hproperties, -⟩ := h.exists_parts
  obtain rfl := Except.ok.inj (hes.symm.trans hes')
  rw [hproperties, List.map_map]
  refine Outcome.map_of_mapM (fun e part hpart => ?_) hparts
  exact Prod.ext (sprout_spec hpart).1 (literals_of_sprout hpart)

/-- Literals name a type exactly if the first selection of the key is on a type of its objects. -/
theorem Grown.names_iff (hs : cx.schema.Distinct) (h : Grown cx M) (hM : M.parent ∈ cx.schema.types)
    (ht : t ∈ cx.schema.types) (ho : t.isObject = true) : M.Names k t ↔ M.Heads cx k t := by
  obtain ⟨es, hes⟩ := h.levelled
  have hmap := h.map_literals hes.entries
  have hparent : ∀ e ∈ es, e.parent ∈ cx.schema.types := by
    intro e he
    obtain ⟨first, hfirst, -, -, hparent⟩ := ((Level.merges_of_entries hes.entries).1 e he).first
    exact hparent ▸ hfirst.mem_types hM
  have hnamed : ∀ e ∈ es, (t.name ∈ cx.literals e ↔
      e.field = "__typename" ∧ cx.schema.isA t e.parent = true) := by
    intro e he
    rw [literals]
    by_cases htypename : e.field = "__typename"
    · rw [if_pos htypename, mem_typenames_iff hs ht ho (hparent e he)]
      simp [htypename]
    · simp [htypename]
  constructor
  · rintro ⟨p, hp, hname, hliteral⟩
    have hpair : (p.name, p.type.literals) ∈ es.map fun e => (e.key, cx.literals e) :=
      hmap ▸ List.mem_map_of_mem (f := fun p : Property => (p.name, p.type.literals)) hp
    obtain ⟨e, he, heq⟩ := List.mem_map.1 hpair
    obtain ⟨hkey, hliterals⟩ := Prod.mk.inj heq
    exact ⟨es, hes.entries, e, he, hkey.trans hname, (hnamed e he).1 (hliterals ▸ hliteral)⟩
  · rintro ⟨es', hes', e, he, hkey, hhead⟩
    obtain rfl := Except.ok.inj (hes.entries.symm.trans hes')
    have hpair : (e.key, cx.literals e) ∈ M.properties.map fun p => (p.name, p.type.literals) :=
      hmap ▸ List.mem_map_of_mem (f := fun e : Entry => (e.key, cx.literals e)) he
    obtain ⟨p, hp, heq⟩ := List.mem_map.1 hpair
    obtain ⟨hname, hliterals⟩ := Prod.mk.inj heq
    exact ⟨p, hp, hname.trans hkey, hliterals ▸ (hnamed e he).2 hhead⟩

theorem Grown.parent_mem (h : Grown cx N) (hN : N.parent ∈ cx.schema.types)
    (hM : N.at? path = some M) : M.parent ∈ cx.schema.types := by
  induction path generalizing N with
  | nil =>
    obtain rfl := Option.some.inj hM
    exact hN
  | cons k path ih =>
    rw [ShapeTree.at?, Option.bind_eq_some_iff] at hM
    obtain ⟨B, hB, hM⟩ := hM
    obtain ⟨e, -, hbears, -⟩ := h.branch hB
    obtain ⟨type, description, -, hparent⟩ := hbears.parent
    exact ih hbears.grown (Schema.mem_of_composite? hparent) hM

theorem object_of_holds (hE : (cx.execution values).Fit) {a c : Answer} {types : List NamedType}
    (hholds : a.Holds types path c) (hmem : a.1 ∈ cx.schema.types) (ho : a.1.isObject = true)
    (ha : Answers (cx.execution values) a.1 ss a.2) :
    c.1 ∈ cx.schema.types ∧ c.1.isObject = true := by
  induction hholds generalizing ss with
  | here => exact ⟨hmem, ho⟩
  | @inside a b c k v types path hkv hb _ ih =>
    obtain ⟨-, hkeys, hvalues, -⟩ := ha
    obtain ⟨f, hf⟩ := (mem_keys_iff hkeys).1 (List.mem_map_of_mem hkv)
    obtain ⟨u, hu, ht, hb'⟩ := Completes.answers_of_mem_outer v (hvalues k v f hkv hf) hb
    exact ih (Schema.mem_of_mem_possibleTypes (Schema.mem_of_composite? hu) ht)
      (Schema.isObject_of_mem_possibleTypes hE.sound (Schema.mem_of_composite? hu) ht) hb'

/-- Exactly then do literals name every type that is returned. -/
theorem truthful_iff (hE : (cx.execution values).Fit) {a : Answer} (h : Grown cx N)
    (hN : N.parent ∈ cx.schema.types) (hmem : a.1 ∈ cx.schema.types) (ho : a.1.isObject = true)
    (ha : Answers (cx.execution values) a.1 ss a.2) :
    N.Truthful ShapeTree.Names (cx.execution values) ss a ↔
      N.Truthful (ShapeTree.Heads cx) (cx.execution values) ss a := by
  have hiff : ∀ types path c, a.Holds types path c → ∀ k, ∀ M, N.at? path = some M →
      (M.Names k c.1 ↔ M.Heads cx k c.1) := by
    intro types path c hholds k M hM
    obtain ⟨ht, hobject⟩ := object_of_holds hE hholds hmem ho ha
    exact (h.at? hM).names_iff hE.distinct (h.parent_mem hN hM) ht hobject
  constructor
  · intro htruthful types path c hholds node hlives hname
    obtain ⟨M, hM, hnames⟩ := htruthful types path c hholds node hlives hname
    exact ⟨M, hM, (hiff types path c hholds _ M hM).1 hnames⟩
  · intro htruthful types path c hholds node hlives hname
    obtain ⟨M, hM, hnames⟩ := htruthful types path c hholds node hlives hname
    exact ⟨M, hM, (hiff types path c hholds _ M hM).2 hnames⟩

/-! ### Levels on which the first selection speaks for all -/

/-- On each level the selections of a key all ask for the type name or none does. If they do, the
first one is on a type that all objects of the level have. -/
def Telling (cx : ShapeContext) (parent : NamedType) (ss : List Selection) : Prop :=
  ∀ q tt es, Nested cx parent ss q tt → Level.entries cx.schema cx.fragments q tt = .ok es →
    ∀ e ∈ es,
      (∀ occ, Level.Occurs cx.schema cx.fragments [] q false tt occ → occ.key = e.key →
        (occ.field = "__typename" ↔ e.field = "__typename")) ∧
      (e.field = "__typename" → ∀ t ∈ cx.schema.possibleTypes q, cx.schema.isA t e.parent = true)

/-- Selections that are known where they stand, with one type for each key and a first selection
that speaks for all. -/
structure Careful (cx : ShapeContext) (root : NamedType) (all : List Selection) : Prop where
  root_mem : root ∈ cx.schema.types
  fragments : cx.FragmentsStand
  standing : cx.Standing root all
  oneTyped : OneTyped cx root all
  telling : Telling cx root all

/-- The object type was built for the selections for an object and for its type. -/
structure Hosts (cx : ShapeContext) (root : NamedType) (all : List Selection) (N : ShapeTree)
    (t : NamedType) (ss : List Selection) : Prop where
  grown : Grown cx N
  nested : Nested cx root all N.parent N.selections
  subset : ∀ sel ∈ ss, sel ∈ N.selections
  mem : t ∈ cx.schema.types
  object : t.isObject = true
  isA : cx.schema.isA t N.parent = true

theorem Nested.mem_types {q : NamedType} {tt : List Selection} (h : Nested cx root all q tt)
    (hroot : root ∈ cx.schema.types) : q ∈ cx.schema.types := by
  cases h with
  | here => exact hroot
  | inside _ _ _ hopens =>
    obtain ⟨-, type, description, -, ht⟩ := hopens
    exact Schema.mem_of_composite? ht

theorem Hosts.exists_occurs (h : Hosts cx root all N t ss)
    (hes : Level.entries cx.schema cx.fragments N.parent N.selections = .ok es)
    (hc : Collects (cx.execution values) t [] ss nodes seen) (hnode : node ∈ nodes) :
    ∃ occ, OccursOn cx N occ ∧ occ.Of node ∧ cx.schema.isA t occ.parent = true ∧
      ∃ e ∈ es, e.key = node.key := by
  have hr := (hc.reachesApart hnode).mono h.subset
  obtain ⟨occ, hocc, hof, hisA, he⟩ := Level.exists_entry_of_reaches hes hr
  exact ⟨occ, hocc, hof, hisA h.isA, he⟩

theorem Grown.exists_branch (h : Grown cx N)
    (hes : Level.entries cx.schema cx.fragments N.parent N.selections = .ok es) (he : e ∈ es)
    (hopens : cx.Opens e u) :
    ∃ B, N.branches.lookup e.key = some B ∧ B.parent = u ∧ B.selections = e.selections ∧
      Grown cx B := by
  obtain ⟨n, name, es', parts, hes', hparts, -, hbranches⟩ := h.exists_parts
  obtain rfl := Except.ok.inj (hes.symm.trans hes')
  obtain ⟨part, hpart, hsprout⟩ := (Outcome.mem_of_mapM hparts).1 e he
  obtain ⟨b, -, hb⟩ := exists_grow_of_sprout hsprout hopens
  have hmem : (e.key, b) ∈ N.branches := hbranches ▸ List.mem_filterMap.2 ⟨part, hpart, hb⟩
  obtain ⟨B, hB⟩ := Table.exists_lookup hmem
  obtain ⟨es', hes'⟩ := h.levelled
  obtain rfl := Except.ok.inj (hes.symm.trans hes'.entries)
  obtain ⟨e', he', hkey, hbears⟩ := hes'.branch e.key B (Table.mem_of_lookup hB)
  obtain rfl := List.inj_on_of_nodup_map (nodup_keys_of_entries hes) he' he hkey
  obtain ⟨-, type, description, hok, ht⟩ := hopens
  obtain ⟨type', description', hok', ht'⟩ := hbears.parent
  obtain ⟨rfl, -⟩ := Prod.mk.inj (Except.ok.inj (hok.symm.trans hok'))
  exact ⟨B, hB, Option.some.inj (ht'.symm.trans ht), hbears.selections, hbears.grown⟩

/-- What is selected below a key ties the type of the first field with the key to that of the
others. -/
theorem Careful.leaf_eq (hcareful : Careful cx root all)
    (h : Nested cx root all N.parent N.selections)
    (hes : Level.entries cx.schema cx.fragments N.parent N.selections = .ok es) (he : e ∈ es)
    {occ other : Occurrence} (hocc : OccursOn cx N occ) (hkey : occ.key = e.key)
    (hother : OccursOn cx N other) (hotherkey : other.key = e.key) (hne : other.selections ≠ []) :
    ∃ f g : Field, cx.schema.fieldOf? occ.parent occ.field = some f ∧ f.type.leaf = g.type.leaf ∧
      (e.field ≠ "__typename" → e.parent.selectable e.field = .ok (g.type, g.description)) := by
  obtain ⟨first, hfirst, hfirstkey, hfield, hparent⟩ := ((Level.merges_of_entries hes).1 e he).first
  have hstanding := h.standing hcareful.fragments hcareful.standing hcareful.oneTyped
  obtain ⟨f, hf, -, -⟩ := hstanding.exists_field hcareful.fragments hocc
  obtain ⟨m, hm, -, -⟩ := hstanding.exists_field hcareful.fragments hother
  obtain ⟨g, hg, hselectable, -⟩ := hstanding.exists_field hcareful.fragments hfirst
  have hleaf := hcareful.oneTyped _ _ h occ other f m hocc hother
    (hotherkey.trans hkey.symm) hne hf hm
  have hleaf' := hcareful.oneTyped _ _ h first other g m hfirst hother
    (hotherkey.trans hfirstkey.symm) hne hg hm
  refine ⟨f, g, hf, hleaf.symm.trans hleaf', fun hnot => ?_⟩
  rw [← hparent, ← hfield]
  exact hselectable (by rwa [hfield])

theorem Hosts.exists_opens (hE : (cx.execution values).Fit) (hcareful : Careful cx root all)
    (h : Hosts cx root all N t ss)
    (hes : Level.entries cx.schema cx.fragments N.parent N.selections = .ok es)
    (hc : Collects (cx.execution values) t [] ss nodes seen)
    {f : Field} (hf : (cx.execution values).asked? t k nodes = some f)
    (hu : cx.schema.composite? f.type.leaf = some u) (ht' : t' ∈ cx.schema.possibleTypes u)
    (hname : ∀ n, (group k nodes).head? = some n → n.head.name ≠ "__typename")
    (hbelow : below k nodes ≠ []) :
    ∃ e ∈ es, e.key = k ∧ ∃ w, cx.Opens e w ∧ cx.schema.isA t' w = true := by
  obtain ⟨n, hn, rfl, hhead, hfn⟩ := exists_of_asked hf
  obtain ⟨occ, hocc, hof, ha, e, he, hkey⟩ := h.exists_occurs hes hc hn
  obtain ⟨sel, hsel⟩ := List.exists_mem_of_ne_nil _ hbelow
  obtain ⟨m, hm, hmkey, hsel⟩ := mem_below_iff.1 hsel
  obtain ⟨other, hother, hofm, -, -⟩ := h.exists_occurs hes hc hm
  have hne : other.selections ≠ [] := by
    rw [hofm.selections]
    exact List.ne_nil_of_mem hsel
  obtain ⟨f', g, hf', hleaf, hselectable⟩ := hcareful.leaf_eq h.nested hes he hocc
    (hof.key.trans hkey.symm) hother (hofm.key.trans (hmkey.trans hkey.symm)) hne
  -- the executor takes the field from the type of the object, which narrows that of the occurrence
  obtain ⟨own, hown, hsub⟩ := Schema.field_of_isA hE.distinct hE.sound h.mem h.object
    (hocc.mem_types (h.nested.mem_types hcareful.root_mem)) ha hf'
  rw [hof.field] at hown
  obtain rfl := Option.some.inj (hfn.symm.trans hown)
  obtain ⟨w, hw, haw⟩ := Schema.isA_of_isSubtype hE.distinct hE.sound hsub hu ht'
  have hnot : e.field ≠ "__typename" := by
    intro htypename
    have hoccs := ((hcareful.telling _ _ es h.nested hes e he).1 occ hocc
      (hof.key.trans hkey.symm)).2 htypename
    exact hname n hhead (hof.field.symm.trans hoccs)
  exact ⟨e, he, hkey, w, ⟨hnot, g.type, g.description, hselectable hnot, hleaf ▸ hw⟩, haw⟩

/-- The objects below a key have an object type for their selections. -/
theorem Hosts.step (hE : (cx.execution values).Fit) (hcareful : Careful cx root all)
    (h : Hosts cx root all N t ss) (hc : Collects (cx.execution values) t [] ss nodes seen)
    {f : Field} (hf : (cx.execution values).asked? t k nodes = some f)
    (hu : cx.schema.composite? f.type.leaf = some u) (ht' : t' ∈ cx.schema.possibleTypes u)
    (hname : ∀ n, (group k nodes).head? = some n → n.head.name ≠ "__typename")
    (hbelow : below k nodes ≠ []) :
    ∃ B, N.branches.lookup k = some B ∧ Hosts cx root all B t' (below k nodes) := by
  obtain ⟨es, hes⟩ := h.grown.levelled
  obtain ⟨e, he, rfl, w, hopens, ha⟩ :=
    h.exists_opens hE hcareful hes.entries hc hf hu ht' hname hbelow
  obtain ⟨B, hB, rfl, hselections, hgrown⟩ := h.grown.exists_branch hes.entries he hopens
  refine ⟨B, hB, hgrown, ?_, h.grown.below_subset h.subset hc hB,
    Schema.mem_of_mem_possibleTypes (Schema.mem_of_composite? hu) ht',
    Schema.isObject_of_mem_possibleTypes hE.sound (Schema.mem_of_composite? hu) ht', ha⟩
  rw [hselections]
  exact .inside h.nested hes.entries he hopens

/-- On the level of an object: the literals name its type, which is what the object has there. -/
theorem Hosts.names (hE : (cx.execution values).Fit) (hcareful : Careful cx root all)
    (h : Hosts cx root all N t ss) {ms : List (String × Reply)}
    (ha : Answers (cx.execution values) t ss ms) (hr : Reaches (cx.execution values) t ss node)
    (htypename : node.head.name = "__typename") :
    N.Names node.key t ∧ (node.key, .leaf t.name) ∈ ms := by
  obtain ⟨es, hes⟩ := h.grown.levelled
  obtain ⟨nodes, seen, hcollects⟩ := ha.exists_collects
  obtain ⟨occ, hocc, hof, -, e, he, hkey⟩ :=
    h.exists_occurs hes.entries hcollects (hcollects.mem_iff.2 hr)
  obtain ⟨hsame, hall⟩ := hcareful.telling _ _ es h.nested hes.entries e he
  have hefield := (hsame occ hocc (hof.key.trans hkey.symm)).1 (hof.field.trans htypename)
  have hNmem := h.nested.mem_types hcareful.root_mem
  constructor
  · refine (h.grown.names_iff hE.distinct hNmem h.mem h.object).2
      ⟨es, hes.entries, e, he, hkey, hefield, hall hefield t ?_⟩
    exact Schema.mem_possibleTypes_of_isA hE.distinct h.mem h.object hNmem h.isA
  · refine ha.told hr fun first hfirst hfirstkey => ?_
    obtain ⟨occ', hocc', hof', -, -⟩ :=
      h.exists_occurs hes.entries hcollects (hcollects.mem_iff.2 hfirst)
    rw [← hof'.field]
    exact (hsame occ' hocc' ((hof'.key.trans hfirstkey).trans hkey.symm)).2 hefield

theorem Hosts.truthful (hE : (cx.execution values).Fit) (hcareful : Careful cx root all)
    {a : Answer} (h : Hosts cx root all N a.1 ss)
    (ha : Answers (cx.execution values) a.1 ss a.2) :
    N.Truthful ShapeTree.Names (cx.execution values) ss a ∧
      a.Tells (cx.execution values) ss := by
  suffices hall : ∀ types path c, a.Holds types path c → ∀ node,
      Lives (cx.execution values) (types ++ [c.1]) (path ++ [node.key]) ss node →
      node.head.name = "__typename" →
        (∃ M, N.at? path = some M ∧ M.Names node.key c.1) ∧ (node.key, .leaf c.1.name) ∈ c.2 from
    ⟨fun types path c hholds node hlives hname => (hall types path c hholds node hlives hname).1,
      fun types path c hholds node hlives hname => (hall types path c hholds node hlives hname).2⟩
  intro types path c hholds node hlives hname
  -- on the way to the object there is a type that hosts each one it is inside of
  induction hholds generalizing N ss with
  | here =>
    obtain ⟨-, t, htypes, hr⟩ := lives_singleton_iff.1 hlives
    obtain rfl := (List.cons.inj htypes).1
    obtain ⟨hnames, htold⟩ := h.names hE hcareful ha hr hname
    exact ⟨⟨N, rfl, hnames⟩, htold⟩
  | @inside a b c k v types path hkv hb _ ih =>
    obtain ⟨hcollects, hkeys, hvalues, htold⟩ := ha
    obtain ⟨f, hf⟩ := (mem_keys_iff hkeys).1 (List.mem_map_of_mem hkv)
    obtain ⟨u, hu, ht', hb'⟩ := Completes.answers_of_mem_outer v (hvalues k v f hkv hf) hb
    have hlives' := (lives_below_iff_of_collects hcollects (by simp)).2 hlives
    obtain ⟨B, hB, hhosts⟩ := h.step hE hcareful hcollects hf hu ht' (fun n hhead htypename => by
      rw [htold k v n hkv hhead htypename] at hb
      simp [Reply.outer] at hb) hlives'.ne_nil
    obtain ⟨⟨M, hM, hnames⟩, hmember⟩ := ih hhosts hb' hlives'
    refine ⟨⟨M, ?_, hnames⟩, hmember⟩
    rw [ShapeTree.at?, hB, Option.bind_some, hM]

end ShapeContext
end QueryTypes
