import QueryTypes.Proofs.Shape.Entries
import QueryTypes.Shape.Build

/-!
# The tree of object types

The object types of a module are written one after another. Here they stand where the response
keys lead to: a type for the whole selection and one below it for each field that has selections.
-/

namespace QueryTypes

/-- An object type with the type and the selections that it was built for, and those below it. -/
inductive ShapeTree
  | node (shape : ObjectShape) (parent : NamedType) (selections : List Selection)
      (branches : List (String × ShapeTree))

namespace ShapeTree

def shape : ShapeTree → ObjectShape
  | node o _ _ _ => o

def parent : ShapeTree → NamedType
  | node _ t _ _ => t

def selections : ShapeTree → List Selection
  | node _ _ ss _ => ss

def branches : ShapeTree → List (String × ShapeTree)
  | node _ _ _ bs => bs

def properties (t : ShapeTree) : List Property := t.shape.properties

/-- The keys that the object type declares. -/
def keys (t : ShapeTree) : List String := t.properties.map Property.name

/-- The object type for a path of response keys. -/
def at? : ShapeTree → List String → Option ShapeTree
  | t, [] => some t
  | t, k :: path => (t.branches.lookup k).bind fun b => b.at? path

mutual
/-- All object types, each one after those that it refers to. -/
def flatten : ShapeTree → List ObjectShape
  | node o _ _ bs => flattens bs ++ [o]

def flattens : List (String × ShapeTree) → List ObjectShape
  | [] => []
  | (_, t) :: r => t.flatten ++ flattens r
end

/-- A property with the object types below it. -/
def flattenPart (p : Property × Option (String × ShapeTree)) : Property × List ObjectShape :=
  (p.1, flattens p.2.toList)

theorem flattens_append (bs cs : List (String × ShapeTree)) :
    flattens (bs ++ cs) = flattens bs ++ flattens cs := by
  induction bs with
  | nil => rfl
  | cons b bs ih => rw [List.cons_append, flattens, flattens, ih, List.append_assoc]

theorem flatMap_flattenPart (parts : List (Property × Option (String × ShapeTree))) :
    (parts.map flattenPart).flatMap Prod.snd = flattens (parts.filterMap Prod.snd) := by
  induction parts with
  | nil => rfl
  | cons p parts ih =>
    obtain ⟨property, branch⟩ := p
    rw [List.map_cons, List.flatMap_cons, ih]
    cases branch with
    | none => rfl
    | some b => exact (flattens_append [b] _).symm

end ShapeTree

/-- Whether the type of the property is built for it. -/
def Property.isObject (p : Property) : Bool :=
  match p.type with
  | .layered _ (.object _) => true
  | _ => false

namespace ShapeContext

/-- The property for an entry, with the object type below it. -/
def sprout (cx : ShapeContext)
    (grow : String → NamedType → List Selection → Except ShapeError ShapeTree) (name : String)
    (e : Entry) : Except ShapeError (Property × Option (String × ShapeTree)) := do
  if e.field == "__typename" then
    return (⟨e.key, .typename (cx.typenames e.parent), e.conditional, none⟩, none)
  else
    let (type, description) ← e.parent.selectable e.field
    match (cx.schema.type? type.leaf).filter NamedType.isComposite with
    | some t =>
      let child := name ++ "_" ++ e.key
      let branch ← grow child t e.selections
      return (⟨e.key, .layered type (.object child), e.conditional, description⟩,
        some (e.key, branch))
    | none =>
      return (⟨e.key, .layered type (cx.leaf type.leaf), e.conditional, description⟩, none)

/-- The tree of the object types for selections on a type. -/
def grow (cx : ShapeContext) :
    Nat → String → NamedType → List Selection → Except ShapeError ShapeTree
  | 0, _, _, _ => .error .endless
  | n + 1, name, parent, ss => do
    let entries ← Level.entries cx.schema cx.fragments parent ss
    let parts ← entries.mapM (cx.sprout (cx.grow n) name)
    return .node ⟨name, parts.map Prod.fst, parent.description⟩ parent ss (parts.filterMap Prod.snd)

/-- The tree for an operation. -/
def operationTree (cx : ShapeContext) (root : NamedType) (o : Operation) :
    Except ShapeError ShapeTree :=
  cx.grow (cx.depth o.selections) ((o.name.map Name.text).getD "") root o.selections

def fragmentTree (cx : ShapeContext) (t : NamedType) (f : Fragment) : Except ShapeError ShapeTree :=
  cx.grow (cx.depth f.selections) f.name.text t f.selections

variable {cx : ShapeContext} {parent : NamedType} {ss : List Selection} {name k : String} {n : Nat}
  {e : Entry} {N : ShapeTree}

/-- The object types are those of the tree. -/
theorem objects_eq (cx : ShapeContext) (n : Nat) (name : String) (parent : NamedType)
    (ss : List Selection) :
    cx.objects n name parent ss = (cx.grow n name parent ss).map ShapeTree.flatten := by
  induction n generalizing name parent ss with
  | zero => rfl
  | succ n ih =>
    rw [objects, grow]
    cases Level.entries cx.schema cx.fragments parent ss with
    | error err => rfl
    | ok es =>
      change (es.mapM _ >>= _) = ((es.mapM (cx.sprout (cx.grow n) name)) >>= _).map _
      rw [Outcome.mapM_eq_map (f := cx.sprout (cx.grow n) name) (h := ShapeTree.flattenPart)]
      · cases es.mapM (cx.sprout (cx.grow n) name) with
        | error err => rfl
        | ok parts =>
          change Except.ok ((parts.map ShapeTree.flattenPart).flatMap Prod.snd ++
            [⟨name, (parts.map ShapeTree.flattenPart).map Prod.fst, parent.description⟩]) = .ok _
          rw [ShapeTree.flatMap_flattenPart, List.map_map]
          rfl
      · intro e
        rw [sprout]
        by_cases htypename : (e.field == "__typename") = true
        · rw [if_pos htypename, if_pos htypename]
          rfl
        · rw [if_neg htypename, if_neg htypename]
          cases e.parent.selectable e.field with
          | error err => rfl
          | ok found =>
            obtain ⟨type, description⟩ := found
            simp only [bind, Except.bind]
            cases (cx.schema.type? type.leaf).filter NamedType.isComposite with
            | none => rfl
            | some t =>
              simp only [ih]
              cases cx.grow n (name ++ "_" ++ e.key) t e.selections with
              | error err => rfl
              | ok N =>
                change Except.ok (_, N.flatten) = .ok (_, ShapeTree.flattens [(e.key, N)])
                rw [ShapeTree.flattens, ShapeTree.flattens, List.append_nil]

theorem exists_of_objects {os : List ObjectShape} (h : cx.objects n name parent ss = .ok os) :
    ∃ N, cx.grow n name parent ss = .ok N ∧ os = N.flatten := by
  rw [objects_eq] at h
  cases hN : cx.grow n name parent ss with
  | error err =>
    rw [hN] at h
    exact absurd h (by simp [Except.map])
  | ok N =>
    rw [hN] at h
    exact ⟨N, rfl, (Except.ok.inj h).symm⟩

/-- A tree that was built for its own type and selections. -/
def Grown (cx : ShapeContext) (N : ShapeTree) : Prop :=
  ∃ n name, cx.grow n name N.parent N.selections = .ok N

/-- The property for an entry: it is typed as an object if there is a branch for it. -/
structure Declares (N : ShapeTree) (e : Entry) (p : Property) : Prop where
  name : p.name = e.key
  optional : p.optional = e.conditional
  branch : p.isObject = true → ∃ b, (e.key, b) ∈ N.branches

/-- The branch for an entry is built for the declared type of the field and all selections. -/
structure Bears (cx : ShapeContext) (N : ShapeTree) (e : Entry) (b : ShapeTree) : Prop where
  field : e.field ≠ "__typename"
  parent : ∃ type description, e.parent.selectable e.field = .ok (type, description) ∧
    cx.schema.composite? type.leaf = some b.parent
  selections : b.selections = e.selections
  grown : Grown cx b
  property : ∃ p ∈ N.properties, p.name = e.key ∧ p.isObject = true

/-- What a tree holds for each entry of its level. -/
structure Levelled (cx : ShapeContext) (N : ShapeTree) (es : List Entry) : Prop where
  entries : Level.entries cx.schema cx.fragments N.parent N.selections = .ok es
  declared : ∀ e ∈ es, ∃ p ∈ N.properties, Declares N e p
  property : ∀ p ∈ N.properties, ∃ e ∈ es, Declares N e p
  branch : ∀ k b, (k, b) ∈ N.branches → ∃ e ∈ es, e.key = k ∧ Bears cx N e b

theorem leaf_ne_object (cx : ShapeContext) (n m : String) : cx.leaf n ≠ .object m := by
  rw [leaf]
  cases cx.schema.type? n with
  | none => simp
  | some t =>
    by_cases ht : t.isEnum = true
    · simp [ht]
    · simp [ht]

/-- A tree is made of the entries of its level, each with a part of its own. -/
theorem exists_parts_of_grow (h : cx.grow n name parent ss = .ok N) :
    ∃ m es parts, n = m + 1 ∧ Level.entries cx.schema cx.fragments parent ss = .ok es ∧
      es.mapM (cx.sprout (cx.grow m) name) = .ok parts ∧
      N = .node ⟨name, parts.map Prod.fst, parent.description⟩ parent ss
        (parts.filterMap Prod.snd) := by
  cases n with
  | zero => exact absurd h (by simp [grow])
  | succ m =>
    rw [grow] at h
    obtain ⟨es, hes, h⟩ := Outcome.bind_eq_ok_iff.1 h
    obtain ⟨parts, hparts, h⟩ := Outcome.bind_eq_ok_iff.1 h
    exact ⟨m, es, parts, rfl, hes, hparts, (Except.ok.inj h).symm⟩

theorem grown_of_grow (h : cx.grow n name parent ss = .ok N) :
    N.parent = parent ∧ N.selections = ss ∧ Grown cx N := by
  obtain ⟨m, es, parts, rfl, -, -, rfl⟩ := exists_parts_of_grow h
  exact ⟨rfl, rfl, _, name, h⟩

theorem Grown.exists_parts (h : Grown cx N) :
    ∃ n name es parts, Level.entries cx.schema cx.fragments N.parent N.selections = .ok es ∧
      es.mapM (cx.sprout (cx.grow n) name) = .ok parts ∧
      N.properties = parts.map Prod.fst ∧ N.branches = parts.filterMap Prod.snd := by
  obtain ⟨n, name, h⟩ := h
  obtain ⟨m, es, parts, -, hes, hparts, hN⟩ := exists_parts_of_grow h
  exact ⟨m, name, es, parts, hes, hparts, by rw [hN]; rfl, by rw [hN]; rfl⟩

/-- What is made of an entry, whatever the tree is that it becomes a part of. -/
theorem sprout_spec {p : Property} {b : Option (String × ShapeTree)}
    (h : cx.sprout (cx.grow n) name e = .ok (p, b)) :
    p.name = e.key ∧ p.optional = e.conditional ∧
      (p.isObject = false ∧ b = none ∨ p.isObject = true ∧ ∃ N, b = some (e.key, N) ∧
        e.field ≠ "__typename" ∧ (∃ type description,
          e.parent.selectable e.field = .ok (type, description) ∧
          cx.schema.composite? type.leaf = some N.parent) ∧
        N.selections = e.selections ∧ Grown cx N) := by
  rw [sprout] at h
  by_cases htypename : (e.field == "__typename") = true
  · rw [if_pos htypename] at h
    obtain ⟨rfl, rfl⟩ := Prod.mk.inj (Except.ok.inj h)
    exact ⟨rfl, rfl, .inl ⟨rfl, rfl⟩⟩
  · rw [if_neg htypename] at h
    obtain ⟨⟨type, description⟩, hfield, h⟩ := Outcome.bind_eq_ok_iff.1 h
    cases ht : (cx.schema.type? type.leaf).filter NamedType.isComposite with
    | none =>
      simp only [ht] at h
      obtain ⟨rfl, rfl⟩ := Prod.mk.inj (Except.ok.inj h)
      refine ⟨rfl, rfl, .inl ⟨?_, rfl⟩⟩
      cases hleaf : cx.leaf type.leaf with
      | object m => exact absurd hleaf (cx.leaf_ne_object _ _)
      | shared m => simp [Property.isObject]
      | scalar text => simp [Property.isObject]
    | some t =>
      simp only [ht] at h
      obtain ⟨N, hN, h⟩ := Outcome.bind_eq_ok_iff.1 h
      obtain ⟨rfl, rfl⟩ := Prod.mk.inj (Except.ok.inj h)
      obtain ⟨hparent, hselections, hgrown⟩ := grown_of_grow hN
      refine ⟨rfl, rfl, .inr ⟨rfl, N, rfl, by simpa using htypename,
        ⟨type, description, hfield, ?_⟩, hselections, hgrown⟩⟩
      rw [hparent]
      exact ht

theorem Grown.levelled (h : Grown cx N) : ∃ es, Levelled cx N es := by
  obtain ⟨n, name, es, parts, hes, hparts, hproperties, hbranches⟩ := h.exists_parts
  obtain ⟨hleft, hright⟩ := Outcome.mem_of_mapM hparts
  have hdeclares : ∀ e part, part ∈ parts → cx.sprout (cx.grow n) name e = .ok part →
      part.1 ∈ N.properties ∧ Declares N e part.1 := by
    intro e part hmem hsprout
    obtain ⟨hname, hoptional, hb⟩ := sprout_spec hsprout
    refine ⟨hproperties ▸ List.mem_map_of_mem hmem, hname, hoptional, fun hobject => ?_⟩
    rcases hb with ⟨hno, -⟩ | ⟨-, b, hb, -⟩
    · rw [hno] at hobject
      exact absurd hobject (by simp)
    · exact ⟨b, hbranches ▸ List.mem_filterMap.2 ⟨_, hmem, hb⟩⟩
  refine ⟨es, hes, ?_, ?_, ?_⟩
  · intro e he
    obtain ⟨part, hpart, hsprout⟩ := hleft e he
    exact ⟨part.1, hdeclares e part hpart hsprout⟩
  · intro p hp
    rw [hproperties, List.mem_map] at hp
    obtain ⟨part, hpart, rfl⟩ := hp
    obtain ⟨e, he, hsprout⟩ := hright part hpart
    exact ⟨e, he, (hdeclares e part hpart hsprout).2⟩
  · intro k b hb
    rw [hbranches, List.mem_filterMap] at hb
    obtain ⟨part, hpart, hb⟩ := hb
    obtain ⟨e, he, hsprout⟩ := hright part hpart
    obtain ⟨hname, -, hchild⟩ := sprout_spec hsprout
    rcases hchild with ⟨-, hnone⟩ | ⟨hobject, b', hb', hfield, htype, hselections, hgrown⟩
    · rw [hb] at hnone
      exact absurd hnone (by simp)
    · obtain ⟨rfl, rfl⟩ := Prod.mk.inj (Option.some.inj (hb.symm.trans hb'))
      exact ⟨e, he, rfl, hfield, htype, hselections, hgrown, part.1,
        (hdeclares e part hpart hsprout).1, hname, hobject⟩

/-- What the module of an operation is made of. -/
theorem operation_spec {o : Operation} {m : ModuleShape} (h : cx.operation o = .ok m) :
    ∃ root name N, cx.schema.rootType? o.kind = some root ∧ o.name = some name ∧
      cx.grow (cx.depth o.selections) name.text root o.selections = .ok N ∧
      cx.parameterShape name.text o = .ok m.arguments ∧ m.name = name.text ∧
      m.objects = N.flatten := by
  rw [operation] at h
  cases hroot : cx.schema.rootType? o.kind with
  | none =>
    rw [hroot] at h
    exact absurd h (by simp [throw, throwThe, MonadExceptOf.throw])
  | some root =>
    cases hname : o.name with
    | none =>
      rw [hroot, hname] at h
      exact absurd h (by simp [throw, throwThe, MonadExceptOf.throw])
    | some name =>
      rw [hroot, hname] at h
      obtain ⟨objects, hobjects, h⟩ := Outcome.bind_eq_ok_iff.1 h
      obtain ⟨arguments, harguments, h⟩ := Outcome.bind_eq_ok_iff.1 h
      obtain rfl := Except.ok.inj h
      obtain ⟨N, hN, rfl⟩ := exists_of_objects hobjects
      exact ⟨root, name, N, rfl, rfl, hN, harguments, rfl, rfl⟩

theorem exists_of_operation {o : Operation} {m : ModuleShape} (h : cx.operation o = .ok m) :
    ∃ root N, cx.schema.rootType? o.kind = some root ∧ cx.operationTree root o = .ok N ∧
      m.objects = N.flatten := by
  obtain ⟨root, name, N, hroot, hname, hN, -, -, hobjects⟩ := operation_spec h
  exact ⟨root, N, hroot, by rw [operationTree, hname]; exact hN, hobjects⟩

/-- What the module of a fragment is made of. -/
theorem fragment_spec {f : Fragment} {m : ModuleShape} (h : cx.fragment f = .ok m) :
    ∃ t N, cx.schema.composite? f.condition.text = some t ∧ cx.fragmentTree t f = .ok N ∧
      m.arguments = none ∧ m.name = f.name.text ∧ m.objects = N.flatten := by
  rw [fragment] at h
  cases ht : (cx.schema.type? f.condition.text).filter NamedType.isComposite with
  | none =>
    simp only [ht] at h
    exact absurd h (by simp [throw, throwThe, MonadExceptOf.throw])
  | some t =>
    simp only [ht] at h
    obtain ⟨objects, hobjects, h⟩ := Outcome.bind_eq_ok_iff.1 h
    obtain rfl := Except.ok.inj h
    obtain ⟨N, hN, rfl⟩ := exists_of_objects hobjects
    exact ⟨t, N, ht, hN, rfl, rfl, rfl⟩

theorem exists_of_fragment {f : Fragment} {m : ModuleShape} (h : cx.fragment f = .ok m) :
    ∃ t N, cx.schema.composite? f.condition.text = some t ∧ cx.fragmentTree t f = .ok N ∧
      m.objects = N.flatten := by
  obtain ⟨t, N, ht, hN, -, -, hobjects⟩ := fragment_spec h
  exact ⟨t, N, ht, hN, hobjects⟩

/-- The module for an operation or a fragment. -/
def moduleOf (cx : ShapeContext) : Operation ⊕ Fragment → Except ShapeError ModuleShape :=
  Sum.elim cx.operation cx.fragment

/-- The tree that is built for an operation or a fragment. -/
inductive Built (cx : ShapeContext) (N : ShapeTree) : Operation ⊕ Fragment → Prop
  | operation {o : Operation} {root : NamedType} : cx.schema.rootType? o.kind = some root →
      cx.operationTree root o = .ok N → Built cx N (.inl o)
  | fragment {f : Fragment} {t : NamedType} : cx.schema.composite? f.condition.text = some t →
      cx.fragmentTree t f = .ok N → Built cx N (.inr f)

theorem exists_built {d : Operation ⊕ Fragment} {m : ModuleShape} (h : cx.moduleOf d = .ok m) :
    ∃ N t n ss, Built cx N d ∧ m.objects = N.flatten ∧ cx.grow n m.name t ss = .ok N := by
  cases d with
  | inl o =>
    obtain ⟨root, name, N, hroot, hname, hN, -, hm, hobjects⟩ := operation_spec h
    have htree : cx.operationTree root o = .ok N := by
      rw [operationTree, hname]
      exact hN
    exact ⟨N, root, _, _, .operation hroot htree, hobjects, hm ▸ hN⟩
  | inr f =>
    obtain ⟨t, N, ht, hN, -, hm, hobjects⟩ := fragment_spec h
    rw [hm]
    exact ⟨N, t, _, _, .fragment ht hN, hobjects, hN⟩

end ShapeContext
end QueryTypes
