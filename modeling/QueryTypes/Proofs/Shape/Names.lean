import QueryTypes.Proofs.Shape.Closed
import QueryTypes.Proofs.Shape.Presence

/-!
# Names of object types

An object type is named by the response keys that lead to it, joined with underscores. Names and
aliases may have underscores themselves, so different paths can have one name: the declarations of
a module are distinct exactly if no two paths to object types are joined to the same text.
-/

namespace QueryTypes

namespace ShapeTree

/-- The name of the object type that a path leads to from one with the given name. -/
def nameAt (name : String) : List String → String
  | [] => name
  | k :: path => nameAt (name ++ "_" ++ k) path

mutual
/-- The paths of all object types, in the order of `flatten`. -/
def paths : ShapeTree → List (List String)
  | node _ _ _ bs => pathsBelow bs ++ [[]]

def pathsBelow : List (String × ShapeTree) → List (List String)
  | [] => []
  | (k, t) :: r => t.paths.map (k :: ·) ++ pathsBelow r
end

/-- Names are made of response keys, and no key has two branches on one level. -/
inductive Named : String → ShapeTree → Prop
  | node {name : String} {o : ObjectShape} {parent : NamedType} {ss : List Selection}
      {bs : List (String × ShapeTree)} : o.name = name → (bs.map Prod.fst).Nodup →
      (∀ b ∈ bs, Named (name ++ "_" ++ b.1) b.2) → Named name (.node o parent ss bs)

/-- No key of a branch goes on with an underscore after the key of another one. -/
def Clear (M : ShapeTree) : Prop :=
  ∀ b ∈ M.branches, ∀ c ∈ M.branches, ¬ (b.1 ++ "_").toList <+: c.1.toList

/-- What a path adds to the name of an object type. -/
def suffix (path : List String) : List Char :=
  path.flatMap fun k => '_' :: k.toList

variable {name k : String} {N M : ShapeTree} {bs : List (String × ShapeTree)} {path : List String}

theorem toList_nameAt (name : String) (path : List String) :
    (nameAt name path).toList = name.toList ++ suffix path := by
  induction path generalizing name with
  | nil => simp [nameAt, suffix]
  | cons k path ih =>
    rw [nameAt, ih, String.toList_append, String.toList_append, suffix, suffix, List.flatMap_cons]
    simp

theorem nameAt_eq_iff {p q : List String} : nameAt name p = nameAt name q ↔ suffix p = suffix q := by
  rw [← String.toList_inj, toList_nameAt, toList_nameAt, List.append_cancel_left_eq]

theorem mem_pathsBelow_iff :
    path ∈ pathsBelow bs ↔ ∃ b ∈ bs, ∃ p ∈ b.2.paths, b.1 :: p = path := by
  induction bs with
  | nil => simp [pathsBelow]
  | cons b bs ih => simp [pathsBelow, ih]

theorem mem_paths_iff (h : Named name N) : path ∈ N.paths ↔ ∃ M, N.at? path = some M := by
  induction h generalizing path with
  | @node name o parent ss bs hname hkeys hbelow ih =>
    cases path with
    | nil => simp [paths, at?]
    | cons k path =>
      simp only [paths, at?, List.mem_append, mem_pathsBelow_iff, List.mem_singleton,
        List.cons.injEq, reduceCtorEq, or_false, Option.bind_eq_some_iff]
      constructor
      · rintro ⟨b, hb, p, hp, rfl, rfl⟩
        obtain ⟨M, hM⟩ := (ih b hb).1 hp
        exact ⟨M, b.2, Table.get?_of_mem hkeys hb, hM⟩
      · rintro ⟨M, t, ht, hM⟩
        have hb := Table.mem_of_lookup ht
        exact ⟨(k, t), hb, path, (ih _ hb).2 ⟨M, hM⟩, rfl, rfl⟩

theorem nodup_pathsBelow (hkeys : (bs.map Prod.fst).Nodup)
    (hbelow : ∀ b ∈ bs, b.2.paths.Nodup) : (pathsBelow bs).Nodup := by
  induction bs with
  | nil => exact List.nodup_nil
  | cons b bs ih =>
    obtain ⟨hnew, hkeys⟩ := List.nodup_cons.1 hkeys
    rw [pathsBelow, List.nodup_append']
    refine ⟨(hbelow b List.mem_cons_self).map (by simp [Function.Injective]),
      ih hkeys fun c hc => hbelow c (List.mem_cons_of_mem _ hc), ?_⟩
    intro path hfirst hrest
    obtain ⟨p, -, rfl⟩ := List.mem_map.1 hfirst
    obtain ⟨c, hc, q, -, heq⟩ := mem_pathsBelow_iff.1 hrest
    obtain ⟨hkey, -⟩ := List.cons.inj heq
    exact hnew (hkey ▸ List.mem_map_of_mem hc)

theorem Named.nodup_paths (h : Named name N) : N.paths.Nodup := by
  induction h with
  | node hname hkeys hbelow ih =>
    rw [paths, List.nodup_append']
    refine ⟨nodup_pathsBelow hkeys ih, List.nodup_singleton _, ?_⟩
    intro path hpath hnil
    obtain ⟨b, -, p, -, rfl⟩ := mem_pathsBelow_iff.1 hpath
    simp at hnil

/-- The object types are those at the paths, in the same order. -/
theorem Named.flatten_eq (h : Named name N) :
    N.flatten.map some = N.paths.map fun path => (N.at? path).map shape := by
  induction h with
  | @node name o parent ss bs hname hkeys hbelow ih =>
    have hbranches : ∀ cs, (∀ c ∈ cs, c ∈ bs) → (flattens cs).map some =
        (pathsBelow cs).map fun path => ((ShapeTree.node o parent ss bs).at? path).map shape := by
      intro cs hcs
      induction cs with
      | nil => rfl
      | cons c cs ihcs =>
        obtain ⟨k, t⟩ := c
        have hmem := hcs (k, t) List.mem_cons_self
        have hlookup : bs.lookup k = some t := Table.get?_of_mem hkeys hmem
        rw [flattens, pathsBelow, List.map_append, List.map_append, List.map_map, ih _ hmem,
          ihcs fun c hc => hcs c (List.mem_cons_of_mem _ hc)]
        simp [Function.comp_def, at?, branches, hlookup]
    rw [flatten, paths, List.map_append, List.map_append, hbranches bs fun _ hb => hb]
    rfl

theorem Named.name_at (h : Named name N) (hM : N.at? path = some M) :
    M.shape.name = nameAt name path := by
  induction h generalizing path with
  | @node name o parent ss bs hname hkeys hbelow ih =>
    cases path with
    | nil =>
      obtain rfl := Option.some.inj hM
      exact hname
    | cons k path =>
      rw [at?, Option.bind_eq_some_iff] at hM
      obtain ⟨t, ht, hM⟩ := hM
      exact ih (k, t) (Table.mem_of_lookup ht) hM

theorem Named.map_flatten (h : Named name N) :
    N.flatten.map ObjectShape.name = N.paths.map (nameAt name) := by
  have hnames : (N.flatten.map some).map (Option.map ObjectShape.name) =
      (N.paths.map (nameAt name)).map some := by
    rw [h.flatten_eq, List.map_map, List.map_map]
    refine List.map_congr_left fun path hpath => ?_
    obtain ⟨M, hM⟩ := (mem_paths_iff h).1 hpath
    simp [hM, h.name_at hM]
  apply List.map_injective_iff.2 fun _ _ => Option.some.inj
  rw [← hnames, List.map_map, List.map_map]
  rfl

theorem Named.mem_flatten_iff (h : Named name N) {o : ObjectShape} :
    o ∈ N.flatten ↔ ∃ path M, N.at? path = some M ∧ M.shape = o := by
  have hmem : o ∈ N.flatten ↔ some o ∈ N.flatten.map some := by simp
  simp only [hmem, h.flatten_eq, List.mem_map, Option.map_eq_some_iff, mem_paths_iff h]
  constructor
  · rintro ⟨path, -, M, hM, ho⟩
    exact ⟨path, M, hM, ho⟩
  · rintro ⟨path, M, hM, ho⟩
    exact ⟨path, ⟨M, hM⟩, M, hM, ho⟩

/-- After an underscore two keys can go on alike only if one of them goes on with an underscore
after the other one. -/
theorem eq_of_append_suffix {k l : String} {p q : List String}
    (hkl : ¬ (k ++ "_").toList <+: l.toList) (hlk : ¬ (l ++ "_").toList <+: k.toList)
    (h : k.toList ++ suffix p = l.toList ++ suffix q) : k = l ∧ suffix p = suffix q := by
  -- a longer key has the underscore that follows the shorter one, unless nothing is left of it
  have longer : ∀ {k l : String} {rest : List Char} {p q : List String},
      l.toList = k.toList ++ rest → suffix p = rest ++ suffix q →
      rest = [] ∨ (k ++ "_").toList <+: l.toList := by
    intro k l rest p q hl hp
    cases rest with
    | nil => exact .inl rfl
    | cons c rest =>
      cases p with
      | nil => simp [suffix] at hp
      | cons m p =>
        rw [suffix, List.flatMap_cons, List.cons_append, List.cons_append] at hp
        obtain ⟨rfl, -⟩ := List.cons.inj hp
        exact .inr ⟨rest, by simp [hl]⟩
  rcases List.append_eq_append_iff.1 h with ⟨rest, hl, hp⟩ | ⟨rest, hk, hq⟩
  · obtain rfl := (longer hl hp).resolve_right hkl
    exact ⟨String.toList_inj.1 (by simpa using hl.symm), hp⟩
  · obtain rfl := (longer hk hq).resolve_right hlk
    exact ⟨String.toList_inj.1 (by simpa using hk), hq.symm⟩

theorem eq_of_suffix_eq (hclear : ∀ path M, N.at? path = some M → M.Clear) {p q : List String}
    (hp : ∃ M, N.at? p = some M) (hq : ∃ M, N.at? q = some M) (h : suffix p = suffix q) :
    p = q := by
  induction p generalizing N q with
  | nil =>
    cases q with
    | nil => rfl
    | cons l q => simp [suffix] at h
  | cons k p ih =>
    cases q with
    | nil => simp [suffix] at h
    | cons l q =>
      simp only [at?, Option.bind_eq_some_iff] at hp hq
      obtain ⟨P, t, ht, hP⟩ := hp
      obtain ⟨Q, u, hu, hQ⟩ := hq
      have hroot := hclear [] N rfl
      have hk := Table.mem_of_lookup ht
      have hl := Table.mem_of_lookup hu
      rw [suffix, suffix, List.flatMap_cons, List.flatMap_cons] at h
      obtain ⟨rfl, hsuffix⟩ := eq_of_append_suffix (hroot _ hk _ hl) (hroot _ hl _ hk)
        (List.cons.inj h).2
      obtain rfl := Option.some.inj (ht.symm.trans hu)
      rw [ih (fun path M hM => hclear (k :: path) M ?_) ⟨P, hP⟩ ⟨Q, hQ⟩ hsuffix]
      rw [at?, ht]
      exact hM

end ShapeTree

/-- The names that a module declares, apart from those it imports. -/
def ModuleShape.declared (m : ModuleShape) : List String :=
  m.objects.map ObjectShape.name ++ m.arguments.toList.map ObjectShape.name

namespace ShapeContext

open ShapeTree

variable {cx : ShapeContext} {m : ModuleShape}

theorem nodup_keys_of_entries {s : Schema} {table : Table Fragment} {parent : NamedType}
    {ss : List Selection} {es : List Entry} (h : Level.entries s table parent ss = .ok es) :
    (es.map Entry.key).Nodup := by
  obtain ⟨os, -, hkeys, -⟩ := Level.exists_groups_of_entries h
  rw [hkeys]
  exact Text.nodup_eraseDups _

theorem keys_sublist_of_sprout {n : Nat} {name : String}
    {parts : List (Property × Option (String × ShapeTree))}
    (h : ∀ part ∈ parts, ∃ e, cx.sprout (cx.grow n) name e = .ok part) :
    ((parts.filterMap Prod.snd).map Prod.fst).Sublist (parts.map fun part => part.1.name) := by
  induction parts with
  | nil => exact .slnil
  | cons part parts ih =>
    obtain ⟨p, b⟩ := part
    have hrest := ih fun part hpart => h part (List.mem_cons_of_mem _ hpart)
    obtain ⟨e, he⟩ := h (p, b) List.mem_cons_self
    obtain ⟨hname, -, ⟨-, rfl⟩ | ⟨-, N, rfl, -⟩⟩ := sprout_spec he
    · exact hrest.cons _
    · rw [List.map_cons, hname]
      exact hrest.cons_cons _

theorem named_of_grow {n : Nat} {name : String} {parent : NamedType} {ss : List Selection}
    {N : ShapeTree} (h : cx.grow n name parent ss = .ok N) : Named name N := by
  induction n generalizing name parent ss N with
  | zero => exact absurd h (by simp [grow])
  | succ n ih =>
    obtain ⟨m, es, parts, hm, hes, hparts, rfl⟩ := exists_parts_of_grow h
    obtain rfl := Nat.succ.inj hm
    have hsprout := (Outcome.mem_of_mapM hparts).2
    have hkeys : (parts.map fun part => part.1.name).Nodup := by
      rw [Outcome.map_of_mapM (fun _ _ he => (sprout_spec he).1) hparts]
      exact nodup_keys_of_entries hes
    have hsublist := keys_sublist_of_sprout fun part hpart =>
      (hsprout part hpart).imp fun _ he => he.2
    refine .node rfl (hkeys.sublist hsublist) ?_
    intro b hb
    obtain ⟨part, hpart, hb⟩ := List.mem_filterMap.1 hb
    obtain ⟨e, -, he⟩ := hsprout part hpart
    obtain ⟨-, -, ⟨-, hnone⟩ | ⟨-, N', hb', -⟩⟩ := sprout_spec he
    · simp [hb] at hnone
    · rcases namesResult_of_sprout he with ⟨hnone, -⟩ | ⟨k, N, hN, ⟨t, below, hgrow⟩, -⟩
      · simp [hb] at hnone
      · obtain rfl := Option.some.inj (hb.symm.trans hb')
        obtain ⟨rfl, rfl⟩ := Prod.mk.inj (Option.some.inj (hb'.symm.trans hN))
        exact ih hgrow

theorem name_of_parameterShape {name : String} {o : Operation} {arguments : Option ObjectShape}
    (h : cx.parameterShape name o = .ok arguments) : ∀ a ∈ arguments, a.name = name ++ "Variables" := by
  unfold parameterShape at h
  split at h
  · obtain rfl := Except.ok.inj h
    simp
  · obtain ⟨properties, -, h⟩ := Outcome.bind_eq_ok_iff.1 h
    obtain rfl := Except.ok.inj h
    simp

theorem name_of_arguments {d : Operation ⊕ Fragment} (h : cx.moduleOf d = .ok m) :
    ∀ a ∈ m.arguments, a.name = m.name ++ "Variables" := by
  cases d with
  | inl o =>
    obtain ⟨root, name, N, -, -, -, harguments, hm, -⟩ := operation_spec h
    rw [hm]
    exact name_of_parameterShape harguments
  | inr f =>
    obtain ⟨t, N, -, -, harguments, -⟩ := fragment_spec h
    simp [harguments]

/-- No object type has the name of the one for the variables. -/
theorem nameAt_ne_variables (name : String) (path : List String) :
    nameAt name path ≠ name ++ "Variables" := by
  rw [Ne, ← String.toList_inj, toList_nameAt, String.toList_append, List.append_cancel_left_eq]
  cases path with
  | nil => simp [suffix]
  | cons k path => simp [suffix]

/-- Declared names are distinct exactly if the paths to object types keep apart when their keys are
joined with underscores; they do if on no level one key goes on with an underscore after another
one. -/
theorem declared_nodup_iff (cx : ShapeContext) (d : Operation ⊕ Fragment) (m : ModuleShape)
    (h : cx.moduleOf d = .ok m) :
    ∃ N, Built cx N d ∧
      (∀ o, o ∈ m.objects ↔ ∃ path M, N.at? path = some M ∧ M.shape = o) ∧
      (∀ path M, N.at? path = some M → M.shape.name = nameAt m.name path) ∧
      (∀ a ∈ m.arguments, a.name = m.name ++ "Variables") ∧
      (m.declared.Nodup ↔ ∀ p q, (∃ M, N.at? p = some M) → (∃ M, N.at? q = some M) →
        nameAt m.name p = nameAt m.name q → p = q) ∧
      ((∀ path M, N.at? path = some M → M.Clear) → m.declared.Nodup) := by
  obtain ⟨N, t, n, ss, hbuilt, hobjects, hgrow⟩ := exists_built h
  have hnamed := named_of_grow hgrow
  have harguments := name_of_arguments h
  have hdeclared : m.declared.Nodup ↔ ∀ p q, (∃ M, N.at? p = some M) → (∃ M, N.at? q = some M) →
      nameAt m.name p = nameAt m.name q → p = q := by
    have hvariables : (m.arguments.toList.map ObjectShape.name).Nodup ∧
        (N.paths.map (nameAt m.name)).Disjoint (m.arguments.toList.map ObjectShape.name) := by
      refine ⟨by cases m.arguments <;> simp, ?_⟩
      intro n hpath hn
      obtain ⟨path, -, rfl⟩ := List.mem_map.1 hpath
      obtain ⟨a, ha, hname⟩ := List.mem_map.1 hn
      rw [harguments a (Option.mem_toList.1 ha)] at hname
      exact nameAt_ne_variables _ _ hname.symm
    rw [ModuleShape.declared, hobjects, hnamed.map_flatten, List.nodup_append',
      and_iff_left hvariables, List.nodup_map_iff_inj_on hnamed.nodup_paths]
    simp only [mem_paths_iff hnamed]
    exact ⟨fun h p q hp hq => h p hp q hq, fun h p hp q hq => h p q hp hq⟩
  refine ⟨N, hbuilt, fun o => hobjects ▸ hnamed.mem_flatten_iff, fun path M => hnamed.name_at,
    harguments, hdeclared, fun hclear => hdeclared.2 fun p q hp hq heq => ?_⟩
  exact eq_of_suffix_eq hclear hp hq (nameAt_eq_iff.1 heq)

/-- A key that goes on like the way through another one. -/
def joinedSchema : Schema :=
  ⟨[plainType "Query" [("a", "A"), ("a_b", "B")], plainType "A" [("b", "B")],
    plainType "B" [("c", "String"), ("d", "String")], ⟨"String", none, .scalar⟩],
    some "Query", none, none, []⟩

def joinedOperation : Operation where
  kind := .query
  name := some ⟨"Q", none⟩
  variableDefs := []
  directives := []
  selections := [plainField "a" [plainField "b" [plainField "c" []]],
    plainField "a_b" [plainField "d" []]]
  origin := none

def joinedFile : ClientFile := ⟨["q.graphql"], [.operation joinedOperation], []⟩

def joined : ShapeContext := ⟨joinedSchema, (ClientFiles.document [joinedFile]).fragmentTable,
  ⟨[], false, ""⟩⟩

theorem joined_valid : ClientFiles.validity (some joinedSchema) [joinedFile] = .ok () :=
  Validation.validity_of_findings rfl (by decide +kernel) (by decide +kernel)

theorem declared_nodup_iff_joined :
    ClientFiles.validity (some joinedSchema) [joinedFile] = .ok () ∧
    ∃ m, joined.moduleOf (.inl joinedOperation) = .ok m ∧ ¬ m.declared.Nodup ∧
      ∃ N M M', Built joined N (.inl joinedOperation) ∧ N.at? ["a", "b"] = some M ∧
        N.at? ["a_b"] = some M' ∧ M.keys = ["c"] ∧ M'.keys = ["d"] ∧
        M.shape.name = M'.shape.name := by
  obtain ⟨m, hm⟩ : ∃ m, joined.moduleOf (.inl joinedOperation) = .ok m := ⟨_, rfl⟩
  obtain ⟨N, hbuilt, -, hname, -, hnodup, -⟩ := declared_nodup_iff joined _ m hm
  have hN : joined.operationTree (plainType "Query" [("a", "A"), ("a_b", "B")])
      joinedOperation = .ok N := by
    cases hbuilt with
    | operation hroot hN =>
      obtain rfl := Option.some.inj hroot
      exact hN
  have hkeys : ∀ path keys, ((joined.operationTree (plainType "Query" [("a", "A"), ("a_b", "B")])
      joinedOperation).toOption.bind fun N => N.at? path).map ShapeTree.keys = some keys →
      ∃ M, N.at? path = some M ∧ M.keys = keys := by
    intro path keys h
    rw [hN, Except.toOption, Option.bind_some, Option.map_eq_some_iff] at h
    exact h
  obtain ⟨M, hM, hc⟩ := hkeys ["a", "b"] ["c"] rfl
  obtain ⟨M', hM', hd⟩ := hkeys ["a_b"] ["d"] rfl
  have hjoined : nameAt m.name ["a", "b"] = nameAt m.name ["a_b"] := by
    rw [nameAt_eq_iff]
    rfl
  refine ⟨joined_valid, m, hm, ?_, N, M, M', hbuilt, hM, hM', hc, hd, ?_⟩
  · intro h
    exact absurd (hnodup.1 h _ _ ⟨M, hM⟩ ⟨M', hM'⟩ hjoined) (by decide)
  · rw [hname _ _ hM, hname _ _ hM', hjoined]

end ShapeContext
end QueryTypes
