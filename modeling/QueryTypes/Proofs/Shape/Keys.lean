import QueryTypes.Proofs.Execution.Reply
import QueryTypes.Proofs.Shape.Tree

/-!
# Keys of object types

An object in a response has no key that the object type for its path lacks: whatever an executor
selects there is among the selections that the type was built for. There is an object type for
every object as long as the objects stand at properties that are typed as objects.
-/

namespace QueryTypes

namespace ShapeTree

/-- Every object in the response has an object type. -/
def Reflects (N : ShapeTree) (a : Answer) : Prop :=
  ∀ types path c, a.Holds types path c → ∃ M, N.at? path = some M

/-- The object type of an object in the response declares all keys of the object. -/
def Declares (N : ShapeTree) (a : Answer) : Prop :=
  ∀ types path c M, a.Holds types path c → N.at? path = some M → ∀ k ∈ c.keys, k ∈ M.keys

/-- Objects in the response stand only where a property is typed as an object. -/
def Expects (N : ShapeTree) (a : Answer) : Prop :=
  ∀ types path c M, a.Holds types path c → N.at? path = some M →
    ∀ k v, (k, v) ∈ c.2 → v.outer ≠ [] → ∃ p ∈ M.properties, p.name = k ∧ p.isObject = true

theorem at?_append (N : ShapeTree) (path rest : List String) :
    N.at? (path ++ rest) = (N.at? path).bind fun M => M.at? rest := by
  induction path generalizing N with
  | nil => rfl
  | cons k path ih =>
    rw [List.cons_append, at?, at?, Option.bind_assoc]
    congr 1
    funext M
    exact ih M

theorem at?_singleton (N : ShapeTree) (k : String) : N.at? [k] = N.branches.lookup k := by
  rw [at?]
  simp [at?]

end ShapeTree

theorem Answer.Holds.snoc {a b c : Answer} {types : List NamedType} {path : List String}
    {k : String} {v : Reply} (h : a.Holds types path b) (hv : (k, v) ∈ b.2) (hc : c ∈ v.outer) :
    a.Holds (types ++ [b.1]) (path ++ [k]) c := by
  induction h with
  | here => exact .inside hv hc .here
  | inside hmem hb _ ih => exact .inside hmem hb (ih hv)

namespace ShapeContext

open Execution

variable {cx : ShapeContext} {N M B : ShapeTree} {ss : List Selection} {k : String}
  {path : List String} {values : String → Bool} {a : Answer} {t : NamedType}
  {node : FieldNode} {nodes : List FieldNode} {seen seen' : List String}

/-- What an executor works with for the context. -/
def execution (cx : ShapeContext) (values : String → Bool) : Execution :=
  ⟨cx.schema, cx.fragments, values⟩

theorem Grown.branch (h : Grown cx N) (hb : N.branches.lookup k = some B) :
    ∃ e, e.key = k ∧ Bears cx N e B ∧
      Level.Merges cx.schema cx.fragments N.parent N.selections e := by
  obtain ⟨es, hes⟩ := h.levelled
  obtain ⟨e, he, hk, hbears⟩ := hes.branch k B (Table.mem_of_lookup hb)
  exact ⟨e, hk, hbears, (Level.merges_of_entries hes.entries).1 e he⟩

theorem Grown.at? (h : Grown cx N) (hM : N.at? path = some M) : Grown cx M := by
  induction path generalizing N with
  | nil =>
    obtain rfl := Option.some.inj hM
    exact h
  | cons k path ih =>
    rw [ShapeTree.at?, Option.bind_eq_some_iff] at hM
    obtain ⟨B, hB, hM⟩ := hM
    obtain ⟨e, -, hbears, -⟩ := h.branch hB
    exact ih hbears.grown hM

theorem Grown.mem_keys (h : Grown cx N) (hss : ∀ sel ∈ ss, sel ∈ N.selections)
    (hr : ReachesApart (cx.execution values) t [] ss node) : node.key ∈ N.keys := by
  obtain ⟨es, hes⟩ := h.levelled
  obtain ⟨_, -, -, -, e, he, hkey⟩ := Level.exists_entry_of_reaches hes.entries (hr.mono hss)
  obtain ⟨p, hp, hdeclares⟩ := hes.declared e he
  rw [← hkey, ← hdeclares.name]
  exact List.mem_map_of_mem hp

theorem Grown.below_subset (h : Grown cx N) (hss : ∀ sel ∈ ss, sel ∈ N.selections)
    (hc : Collects (cx.execution values) t [] ss nodes seen) (hb : N.branches.lookup k = some B) :
    ∀ sel ∈ below k nodes, sel ∈ B.selections := by
  intro sel hsel
  obtain ⟨node, hnode, hk, hsel⟩ := mem_below_iff.1 hsel
  obtain ⟨es, hes⟩ := h.levelled
  obtain ⟨e, he, hbears, hmerges⟩ := h.branch hb
  obtain ⟨occ, hocc, hof, -⟩ :=
    Level.exists_entry_of_reaches hes.entries ((hc.reachesApart hnode).mono hss)
  rw [hbears.selections, hmerges.mem_selections_iff]
  exact ⟨occ, hocc, by rw [hof.key, hk, he], by rw [hof.selections]; exact hsel⟩

/-- The object type for an object is built for everything that the executor selected there. -/
theorem Grown.exists_subset {c : Answer} {types : List NamedType} (h : Grown cx N)
    (hss : ∀ sel ∈ ss, sel ∈ N.selections) (ha : Answers (cx.execution values) a.1 ss a.2)
    (hholds : a.Holds types path c) (hM : N.at? path = some M) :
    ∃ ss', Answers (cx.execution values) c.1 ss' c.2 ∧ ∀ sel ∈ ss', sel ∈ M.selections := by
  induction hholds generalizing N ss with
  | here =>
    obtain rfl := Option.some.inj hM
    exact ⟨ss, ha, hss⟩
  | @inside a b c k v types path hmem hb _ ih =>
    rw [ShapeTree.at?, Option.bind_eq_some_iff] at hM
    obtain ⟨B, hB, hM⟩ := hM
    obtain ⟨hcollects, hkeys, hvalues, -⟩ := ha
    obtain ⟨f, hf⟩ := (mem_keys_iff hkeys).1 (List.mem_map_of_mem hmem)
    obtain ⟨u, -, -, hb'⟩ := Completes.answers_of_mem_outer v (hvalues k v f hmem hf) hb
    obtain ⟨e, -, hbears, -⟩ := h.branch hB
    exact ih hbears.grown (h.below_subset hss hcollects hB) hb' hM

theorem Grown.declares {ms : List (String × Reply)} (h : Grown cx N)
    (ha : Answers (cx.execution values) t N.selections ms) : N.Declares (t, ms) := by
  intro types path c M hholds hM k hk
  obtain ⟨ss, hc, hss⟩ := h.exists_subset (fun _ hsel => hsel) ha hholds hM
  obtain ⟨hcollects, hkeys, -, -⟩ := hc
  obtain ⟨f, hf⟩ := (mem_keys_iff hkeys).1 hk
  obtain ⟨node, hnode, rfl, -⟩ := exists_of_asked hf
  exact (h.at? hM).mem_keys hss (hcollects.reachesApart hnode)

/-- There is an object type for every object exactly if objects stand where they are expected. -/
theorem Grown.reflects_iff (h : Grown cx N) : N.Reflects a ↔ N.Expects a := by
  constructor
  · intro hreflects types path c M hholds hM k v hv hobjects
    obtain ⟨b, hb⟩ := List.exists_mem_of_ne_nil _ hobjects
    obtain ⟨B, hB⟩ := hreflects _ _ _ (hholds.snoc hv hb)
    rw [ShapeTree.at?_append, hM, Option.bind_some, ShapeTree.at?_singleton] at hB
    obtain ⟨e, rfl, hbears, -⟩ := (h.at? hM).branch hB
    exact hbears.property
  · intro hexpects types path c hholds
    induction hholds generalizing N with
    | here => exact ⟨N, rfl⟩
    | @inside a b c k v types path hmem hb _ ih =>
      obtain ⟨es, hes⟩ := h.levelled
      obtain ⟨p, hp, rfl, hobject⟩ :=
        hexpects [] [] a N .here rfl k v hmem (List.ne_nil_of_mem hb)
      obtain ⟨e, -, hdeclares⟩ := hes.property p hp
      obtain ⟨B, hB⟩ := hdeclares.branch hobject
      rw [← hdeclares.name] at hB
      obtain ⟨B, hB⟩ := Table.exists_lookup hB
      obtain ⟨e, -, hbears, -⟩ := h.branch hB
      have hat : ∀ path, N.at? (p.name :: path) = B.at? path := by
        intro path
        rw [ShapeTree.at?, hB, Option.bind_some]
      obtain ⟨M, hM⟩ := ih hbears.grown fun types path c M hholds hM =>
        hexpects _ _ c M (.inside hmem hb hholds) ((hat path).trans hM)
      exact ⟨M, (hat path).trans hM⟩

/-- Generated types never miss a key: the object type for a path in a response declares every key
of the object there, and the object type of a fragment every key that the fragment contributes to
an object. An object in a response has an object type unless it, or an object that it is inside
of, stands at a property that is not typed as an object. -/
theorem keys_declared (cx : ShapeContext) :
    (∀ o m, cx.operation o = .ok m →
      ∃ root N, cx.schema.rootType? o.kind = some root ∧ cx.operationTree root o = .ok N ∧
        m.objects = N.flatten ∧ ∀ values ms,
          Answers (cx.execution values) root o.selections ms →
            N.Declares (root, ms) ∧ (N.Reflects (root, ms) ↔ N.Expects (root, ms))) ∧
    (∀ f m, cx.fragment f = .ok m →
      ∃ t N, cx.schema.composite? f.condition.text = some t ∧ cx.fragmentTree t f = .ok N ∧
        m.objects = N.flatten ∧ ∀ values u seen nodes seen',
          Collects (cx.execution values) u seen f.selections nodes seen' →
            ∀ node ∈ nodes, node.key ∈ N.keys) := by
  constructor
  · intro o m h
    obtain ⟨root, N, hroot, hN, hobjects⟩ := exists_of_operation h
    obtain ⟨rfl, hselections, hgrown⟩ := grown_of_grow hN
    refine ⟨_, N, hroot, hN, hobjects, fun values ms ha => ⟨?_, hgrown.reflects_iff⟩⟩
    rw [← hselections] at ha
    exact hgrown.declares ha
  · intro f m h
    obtain ⟨t, N, ht, hN, hobjects⟩ := exists_of_fragment h
    obtain ⟨rfl, hselections, hgrown⟩ := grown_of_grow hN
    refine ⟨_, N, ht, hN, hobjects, fun values u seen nodes seen' hc node hnode => ?_⟩
    exact hgrown.mem_keys (by simp [hselections])
      ((hc.reachesApart hnode).anti (by simp))

/-- An object type whose fields have no arguments. -/
def plainType (name : String) (fields : List (String × String)) : NamedType :=
  ⟨name, none, .object [] (fields.map fun f => ⟨f.1, none, [], .named f.2 false, none⟩)⟩

def plainField (name : String) (ss : List Selection) : Selection :=
  .field ⟨none, name, [], [], none⟩ none ss

def onType (name : String) (ss : List Selection) : Selection :=
  .inline (some ⟨name, none⟩) [] ss none

def spreadOf (name : String) : Selection := .spread ⟨name, none⟩ [] none

/-- A union whose members give a field two types, with a scalar and an object under one name. -/
def mixed : ShapeContext where
  schema := ⟨[plainType "Query" [("it", "It")], ⟨"It", none, .union ["A", "B"]⟩,
    plainType "A" [("x", "Foo")], plainType "B" [("x", "Bar")],
    plainType "Foo" [("c", "String"), ("b", "String")], plainType "Bar" [("b", "Obj")],
    plainType "Obj" [("d", "String")], ⟨"String", none, .scalar⟩], some "Query", none, none, []⟩
  fragments := []
  scalars := ⟨[], false, ""⟩

def mixedOperation : Operation where
  kind := .query
  name := some ⟨"Q", none⟩
  variableDefs := []
  directives := []
  selections := [plainField "it" [onType "A" [plainField "x" [plainField "c" []]],
    onType "B" [plainField "x" [plainField "b" [plainField "d" []]]]]]
  origin := none

def mixedReply : List (String × Reply) :=
  [("it", .object (plainType "B" [("x", "Bar")]) [("x", .object (plainType "Bar" [("b", "Obj")])
    [("b", .object (plainType "Obj" [("d", "String")]) [("d", .leaf "v")])])])]

theorem mixed_answers : Answers (mixed.execution fun _ => true) (plainType "Query" [("it", "It")])
    mixedOperation.selections mixedReply := by
  have hd : Answers (mixed.execution fun _ => true) (plainType "Obj" [("d", "String")])
      [plainField "d" []] [("d", .leaf "v")] :=
    answers_of_single (.field rfl .nil) rfl (by decide) (.leaf rfl)
  have hb : Answers (mixed.execution fun _ => true) (plainType "Bar" [("b", "Obj")])
      [plainField "b" [plainField "d" []]]
      [("b", .object (plainType "Obj" [("d", "String")]) [("d", .leaf "v")])] :=
    answers_of_single (.field rfl .nil) rfl (by decide) (.object rfl List.mem_cons_self hd)
  have hx : Answers (mixed.execution fun _ => true) (plainType "B" [("x", "Bar")])
      [onType "A" [plainField "x" [plainField "c" []]],
        onType "B" [plainField "x" [plainField "b" [plainField "d" []]]]]
      [("x", .object (plainType "Bar" [("b", "Obj")])
        [("b", .object (plainType "Obj" [("d", "String")]) [("d", .leaf "v")])])] :=
    answers_of_single (.inlineUnmet rfl rfl (.inline rfl rfl (.field rfl .nil) .nil)) rfl
      (by decide) (.object rfl List.mem_cons_self hb)
  exact answers_of_single (.field rfl .nil) rfl (by decide)
    (.object rfl (List.mem_of_getElem? (i := 1) rfl) hx)

theorem mixed_operation : ∃ m, mixed.operation mixedOperation = .ok m := ⟨_, rfl⟩

theorem keys_declared_mixed :
    ∃ N, mixed.operationTree (plainType "Query" [("it", "It")]) mixedOperation = .ok N ∧
      N.Declares (plainType "Query" [("it", "It")], mixedReply) ∧
      ¬ N.Reflects (plainType "Query" [("it", "It")], mixedReply) := by
  obtain ⟨m, hm⟩ := mixed_operation
  obtain ⟨root, N, hroot, hN, -, hall⟩ := (keys_declared mixed).1 mixedOperation m hm
  obtain rfl : plainType "Query" [("it", "It")] = root := Option.some.inj hroot
  refine ⟨N, hN, (hall _ _ mixed_answers).1, ?_⟩
  have hnone : ((mixed.operationTree (plainType "Query" [("it", "It")])
      mixedOperation).toOption.bind fun N => N.at? ["it", "x", "b"]) = none := rfl
  rw [hN] at hnone
  intro hreflects
  obtain ⟨M, hM⟩ := hreflects _ _ _ (.inside List.mem_cons_self List.mem_cons_self
    (.inside List.mem_cons_self List.mem_cons_self
      (.inside List.mem_cons_self List.mem_cons_self .here)))
  exact absurd (hM.symm.trans hnone) (by simp)

end ShapeContext
end QueryTypes
