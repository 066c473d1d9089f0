import QueryTypes.Proofs.Execution.Collect

/-!
# Responses

A response is any tree that an executor can build for a selection: it may choose the type of every
object among the possible ones, the length of every list, and null wherever the schema allows it.
Objects are found in a response by the keys that lead to them, through lists of any depth.
-/

namespace QueryTypes

/-- A value in a response. An object is kept with the type that the executor took it to have. -/
inductive Reply
  | null
  | leaf (text : String)
  | list (items : List Reply)
  | object (type : NamedType) (members : List (String × Reply))

/-- An object in a response: its type and its members. -/
abbrev Answer := NamedType × List (String × Reply)

mutual
/-- The objects of a value that are not inside other ones. -/
def Reply.outer : Reply → List Answer
  | .null => []
  | .leaf _ => []
  | .list items => Reply.outers items
  | .object t ms => [(t, ms)]

def Reply.outers : List Reply → List Answer
  | [] => []
  | v :: r => v.outer ++ Reply.outers r
end

namespace Answer

def keys (a : Answer) : List String := a.2.map Prod.fst

/-- The second object stands in the first one at a path of keys; the types are those of the
objects on the way. -/
inductive Holds : Answer → List NamedType → List String → Answer → Prop
  | here {a : Answer} : Holds a [] [] a
  | inside {a b c : Answer} {k : String} {v : Reply} {types : List NamedType} {path : List String} :
      (k, v) ∈ a.2 → b ∈ v.outer → Holds b types path c → Holds a (a.1 :: types) (k :: path) c

end Answer

namespace Execution

/-- The fields with a key. -/
def group (k : String) (nodes : List FieldNode) : List FieldNode := nodes.filter fun n => n.key == k

/-- What is selected below the fields with a key. -/
def below (k : String) (nodes : List FieldNode) : List Selection :=
  (group k nodes).flatMap FieldNode.selections

/-- The definition of the first field with a key, on the type of the object. -/
def asked? (E : Execution) (t : NamedType) (k : String) (nodes : List FieldNode) : Option Field :=
  (group k nodes).head?.bind fun n => E.schema.fieldOf? t n.head.name

mutual
/-- A value that a field of some type can have. -/
inductive Completes (E : Execution) : TypeRef → List Selection → Reply → Prop
  | null {type : TypeRef} {ss : List Selection} :
      type.isRequired = false → Completes E type ss .null
  | list {item : TypeRef} {required : Bool} {ss : List Selection} {items : List Reply} :
      (∀ v ∈ items, Completes E item ss v) → Completes E (.list item required) ss (.list items)
  | leaf {n : String} {required : Bool} {ss : List Selection} {text : String} :
      E.schema.composite? n = none → Completes E (.named n required) ss (.leaf text)
  | object {n : String} {required : Bool} {ss : List Selection} {u t : NamedType}
      {ms : List (String × Reply)} :
      E.schema.composite? n = some u → t ∈ E.schema.possibleTypes u → Answers E t ss ms →
        Completes E (.named n required) ss (.object t ms)

/-- The members of an object of some type. A key whose field the type does not have is left out. -/
inductive Answers (E : Execution) : NamedType → List Selection → List (String × Reply) → Prop
  | mk {t : NamedType} {ss : List Selection} {nodes : List FieldNode} {seen : List String}
      {ms : List (String × Reply)} :
      Collects E t [] ss nodes seen →
      ms.map Prod.fst =
        ((nodes.map FieldNode.key).eraseDups.filter fun k => (E.asked? t k nodes).isSome) →
      (∀ k v f, (k, v) ∈ ms → E.asked? t k nodes = some f →
        Completes E f.type (below k nodes) v) →
      (∀ k v n, (k, v) ∈ ms → (group k nodes).head? = some n → n.head.name = "__typename" →
        v = .leaf t.name) →
      Answers E t ss ms
end

/-- A way to a field deep in a response: a field for each key on the way, selected below the one
before it, where every condition holds for the types of the objects on the way. -/
inductive Lives (E : Execution) : List NamedType → List String → List Selection → FieldNode → Prop
  | last {t : NamedType} {ss : List Selection} {node : FieldNode} :
      Reaches E t ss node → Lives E [t] [node.key] ss node
  | step {t : NamedType} {types : List NamedType} {path : List String} {ss : List Selection}
      {via node : FieldNode} :
      Reaches E t ss via → Lives E types path via.selections node →
        Lives E (t :: types) (via.key :: path) ss node

variable {E : Execution} {t : NamedType} {ss : List Selection} {nodes : List FieldNode}
  {node : FieldNode} {k : String}

theorem mem_group_iff : node ∈ group k nodes ↔ node ∈ nodes ∧ node.key = k := by
  simp [group]

theorem mem_below_iff {sel : Selection} :
    sel ∈ below k nodes ↔ ∃ n ∈ nodes, n.key = k ∧ sel ∈ n.selections := by
  simp only [below, List.mem_flatMap, mem_group_iff, and_assoc]

theorem exists_of_asked {f : Field} (h : E.asked? t k nodes = some f) :
    ∃ n ∈ nodes, n.key = k ∧ (group k nodes).head? = some n ∧
      E.schema.fieldOf? t n.head.name = some f := by
  rw [asked?, Option.bind_eq_some_iff] at h
  obtain ⟨n, hn, hf⟩ := h
  obtain ⟨hmem, hk⟩ := mem_group_iff.1 (List.mem_of_mem_head? hn)
  exact ⟨n, hmem, hk, hn, hf⟩

theorem mem_keys_iff {ms : List (String × Reply)}
    (h : ms.map Prod.fst =
      ((nodes.map FieldNode.key).eraseDups.filter fun k => (E.asked? t k nodes).isSome)) :
    k ∈ ms.map Prod.fst ↔ ∃ f, E.asked? t k nodes = some f := by
  rw [h, List.mem_filter, List.mem_eraseDups, Option.isSome_iff_exists]
  constructor
  · exact fun h => h.2
  · rintro ⟨f, hf⟩
    obtain ⟨n, hn, rfl, -⟩ := exists_of_asked hf
    exact ⟨List.mem_map_of_mem hn, f, hf⟩

theorem exists_first (h : node ∈ nodes) :
    ∃ first ∈ nodes, (group node.key nodes).head? = some first := by
  cases hfirst : (group node.key nodes).head? with
  | none =>
    have hgroup := mem_group_iff.2 ⟨h, rfl⟩
    rw [List.head?_eq_none_iff.1 hfirst] at hgroup
    simp at hgroup
  | some first => exact ⟨first, (mem_group_iff.1 (List.mem_of_mem_head? hfirst)).1, rfl⟩

mutual
theorem Completes.answers_of_mem_outer {b : Answer} :
    (v : Reply) → {type : TypeRef} → Completes E type ss v → b ∈ v.outer →
      ∃ u, E.schema.composite? type.leaf = some u ∧ b.1 ∈ E.schema.possibleTypes u ∧
        Answers E b.1 ss b.2
  | .null, _, _, hb => by simp [Reply.outer] at hb
  | .leaf _, _, _, hb => by simp [Reply.outer] at hb
  | .list items, _, h, hb => by
    cases h with
    | list hitems =>
      have hitem := Completes.answers_of_mem_outers items hitems hb
      exact hitem
  | .object t ms, _, h, hb => by
    cases h with
    | object hu ht ha =>
      obtain rfl : b = (t, ms) := by simpa [Reply.outer] using hb
      exact ⟨_, hu, ht, ha⟩

theorem Completes.answers_of_mem_outers {b : Answer} :
    (items : List Reply) → {type : TypeRef} → (∀ v ∈ items, Completes E type ss v) →
      b ∈ Reply.outers items →
      ∃ u, E.schema.composite? type.leaf = some u ∧ b.1 ∈ E.schema.possibleTypes u ∧
        Answers E b.1 ss b.2
  | [], _, _, hb => by simp [Reply.outers] at hb
  | v :: rest, _, h, hb => by
    rw [Reply.outers, List.mem_append] at hb
    rcases hb with hb | hb
    · exact Completes.answers_of_mem_outer v (h v (by simp)) hb
    · exact Completes.answers_of_mem_outers rest (fun w hw => h w (List.mem_cons_of_mem _ hw)) hb
end

theorem reaches_below_iff : Reaches E t (below k nodes) node ↔
    ∃ n ∈ nodes, n.key = k ∧ Reaches E t n.selections node := by
  constructor
  · intro h
    cases h with
    | field hmem hd =>
      obtain ⟨n, hn, hk, hsel⟩ := mem_below_iff.1 hmem
      exact ⟨n, hn, hk, .field hsel hd⟩
    | inline hmem hd hc hr =>
      obtain ⟨n, hn, hk, hsel⟩ := mem_below_iff.1 hmem
      exact ⟨n, hn, hk, .inline hsel hd hc hr⟩
    | spread hmem hd hf hc hr =>
      obtain ⟨n, hn, hk, hsel⟩ := mem_below_iff.1 hmem
      exact ⟨n, hn, hk, .spread hsel hd hf hc hr⟩
  · rintro ⟨n, hn, hk, hr⟩
    exact hr.mono fun sel hsel => mem_below_iff.2 ⟨n, hn, hk, hsel⟩

theorem lives_below_iff {types : List NamedType} {path : List String} :
    Lives E types path (below k nodes) node ↔
      ∃ n ∈ nodes, n.key = k ∧ Lives E types path n.selections node := by
  constructor
  · intro h
    cases h with
    | last hr =>
      obtain ⟨n, hn, hk, hr⟩ := reaches_below_iff.1 hr
      exact ⟨n, hn, hk, .last hr⟩
    | step hr hl =>
      obtain ⟨n, hn, hk, hr⟩ := reaches_below_iff.1 hr
      exact ⟨n, hn, hk, .step hr hl⟩
  · rintro ⟨n, hn, hk, hl⟩
    cases hl with
    | last hr => exact .last (reaches_below_iff.2 ⟨n, hn, hk, hr⟩)
    | step hr hl => exact .step (reaches_below_iff.2 ⟨n, hn, hk, hr⟩) hl

theorem Lives.path_ne_nil {types : List NamedType} {path : List String}
    (h : Lives E types path ss node) : path ≠ [] := by
  cases h <;> simp

theorem Reaches.ne_nil (h : Reaches E t ss node) : ss ≠ [] := by
  cases h with
  | field hmem => exact List.ne_nil_of_mem hmem
  | inline hmem => exact List.ne_nil_of_mem hmem
  | spread hmem => exact List.ne_nil_of_mem hmem

theorem Lives.ne_nil {types : List NamedType} {path : List String}
    (h : Lives E types path ss node) : ss ≠ [] := by
  cases h with
  | last hr => exact hr.ne_nil
  | step hr => exact hr.ne_nil

theorem lives_singleton_iff {types : List NamedType} :
    Lives E types [k] ss node ↔ node.key = k ∧ ∃ t, types = [t] ∧ Reaches E t ss node := by
  constructor
  · intro h
    generalize hpath : [k] = path at h
    cases h with
    | last hr => exact ⟨(List.cons.inj hpath).1.symm, _, rfl, hr⟩
    | step _ hl =>
      rw [← (List.cons.inj hpath).2] at hl
      cases hl
  · rintro ⟨rfl, t, rfl, hr⟩
    exact .last hr

theorem lives_cons_iff {types : List NamedType} {path : List String} (hpath : path ≠ []) :
    Lives E (t :: types) (k :: path) ss node ↔
      ∃ via, via.key = k ∧ Reaches E t ss via ∧ Lives E types path via.selections node := by
  constructor
  · intro h
    generalize hwhole : k :: path = whole at h
    cases h with
    | last hr => exact absurd (List.cons.inj hwhole).2 hpath
    | step hr hl =>
      obtain ⟨rfl, rfl⟩ := List.cons.inj hwhole
      exact ⟨_, rfl, hr, hl⟩
  · rintro ⟨via, rfl, hr, hl⟩
    exact .step hr hl

theorem answers_of_single {seen : List String} {f : Field} {v : Reply}
    (hc : Collects E t [] ss [node] seen) (hf : E.schema.fieldOf? t node.head.name = some f)
    (hname : node.head.name ≠ "__typename") (hv : Completes E f.type node.selections v) :
    Answers E t ss [(node.key, v)] := by
  have hgroup : group node.key [node] = [node] := by simp [group]
  have hasked : E.asked? t node.key [node] = some f := by
    rw [asked?, hgroup]
    exact hf
  refine .mk hc ?_ ?_ ?_
  · simp [List.eraseDups_cons, hasked]
  · intro k w g hmem hg
    obtain ⟨rfl, rfl⟩ := Prod.mk.inj (List.mem_singleton.1 hmem)
    rw [hasked] at hg
    obtain rfl := Option.some.inj hg
    rw [below, hgroup, List.flatMap_singleton]
    exact hv
  · intro k w n hmem hn hn'
    obtain ⟨rfl, rfl⟩ := Prod.mk.inj (List.mem_singleton.1 hmem)
    rw [hgroup] at hn
    obtain rfl := Option.some.inj hn
    exact absurd hn' hname

theorem lives_below_iff_of_collects {seen : List String} {types : List NamedType}
    {path : List String} (hc : Collects E t [] ss nodes seen) (hpath : path ≠ []) :
    Lives E types path (below k nodes) node ↔ Lives E (t :: types) (k :: path) ss node := by
  rw [lives_below_iff, lives_cons_iff hpath]
  constructor
  · rintro ⟨via, hvia, hk, hl⟩
    exact ⟨via, hk, hc.mem_iff.1 hvia, hl⟩
  · rintro ⟨via, hk, hr, hl⟩
    exact ⟨via, hc.mem_iff.2 hr, hk, hl⟩

end Execution
end QueryTypes
