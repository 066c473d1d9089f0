import QueryTypes.Proofs.Execution.Reply
import QueryTypes.Proofs.Schema.Promises
import QueryTypes.Proofs.Validation.Known

/-!
# Objects that have what they are asked for

In a valid request each selection for an object stands on a type that the object has, where its
fields are known. So a key is in the object as soon as some field with the key is reached, and the
objects below it are in the same position as long as the fields with one key have one name.
-/

namespace QueryTypes

theorem Known.of_mem {s : Schema} {p : NamedType} {ss : List Selection} {sel : Selection}
    (h : Known s p ss) (hsel : sel ∈ ss) : Known s p [sel] :=
  Faultless.of_mem h hsel

namespace Execution

/-- A sound schema, on which the fields of all fragments are known. -/
structure Fit (E : Execution) : Prop where
  distinct : E.schema.Distinct
  sound : E.schema.complaints = []
  fragments : ∀ n f, E.fragments.get? n = some f →
    ∀ u, E.schema.composite? f.condition.text = some u → Known E.schema u f.selections

/-- The selections stand on types that objects of a type have. -/
structure Stands (E : Execution) (t : NamedType) (ss : List Selection) : Prop where
  mem : t ∈ E.schema.types
  object : t.isObject = true
  known : ∀ sel ∈ ss, ∃ p ∈ E.schema.types, E.schema.isA t p = true ∧ Known E.schema p [sel]

variable {E : Execution} {t : NamedType} {ss : List Selection} {node : FieldNode}
  {nodes : List FieldNode} {seen : List String} {k : String} {ms : List (String × Reply)}

theorem Stands.of_known (hmem : t ∈ E.schema.types) (ho : t.isObject = true) {p : NamedType}
    (hp : p ∈ E.schema.types) (ha : E.schema.isA t p = true) (hk : Known E.schema p ss) :
    Stands E t ss :=
  ⟨hmem, ho, fun _ hsel => ⟨p, hp, ha, hk.of_mem hsel⟩⟩

theorem isComposite_of_isA (hE : E.Fit) (hmem : t ∈ E.schema.types) (ho : t.isObject = true)
    {u : NamedType} (hu : u ∈ E.schema.types) (ha : E.schema.isA t u = true) :
    u.isComposite = true := by
  rcases Schema.isA_iff.1 ha with hname | ⟨habs, -⟩
  · rw [hE.distinct.eq_of_name hu hmem hname, NamedType.isComposite, ho, Bool.true_or]
  · rw [NamedType.isComposite, habs, Bool.or_true]

theorem composite_of_meets (hE : E.Fit) (hmem : t ∈ E.schema.types) (ho : t.isObject = true)
    {n : String} (hm : E.meets t (some n) = true) :
    ∃ u ∈ E.schema.types, E.schema.composite? n = some u ∧ E.schema.isA t u = true := by
  rw [meets, Option.any_eq_true] at hm
  obtain ⟨u, hu, ha⟩ := hm
  have hu' := Schema.mem_of_type? hu
  exact ⟨u, hu', Schema.composite?_eq_some_iff.2 ⟨hu, isComposite_of_isA hE hmem ho hu' ha⟩, ha⟩

/-- Whatever is reached stands on a type that the object has, where it is known. -/
theorem Stands.of_reaches (hE : E.Fit) (h : Stands E t ss) (hr : Reaches E t ss node) :
    ∃ p ∈ E.schema.types, E.schema.isA t p = true ∧
      ∃ f, E.schema.fieldOf? p node.head.name = some f ∧
        ∀ u, E.schema.composite? f.type.leaf = some u → Known E.schema u node.selections := by
  induction hr with
  | field hmem =>
    obtain ⟨p, hp, ha, hk⟩ := h.known _ hmem
    exact ⟨p, hp, ha, hk.field List.mem_cons_self⟩
  | @inline _ _ c _ _ _ hmem _ hmeets _ ih =>
    obtain ⟨p, hp, ha, hk⟩ := h.known _ hmem
    obtain ⟨hsame, hother⟩ := hk.inline List.mem_cons_self
    cases c with
    | none => exact ih (.of_known h.mem h.object hp ha (hsame rfl))
    | some m =>
      obtain ⟨u, hu, hcomposite, ha'⟩ := composite_of_meets hE h.mem h.object hmeets
      exact ih (.of_known h.mem h.object hu ha' (hother m u rfl hcomposite))
  | spread hmem _ hf hmeets _ ih =>
    obtain ⟨u, hu, hcomposite, ha'⟩ := composite_of_meets hE h.mem h.object hmeets
    exact ih (.of_known h.mem h.object hu ha' (hE.fragments _ _ hf u hcomposite))

theorem Stands.exists_field (hE : E.Fit) (h : Stands E t ss) (hr : Reaches E t ss node) :
    ∃ f, E.schema.fieldOf? t node.head.name = some f := by
  obtain ⟨p, hp, ha, f, hf, -⟩ := h.of_reaches hE hr
  obtain ⟨own, hown, -⟩ := Schema.field_of_isA hE.distinct hE.sound h.mem h.object hp ha hf
  exact ⟨own, hown⟩

theorem Stands.mem_keys_iff (hE : E.Fit) (h : Stands E t ss) (ha : Answers E t ss ms) :
    k ∈ ms.map Prod.fst ↔ ∃ node, node.key = k ∧ Reaches E t ss node := by
  obtain ⟨hcollects, hkeys, -, -⟩ := ha
  rw [Execution.mem_keys_iff hkeys]
  constructor
  · rintro ⟨f, hf⟩
    obtain ⟨node, hnode, hk, -⟩ := exists_of_asked hf
    exact ⟨node, hk, hcollects.mem_iff.1 hnode⟩
  · rintro ⟨node, rfl, hr⟩
    obtain ⟨first, hmem, hfirst⟩ := exists_first (hcollects.mem_iff.2 hr)
    obtain ⟨f, hf⟩ := h.exists_field hE (hcollects.mem_iff.1 hmem)
    exact ⟨f, by rw [asked?, hfirst, Option.bind_some, hf]⟩

/-- The fields with a key that have selections below them have the name of all others. -/
def Agree (k : String) (nodes : List FieldNode) : Prop :=
  ∀ node ∈ nodes, node.key = k → node.selections ≠ [] →
    ∀ other ∈ nodes, other.key = k → other.head.name = node.head.name

theorem Stands.below (hE : E.Fit) (h : Stands E t ss) (hc : Collects E t [] ss nodes seen)
    (hagree : Agree k nodes) {f : Field} (hf : E.asked? t k nodes = some f) {u t' : NamedType}
    (hu : E.schema.composite? f.type.leaf = some u) (ht' : t' ∈ E.schema.possibleTypes u) :
    Stands E t' (below k nodes) where
  mem := Schema.mem_of_mem_possibleTypes (Schema.mem_of_composite? hu) ht'
  object := Schema.isObject_of_mem_possibleTypes hE.sound (Schema.mem_of_composite? hu) ht'
  known sel hsel := by
    obtain ⟨node, hnode, hk, hsel⟩ := mem_below_iff.1 hsel
    obtain ⟨first, hfirst, hfirstk, -, hfirstf⟩ := exists_of_asked hf
    obtain ⟨p, hp, ha, g, hg, hknown⟩ := h.of_reaches hE (hc.mem_iff.1 hnode)
    obtain ⟨own, hown, hsub⟩ := Schema.field_of_isA hE.distinct hE.sound h.mem h.object hp ha hg
    rw [← hagree node hnode hk (List.ne_nil_of_mem hsel) first hfirst hfirstk, hfirstf] at hown
    obtain rfl := Option.some.inj hown
    obtain ⟨w, hw, ha'⟩ := Schema.isA_of_isSubtype hE.distinct hE.sound hsub hu ht'
    exact ⟨w, Schema.mem_of_composite? hw, ha', (hknown w hw).of_mem hsel⟩

/-- Fields that live at one place of a response have one name. -/
def Uniform (E : Execution) (ss : List Selection) : Prop :=
  ∀ types path node other, Lives E types path ss node → Lives E types path ss other →
    other.head.name = node.head.name

theorem Reaches.met (h : Reaches E t ss node) :
    ∃ b, Met E.fragments ss (.field node.head b node.selections) := by
  induction h with
  | @field _ _ _ b hmem _ => exact ⟨b, .here hmem⟩
  | inline hmem _ _ _ ih =>
    obtain ⟨b, hb⟩ := ih
    exact ⟨b, .inline hmem hb⟩
  | spread hmem _ hf _ _ ih =>
    obtain ⟨b, hb⟩ := ih
    exact ⟨b, .spread hmem hf hb⟩

theorem Met.trans {table : Table Fragment} {sel : Selection} {b : Option Origin}
    (h : Met table ss (.field node.head b node.selections)) (hsel : Met table node.selections sel) :
    Met table ss sel := by
  generalize hvia : Selection.field node.head b node.selections = via at h
  induction h with
  | here hmem =>
    subst hvia
    exact .field hmem hsel
  | field hmem _ ih => exact .field hmem (ih hvia)
  | inline hmem _ ih => exact .inline hmem (ih hvia)
  | spread hmem hf _ ih => exact .spread hmem hf (ih hvia)

theorem Lives.met {types : List NamedType} {path : List String} (h : Lives E types path ss node) :
    ∃ b, Met E.fragments ss (.field node.head b node.selections) := by
  induction h with
  | last hr => exact hr.met
  | step hr _ ih =>
    obtain ⟨b, hb⟩ := ih
    obtain ⟨b', hb'⟩ := hr.met
    exact ⟨b, hb'.trans hb⟩

theorem Lives.getLast?_path {types : List NamedType} {path : List String}
    (h : Lives E types path ss node) : path.getLast? = some node.key := by
  induction h with
  | last => rfl
  | step _ hl ih => rw [List.getLast?_cons_of_ne_nil hl.path_ne_nil, ih]

theorem uniform_of_unaliased
    (h : ∀ f b below, Met E.fragments ss (.field f b below) → f.aliasName = none) :
    Uniform E ss := by
  have hname : ∀ {types path node}, Lives E types path ss node →
      path.getLast? = some node.head.name := by
    intro types path node hl
    obtain ⟨b, hb⟩ := hl.met
    rw [hl.getLast?_path, FieldNode.key, FieldHead.key, h _ _ _ hb, Option.getD_none]
  intro types path node other hnode hother
  exact Option.some.inj ((hname hother).symm.trans (hname hnode))

theorem Uniform.agree (h : Uniform E ss) (hc : Collects E t [] ss nodes seen) : Agree k nodes := by
  intro node hnode hk _ other hother hk'
  refine h [t] [k] node other ?_ ?_
  · rw [← hk]
    exact .last (hc.mem_iff.1 hnode)
  · rw [← hk']
    exact .last (hc.mem_iff.1 hother)

theorem Uniform.below (h : Uniform E ss) (hc : Collects E t [] ss nodes seen) :
    Uniform E (below k nodes) := by
  intro types path node other hnode hother
  have hiff : ∀ m, Lives E types path (Execution.below k nodes) m ↔
      Lives E (t :: types) (k :: path) ss m := fun _ =>
    lives_below_iff_of_collects hc hnode.path_ne_nil
  exact h _ _ node other ((hiff node).1 hnode) ((hiff other).1 hother)

/-- Each object in a response stands on its selections. -/
theorem Stands.of_holds (hE : E.Fit) {a c : Answer} {types : List NamedType} {path : List String}
    (hholds : a.Holds types path c) (ha : Answers E a.1 ss a.2) (h : Stands E a.1 ss)
    (huniform : Uniform E ss) :
    ∃ ss', Answers E c.1 ss' c.2 ∧ Stands E c.1 ss' ∧ ∀ node,
      Reaches E c.1 ss' node ↔ Lives E (types ++ [c.1]) (path ++ [node.key]) ss node := by
  induction hholds generalizing ss with
  | here => exact ⟨ss, ha, h, fun node => by simp [lives_singleton_iff]⟩
  | @inside a b c k v types path hmem hb _ ih =>
    obtain ⟨hcollects, hkeys, hvalues, -⟩ := ha
    obtain ⟨f, hf⟩ := (Execution.mem_keys_iff hkeys).1 (List.mem_map_of_mem hmem)
    obtain ⟨u, hu, ht', hb'⟩ := Completes.answers_of_mem_outer v (hvalues k v f hmem hf) hb
    obtain ⟨ss', hc, hstands, hreach⟩ := ih hb'
      (h.below hE hcollects (huniform.agree hcollects) hf hu ht') (huniform.below hcollects)
    refine ⟨ss', hc, hstands, fun node => ?_⟩
    rw [hreach node, List.cons_append, List.cons_append,
      lives_below_iff_of_collects hcollects (by simp)]

end Execution
end QueryTypes
