import Mathlib.Logic.Relation
import QueryTypes.Proofs.Document.Inserted
import QueryTypes.Proofs.Document.Uses
import QueryTypes.Proofs.Execution.Collect
import QueryTypes.Proofs.Validation.Known

/-!
# Keys of the object that an operation starts from

The names of types are not put in front of the block of an operation, but an executor that collects
fields there enters other blocks too: those of inline fragments and fragments whose conditions hold.
The name of the type that is put in front of one of these is a field of the same object.
-/

namespace QueryTypes

open Selection (addTypenames addTypenames_eq_map addTypenames_withTypename lacksTypename
  lacksTypename_addTypenames mem_withTypename_iff)

def FieldNode.addTypename (n : FieldNode) : FieldNode :=
  ⟨n.head, withTypename (addTypenames n.selections)⟩

/-- The field that is put in. -/
def typenameNode : FieldNode := ⟨⟨none, "__typename", [], [], none⟩, []⟩

namespace Execution

variable {E : Execution} {t : NamedType} {seen seen' : List String}
  {ss ss' below block : List Selection} {node : FieldNode}

/-! ### Fields are always collected -/

theorem exists_collects_of_unseen (n : Nat) (ss : List Selection) (seen : List String)
    (h : E.fragments.unseen seen ≤ n) : ∃ nodes seen', Collects E t seen ss nodes seen' := by
  cases ss with
  | nil => exact ⟨[], seen, .nil⟩
  | cons sel rest =>
    have hless : Selection.weights rest < Selection.weights (sel :: rest) := by
      cases sel <;> simp only [Selection.weights, Selection.weight] <;> omega
    have hrest : ∀ seen', (∀ m ∈ seen, m ∈ seen') →
        ∃ nodes seen'', Collects E t seen' rest nodes seen'' :=
      fun seen' hsub => exists_collects_of_unseen n rest seen' ((Table.unseen_mono hsub).trans h)
    obtain ⟨nodes, seen', hsame⟩ := hrest seen fun _ hm => hm
    cases hd : E.admits sel.directives with
    | false => exact ⟨nodes, seen', .excluded hd hsame⟩
    | true =>
      cases sel with
      | field head b below => exact ⟨_, seen', .field hd hsame⟩
      | inline c ds below o =>
        have hbelow : Selection.weights below < Selection.weights (.inline c ds below o :: rest) := by
          simp only [Selection.weights, Selection.weight]
          omega
        cases hc : E.meets t (c.map Name.text) with
        | false => exact ⟨nodes, seen', .inlineUnmet hd hc hsame⟩
        | true =>
          obtain ⟨inner, seen₁, hinner⟩ := exists_collects_of_unseen n below seen h
          obtain ⟨nodes, seen₂, hlater⟩ := hrest seen₁ hinner.seen_subset
          exact ⟨_, seen₂, .inline hd hc hinner hlater⟩
      | spread name ds o =>
        by_cases hname : name.text ∈ seen
        · exact ⟨nodes, seen', .spreadSeen hd hname hsame⟩
        obtain ⟨nodes, seen', hskip⟩ := hrest (name.text :: seen) fun _ => List.mem_cons_of_mem _
        cases hf : E.fragments.get? name.text with
        | none => exact ⟨nodes, seen', .spreadUnknown hd hname hf hskip⟩
        | some f =>
          cases hc : E.meets t (some f.condition.text) with
          | false => exact ⟨nodes, seen', .spreadUnmet hd hname hf hc hskip⟩
          | true =>
            have hfewer := Table.unseen_cons_lt hf hname
            have hn : n - 1 < n := by omega
            obtain ⟨inner, seen₁, hinner⟩ :=
              exists_collects_of_unseen (n - 1) f.selections (name.text :: seen) (by omega)
            obtain ⟨nodes, seen₂, hlater⟩ :=
              hrest seen₁ fun m hm => hinner.seen_subset m (List.mem_cons_of_mem _ hm)
            exact ⟨_, seen₂, .spread hd hname hf hc hinner hlater⟩
-- a fragment that is entered leaves fewer that are unseen, and everything else has smaller selections
termination_by (n, Selection.weights ss)

/-- Whatever fragments spread each other, an executor comes to an end. -/
theorem exists_collects (E : Execution) (t : NamedType) (ss : List Selection) (seen : List String) :
    ∃ nodes seen', Collects E t seen ss nodes seen' :=
  exists_collects_of_unseen _ ss seen le_rfl

/-! ### Blocks that are entered -/

/-- A fragment stands in the selections that has the block and whose condition holds. -/
inductive Follows (E : Execution) (t : NamedType) : List Selection → List Selection → Prop
  | inline {ss below : List Selection} {c : Option Name} {ds : List Directive}
      {o : Option Origin} :
      .inline c ds below o ∈ ss → E.admits ds = true → E.meets t (c.map Name.text) = true →
        Follows E t ss below
  | spread {ss : List Selection} {n : Name} {ds : List Directive} {o : Option Origin}
      {f : Fragment} :
      .spread n ds o ∈ ss → E.admits ds = true → E.fragments.get? n.text = some f →
        E.meets t (some f.condition.text) = true → Follows E t ss f.selections

/-- The block is collected for the object that the selections are collected for. -/
def Enters (E : Execution) (t : NamedType) : List Selection → List Selection → Prop :=
  Relation.TransGen (E.Follows t)

/-- A block that does not ask for the name of the type is collected for the same object. -/
def EntersUnnamed (E : Execution) (t : NamedType) (ss : List Selection) : Prop :=
  ∃ block, E.Enters t ss block ∧ lacksTypename block = true

theorem Follows.reaches (h : E.Follows t ss below) (hr : Reaches E t below node) :
    Reaches E t ss node := by
  cases h with
  | inline hmem hd hc => exact .inline hmem hd hc hr
  | spread hmem hd hf hc => exact .spread hmem hd hf hc hr

theorem reaches_iff : Reaches E t ss node ↔
    (∃ head b below, .field head b below ∈ ss ∧ E.admits head.directives = true ∧
      node = ⟨head, below⟩) ∨ ∃ below, E.Follows t ss below ∧ Reaches E t below node := by
  constructor
  · intro h
    cases h with
    | field hmem hd => exact .inl ⟨_, _, _, hmem, hd, rfl⟩
    | inline hmem hd hc hr => exact .inr ⟨_, .inline hmem hd hc, hr⟩
    | spread hmem hd hf hc hr => exact .inr ⟨_, .spread hmem hd hf hc, hr⟩
  · rintro (⟨head, b, below, hmem, hd, rfl⟩ | ⟨below, hfollows, hr⟩)
    · exact .field hmem hd
    · exact hfollows.reaches hr

theorem Follows.of_withTypename (h : E.Follows t (withTypename ss) block) :
    E.Follows t ss block := by
  cases h with
  | inline hmem hd hc =>
    rcases mem_withTypename_iff.1 hmem with ⟨-, heq⟩ | hmem
    · exact absurd heq (by simp [typenameField])
    · exact .inline hmem hd hc
  | spread hmem hd hf hc =>
    rcases mem_withTypename_iff.1 hmem with ⟨-, heq⟩ | hmem
    · exact absurd heq (by simp [typenameField])
    · exact .spread hmem hd hf hc

theorem Reaches.of_withTypename (h : Reaches E t (withTypename ss) node) :
    lacksTypename ss = true ∧ node = typenameNode ∨ Reaches E t ss node := by
  rcases reaches_iff.1 h with ⟨head, b, below, hmem, hd, rfl⟩ | ⟨below, hfollows, hr⟩
  · rcases mem_withTypename_iff.1 hmem with ⟨hlacks, heq⟩ | hmem
    · obtain ⟨rfl, -, rfl⟩ := Selection.field.inj heq
      exact .inl ⟨hlacks, rfl⟩
    · exact .inr (.field hmem hd)
  · exact .inr (hfollows.of_withTypename.reaches hr)

theorem EntersUnnamed.of_follows (h : E.Follows t ss below)
    (hbelow : lacksTypename below = true ∨ E.EntersUnnamed t below) : E.EntersUnnamed t ss := by
  rcases hbelow with hlacks | ⟨block, henters, hlacks⟩
  · exact ⟨below, .single h, hlacks⟩
  · exact ⟨block, .head h henters, hlacks⟩

theorem EntersUnnamed.of_withTypename (h : E.EntersUnnamed t (withTypename ss)) :
    E.EntersUnnamed t ss := by
  obtain ⟨block, henters, hlacks⟩ := h
  obtain ⟨below, hfollows, hrest⟩ := Relation.TransGen.head'_iff.1 henters
  exact ⟨block, .head' hfollows.of_withTypename hrest, hlacks⟩

/-! ### The same selections with the names of types -/

/-- The same execution with the names of types in all fragments. -/
def named (E : Execution) : Execution :=
  { E with fragments := E.fragments.map (Prod.map id Fragment.addTypename) }

theorem get?_named (E : Execution) (n : String) :
    E.named.fragments.get? n = (E.fragments.get? n).map Fragment.addTypename :=
  Table.get?_map Fragment.addTypename n E.fragments

theorem mem_addTypenames {sel : Selection} (h : sel ∈ ss) : sel.addTypename ∈ addTypenames ss := by
  rw [addTypenames_eq_map]
  exact List.mem_map_of_mem h

theorem exists_of_mem_addTypenames {sel : Selection} (h : sel ∈ addTypenames ss) :
    ∃ sel' ∈ ss, sel'.addTypename = sel := by
  rw [addTypenames_eq_map] at h
  exact List.mem_map.1 h

theorem Follows.named (h : E.Follows t ss below) :
    E.named.Follows t (addTypenames ss) (withTypename (addTypenames below)) := by
  cases h with
  | inline hmem hd hc => exact .inline (mem_addTypenames hmem) hd hc
  | @spread n ds o f hmem hd hf hc =>
    have hf' : E.named.fragments.get? n.text = some f.addTypename := by
      rw [get?_named, hf, Option.map_some]
    exact .spread (f := f.addTypename) (mem_addTypenames hmem) hd hf' hc

theorem exists_follows_of_named (h : E.named.Follows t (addTypenames ss) block) :
    ∃ below, E.Follows t ss below ∧ block = withTypename (addTypenames below) := by
  cases h with
  | inline hmem hd hc =>
    obtain ⟨sel, hsel, heq⟩ := exists_of_mem_addTypenames hmem
    cases sel with
    | inline c ds below o =>
      obtain ⟨rfl, rfl, rfl, rfl⟩ := Selection.inline.inj heq
      exact ⟨below, .inline hsel hd hc, rfl⟩
    | field | spread => simp [Selection.addTypename] at heq
  | spread hmem hd hf hc =>
    obtain ⟨sel, hsel, heq⟩ := exists_of_mem_addTypenames hmem
    rw [get?_named, Option.map_eq_some_iff] at hf
    obtain ⟨f, hf, rfl⟩ := hf
    cases sel with
    | spread n ds o =>
      obtain ⟨rfl, rfl, rfl⟩ := Selection.spread.inj heq
      exact ⟨f.selections, .spread hsel hd hf hc, rfl⟩
    | field | inline => simp [Selection.addTypename] at heq

/-! ### What is collected then -/

/-- A field that is collected before, or the name of the type from a block that did not ask for it. -/
def FromNamed (E : Execution) (t : NamedType) (ss : List Selection) (node : FieldNode) : Prop :=
  (∃ before, Reaches E t ss before ∧ node = before.addTypename) ∨
    node = typenameNode ∧ E.EntersUnnamed t ss

theorem FromNamed.of_follows (h : E.Follows t ss below)
    (hbelow : FromNamed E t (withTypename below) node) : FromNamed E t ss node := by
  rcases hbelow with ⟨before, hr, rfl⟩ | ⟨rfl, henters⟩
  · rcases hr.of_withTypename with ⟨hlacks, rfl⟩ | hr
    · exact .inr ⟨rfl, .of_follows h (.inl hlacks)⟩
    · exact .inl ⟨before, h.reaches hr, rfl⟩
  · exact .inr ⟨rfl, .of_follows h (.inr henters.of_withTypename)⟩

theorem fromNamed_of_reaches (h : Reaches E.named t ss' node)
    (hss : ss' = addTypenames ss) : FromNamed E t ss node := by
  -- a block that the field was put in front of comes from the block with the field in front itself,
  -- so that the induction goes on below it
  induction h generalizing ss with
  | field hmem hd =>
    subst hss
    obtain ⟨sel, hsel, heq⟩ := exists_of_mem_addTypenames hmem
    cases sel with
    | field head b below =>
      obtain ⟨rfl, rfl, rfl⟩ := Selection.field.inj heq
      exact .inl ⟨⟨head, below⟩, .field hsel hd, rfl⟩
    | spread | inline => simp [Selection.addTypename] at heq
  | inline hmem hd hc _ ih =>
    subst hss
    obtain ⟨below, hfollows, rfl⟩ := exists_follows_of_named (.inline hmem hd hc)
    exact .of_follows hfollows (ih (addTypenames_withTypename below).symm)
  | spread hmem hd hf hc _ ih =>
    subst hss
    obtain ⟨below, hfollows, hbelow⟩ := exists_follows_of_named (.spread hmem hd hf hc)
    exact .of_follows hfollows (ih (hbelow.trans (addTypenames_withTypename below).symm))

theorem Follows.reaches_named (h : E.Follows t ss below)
    (hr : Reaches E.named t (addTypenames below) node) :
    Reaches E.named t (addTypenames ss) node :=
  h.named.reaches (hr.mono fun _ hmem => mem_withTypename_iff.2 (.inr hmem))

theorem Reaches.named (h : Reaches E t ss node) :
    Reaches E.named t (addTypenames ss) node.addTypename := by
  induction h with
  | field hmem hd => exact .field (mem_addTypenames hmem) hd
  | inline hmem hd hc _ ih => exact Follows.reaches_named (.inline hmem hd hc) ih
  | spread hmem hd hf hc _ ih => exact Follows.reaches_named (.spread hmem hd hf hc) ih

theorem EntersUnnamed.named (h : E.EntersUnnamed t ss) :
    Reaches E.named t (addTypenames ss) typenameNode := by
  obtain ⟨block, henters, hlacks⟩ := h
  induction henters using Relation.TransGen.head_induction_on with
  | single hfollows =>
    refine hfollows.named.reaches (.field (mem_withTypename_iff.2 (.inl ⟨?_, rfl⟩)) rfl)
    rw [lacksTypename_addTypenames, hlacks]
  | head hfollows _ ih => exact hfollows.reaches_named ih

theorem reaches_named_iff :
    Reaches E.named t (addTypenames ss) node ↔ FromNamed E t ss node := by
  constructor
  · exact fun h => fromNamed_of_reaches h rfl
  · rintro (⟨before, hr, rfl⟩ | ⟨rfl, henters⟩)
    · exact hr.named
    · exact henters.named

/-! ### Keys -/

theorem Collects.mem_keys_iff {nodes : List FieldNode} (h : Collects E t [] ss nodes seen)
    {k : String} : k ∈ nodes.map FieldNode.key ↔ ∃ node, Reaches E t ss node ∧ node.key = k := by
  rw [List.mem_map]
  exact exists_congr fun node => and_congr_left fun _ => h.mem_iff

theorem exists_fromNamed_iff {k : String} : (∃ node, FromNamed E t ss node ∧ node.key = k) ↔
    (∃ node, Reaches E t ss node ∧ node.key = k) ∨ k = "__typename" ∧ E.EntersUnnamed t ss := by
  constructor
  · rintro ⟨node, ⟨before, hr, rfl⟩ | ⟨rfl, henters⟩, rfl⟩
    · exact .inl ⟨before, hr, rfl⟩
    · exact .inr ⟨rfl, henters⟩
  · rintro (⟨before, hr, rfl⟩ | ⟨rfl, henters⟩)
    · exact ⟨before.addTypename, .inl ⟨before, hr, rfl⟩, rfl⟩
    · exact ⟨typenameNode, .inr ⟨rfl, henters⟩, rfl⟩

theorem named_fragmentTable (s : Schema) (d : Document) (values : String → Bool) :
    (⟨s, d.addTypename.fragmentTable, values⟩ : Execution) =
      named ⟨s, d.fragmentTable, values⟩ := by
  rw [named, fragmentTable_addTypename]

/-- What the names of types do to the object that an operation starts from. Its fields are always
collected, before and after. It gets the key `__typename` from every block without the field that is
entered there, and no other key. So its keys stay the same exactly if it has this key before or no
such block is entered; and one key stays the only one under the same condition. -/
theorem root_keys_addTypename (s : Schema) (d : Document) (values : String → Bool) (o : Operation)
    (t : NamedType) :
    let E : Execution := ⟨s, d.fragmentTable, values⟩
    let E' : Execution := ⟨s, d.addTypename.fragmentTable, values⟩
    (∃ nodes seen, Collects E t [] o.selections nodes seen) ∧
    (∃ nodes seen, Collects E' t [] o.addTypename.selections nodes seen) ∧
    ∀ nodes seen nodes' seen', Collects E t [] o.selections nodes seen →
      Collects E' t [] o.addTypename.selections nodes' seen' →
      (∀ k, k ∈ nodes'.map FieldNode.key ↔
        k ∈ nodes.map FieldNode.key ∨ k = "__typename" ∧ E.EntersUnnamed t o.selections) ∧
      ((∀ k, k ∈ nodes'.map FieldNode.key ↔ k ∈ nodes.map FieldNode.key) ↔
        (E.EntersUnnamed t o.selections → "__typename" ∈ nodes.map FieldNode.key)) ∧
      ∀ key, (∀ k, k ∈ nodes.map FieldNode.key ↔ k = key) →
        ((∀ k, k ∈ nodes'.map FieldNode.key ↔ k = key) ↔
          (E.EntersUnnamed t o.selections → key = "__typename")) := by
  intro E E'
  refine ⟨exists_collects E t _ [], exists_collects E' t _ [],
    fun nodes seen nodes' seen' hnodes hnodes' => ?_⟩
  have hkeys : ∀ k, k ∈ nodes'.map FieldNode.key ↔
      k ∈ nodes.map FieldNode.key ∨ k = "__typename" ∧ E.EntersUnnamed t o.selections := by
    intro k
    have hafter : Collects E.named t [] (addTypenames o.selections) nodes' seen' := by
      rw [← named_fragmentTable]
      exact hnodes'
    simp only [hafter.mem_keys_iff, hnodes.mem_keys_iff, reaches_named_iff, exists_fromNamed_iff]
  have hsame : (∀ k, k ∈ nodes'.map FieldNode.key ↔ k ∈ nodes.map FieldNode.key) ↔
      (E.EntersUnnamed t o.selections → "__typename" ∈ nodes.map FieldNode.key) := by
    constructor
    · intro h henters
      exact (h _).1 ((hkeys _).2 (.inr ⟨rfl, henters⟩))
    · intro h k
      rw [hkeys, or_iff_left_iff_imp]
      rintro ⟨rfl, henters⟩
      exact h henters
  refine ⟨hkeys, hsame, fun key hkey => ?_⟩
  simp only [hkey] at hsame
  exact hsame.trans (forall_congr' fun _ => eq_comm)

open ShapeContext (plainType plainField onType)

/-- A subscription that selects its only field inside a fragment. -/
def tickSchema : Schema :=
  ⟨[plainType "Query" [("tick", "String")], plainType "Subscription" [("tick", "String")],
    ⟨"String", none, .scalar⟩], some "Query", none, some "Subscription", []⟩

def tickOperation : Operation :=
  ⟨.subscription, some ⟨"S", none⟩, [], [], [onType "Subscription" [plainField "tick" []]], none⟩

def tickFile : ClientFile := ⟨["s.graphql"], [.operation tickOperation], []⟩

def tickDocument : Document := ClientFiles.document [tickFile]

/-- The subscription is valid and selects one field; then it selects two, which is not valid. -/
theorem root_keys_addTypename_tick :
    ClientFiles.validity (some tickSchema) [tickFile] = .ok () ∧
    (∃ nodes seen, Collects ⟨tickSchema, tickDocument.fragmentTable, fun _ => true⟩
        (plainType "Subscription" [("tick", "String")]) [] tickOperation.selections nodes seen ∧
      ∃ nodes' seen',
        Collects ⟨tickSchema, tickDocument.addTypename.fragmentTable, fun _ => true⟩
          (plainType "Subscription" [("tick", "String")]) [] tickOperation.addTypename.selections
          nodes' seen' ∧
        (∀ k, k ∈ nodes.map FieldNode.key ↔ k = "tick") ∧
        (∀ k, k ∈ nodes'.map FieldNode.key ↔ k = "tick" ∨ k = "__typename") ∧
        ¬ ∀ k, k ∈ nodes'.map FieldNode.key ↔ k = "tick") ∧
    (Validation.subscriptionComplaints tickSchema tickDocument.fragmentTable
      tickOperation).toOption.map List.length = some 0 ∧
    (Validation.subscriptionComplaints tickSchema tickDocument.addTypename.fragmentTable
      tickOperation.addTypename).toOption.map List.length = some 2 := by
  refine ⟨Validation.validity_of_findings rfl (by decide +kernel) (by decide +kernel), ?_,
    by decide +kernel, by decide +kernel⟩
  have hbefore : Collects ⟨tickSchema, tickDocument.fragmentTable, fun _ => true⟩
      (plainType "Subscription" [("tick", "String")]) [] tickOperation.selections
      [⟨⟨none, "tick", [], [], none⟩, []⟩] [] :=
    .inline rfl rfl (.field rfl .nil) .nil
  have hafter : Collects ⟨tickSchema, tickDocument.addTypename.fragmentTable, fun _ => true⟩
      (plainType "Subscription" [("tick", "String")]) [] tickOperation.addTypename.selections
      [typenameNode, ⟨⟨none, "tick", [], [], none⟩, []⟩] [] :=
    .inline rfl rfl (.field rfl (.field rfl .nil)) .nil
  obtain ⟨-, -, hall⟩ := root_keys_addTypename tickSchema tickDocument (fun _ => true)
    tickOperation (plainType "Subscription" [("tick", "String")])
  obtain ⟨hkeys, -, honly⟩ := hall _ _ _ _ hbefore hafter
  have hone : ∀ k, k ∈ [(⟨⟨none, "tick", [], [], none⟩, []⟩ : FieldNode)].map FieldNode.key ↔
      k = "tick" := fun k => List.mem_singleton
  have henters : EntersUnnamed ⟨tickSchema, tickDocument.fragmentTable, fun _ => true⟩
      (plainType "Subscription" [("tick", "String")]) tickOperation.selections :=
    ⟨[plainField "tick" []], .single (.inline List.mem_cons_self rfl rfl), rfl⟩
  refine ⟨_, _, hbefore, _, _, hafter, hone, fun k => ?_, fun h => ?_⟩
  · rw [hkeys, hone]
    exact or_congr_right (and_iff_left henters)
  · exact absurd ((honly "tick" hone).1 h henters) (by decide)

end Execution
end QueryTypes
