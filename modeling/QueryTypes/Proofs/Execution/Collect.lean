import QueryTypes.Document.Reach
import QueryTypes.Proofs.Schema.Types

/-!
# Fields that an object is asked for

An executor goes through selections in reading order and follows every fragment once. It finds the
fields that some way through inline fragments and fragments leads to, on which every condition
holds for the type of the object.
-/

namespace QueryTypes

/-- Whether the condition of a `@skip` or `@include` holds for the values of variables. -/
def Directive.holds (values : String → Bool) (d : Directive) : Bool :=
  match (d.arguments.find? (·.name.text == "if")).map Argument.value with
  | some (.boolean b _) => b
  | some (.ref n _) => values n
  | _ => false

def Directive.admits (values : String → Bool) (d : Directive) : Bool :=
  if d.name = "skip" then !d.holds values
  else if d.name = "include" then d.holds values
  else true

def Selection.directives : Selection → List Directive
  | .field h _ _ => h.directives
  | .spread _ ds _ => ds
  | .inline _ ds _ _ => ds

/-- A field with the selections below it. -/
structure FieldNode where
  head : FieldHead
  selections : List Selection

def FieldNode.key (n : FieldNode) : String := n.head.key

/-- What an executor works with. -/
structure Execution where
  schema : Schema
  fragments : Table Fragment
  values : String → Bool

namespace Execution

def admits (E : Execution) (ds : List Directive) : Bool := ds.all (Directive.admits E.values)

/-- Whether an object of a type meets a condition. -/
def meets (E : Execution) (t : NamedType) : Option String → Bool
  | none => true
  | some n => (E.schema.type? n).any fun u => E.schema.isA t u

/-- The fields for an object of a type, in reading order. Fragments that were seen contribute
nothing more. -/
inductive Collects (E : Execution) (t : NamedType) :
    List String → List Selection → List FieldNode → List String → Prop
  | nil {seen : List String} : Collects E t seen [] [] seen
  | excluded {seen seen' : List String} {sel : Selection} {rest : List Selection}
      {nodes : List FieldNode} :
      E.admits sel.directives = false → Collects E t seen rest nodes seen' →
        Collects E t seen (sel :: rest) nodes seen'
  | field {seen seen' : List String} {h : FieldHead} {b : Option Origin}
      {ss rest : List Selection} {nodes : List FieldNode} :
      E.admits h.directives = true → Collects E t seen rest nodes seen' →
        Collects E t seen (.field h b ss :: rest) (⟨h, ss⟩ :: nodes) seen'
  | inline {seen seen' seen'' : List String} {c : Option Name} {ds : List Directive}
      {ss rest : List Selection} {o : Option Origin} {inner nodes : List FieldNode} :
      E.admits ds = true → E.meets t (c.map Name.text) = true → Collects E t seen ss inner seen' →
        Collects E t seen' rest nodes seen'' →
        Collects E t seen (.inline c ds ss o :: rest) (inner ++ nodes) seen''
  | inlineUnmet {seen seen' : List String} {c : Option Name} {ds : List Directive}
      {ss rest : List Selection} {o : Option Origin} {nodes : List FieldNode} :
      E.admits ds = true → E.meets t (c.map Name.text) = false →
      Collects E t seen rest nodes seen' →
        Collects E t seen (.inline c ds ss o :: rest) nodes seen'
  | spreadSeen {seen seen' : List String} {n : Name} {ds : List Directive} {o : Option Origin}
      {rest : List Selection} {nodes : List FieldNode} :
      E.admits ds = true → n.text ∈ seen → Collects E t seen rest nodes seen' →
        Collects E t seen (.spread n ds o :: rest) nodes seen'
  | spreadUnknown {seen seen' : List String} {n : Name} {ds : List Directive} {o : Option Origin}
      {rest : List Selection} {nodes : List FieldNode} :
      E.admits ds = true → n.text ∉ seen → E.fragments.get? n.text = none →
        Collects E t (n.text :: seen) rest nodes seen' →
        Collects E t seen (.spread n ds o :: rest) nodes seen'
  | spreadUnmet {seen seen' : List String} {n : Name} {ds : List Directive} {o : Option Origin}
      {rest : List Selection} {nodes : List FieldNode} {f : Fragment} :
      E.admits ds = true → n.text ∉ seen → E.fragments.get? n.text = some f →
        E.meets t (some f.condition.text) = false → Collects E t (n.text :: seen) rest nodes seen' →
        Collects E t seen (.spread n ds o :: rest) nodes seen'
  | spread {seen seen' seen'' : List String} {n : Name} {ds : List Directive} {o : Option Origin}
      {rest : List Selection} {inner nodes : List FieldNode} {f : Fragment} :
      E.admits ds = true → n.text ∉ seen → E.fragments.get? n.text = some f →
        E.meets t (some f.condition.text) = true →
        Collects E t (n.text :: seen) f.selections inner seen' →
        Collects E t seen' rest nodes seen'' →
        Collects E t seen (.spread n ds o :: rest) (inner ++ nodes) seen''

/-- A way from selections to a field on which every condition holds for objects of a type. -/
inductive Reaches (E : Execution) (t : NamedType) : List Selection → FieldNode → Prop
  | field {ss below : List Selection} {h : FieldHead} {b : Option Origin} :
      .field h b below ∈ ss → E.admits h.directives = true → Reaches E t ss ⟨h, below⟩
  | inline {ss below : List Selection} {c : Option Name} {ds : List Directive}
      {o : Option Origin} {node : FieldNode} :
      .inline c ds below o ∈ ss → E.admits ds = true → E.meets t (c.map Name.text) = true →
        Reaches E t below node → Reaches E t ss node
  | spread {ss : List Selection} {n : Name} {ds : List Directive} {o : Option Origin}
      {f : Fragment} {node : FieldNode} :
      .spread n ds o ∈ ss → E.admits ds = true → E.fragments.get? n.text = some f →
        E.meets t (some f.condition.text) = true → Reaches E t f.selections node →
        Reaches E t ss node

/-- The same for ways that enter no fragment inside itself, and none of the given ones. -/
inductive ReachesApart (E : Execution) (t : NamedType) :
    List String → List Selection → FieldNode → Prop
  | field {avoid : List String} {ss below : List Selection} {h : FieldHead} {b : Option Origin} :
      .field h b below ∈ ss → E.admits h.directives = true → ReachesApart E t avoid ss ⟨h, below⟩
  | inline {avoid : List String} {ss below : List Selection} {c : Option Name}
      {ds : List Directive} {o : Option Origin} {node : FieldNode} :
      .inline c ds below o ∈ ss → E.admits ds = true → E.meets t (c.map Name.text) = true →
        ReachesApart E t avoid below node → ReachesApart E t avoid ss node
  | spread {avoid : List String} {ss : List Selection} {n : Name} {ds : List Directive}
      {o : Option Origin} {f : Fragment} {node : FieldNode} :
      .spread n ds o ∈ ss → E.admits ds = true → n.text ∉ avoid →
        E.fragments.get? n.text = some f → E.meets t (some f.condition.text) = true →
        ReachesApart E t (n.text :: avoid) f.selections node → ReachesApart E t avoid ss node

variable {E : Execution} {t : NamedType} {seen seen' avoid avoid' : List String}
  {ss ss' : List Selection} {nodes : List FieldNode} {node : FieldNode}

theorem Reaches.mono (h : Reaches E t ss node) (hss : ∀ sel ∈ ss, sel ∈ ss') :
    Reaches E t ss' node := by
  cases h with
  | field hmem hd => exact .field (hss _ hmem) hd
  | inline hmem hd hc hr => exact .inline (hss _ hmem) hd hc hr
  | spread hmem hd hf hc hr => exact .spread (hss _ hmem) hd hf hc hr

theorem ReachesApart.mono (h : ReachesApart E t avoid ss node) (hss : ∀ sel ∈ ss, sel ∈ ss') :
    ReachesApart E t avoid ss' node := by
  cases h with
  | field hmem hd => exact .field (hss _ hmem) hd
  | inline hmem hd hc hr => exact .inline (hss _ hmem) hd hc hr
  | spread hmem hd hn hf hc hr => exact .spread (hss _ hmem) hd hn hf hc hr

theorem ReachesApart.anti (h : ReachesApart E t avoid ss node)
    (ha : ∀ n ∈ avoid', n ∈ avoid) : ReachesApart E t avoid' ss node := by
  induction h generalizing avoid' with
  | field hmem hd => exact .field hmem hd
  | inline hmem hd hc _ ih => exact .inline hmem hd hc (ih ha)
  | spread hmem hd hn hf hc _ ih =>
    refine .spread hmem hd (fun h => hn (ha _ h)) hf hc (ih ?_)
    intro m hm
    rcases List.mem_cons.1 hm with rfl | hm
    · exact List.mem_cons_self
    · exact List.mem_cons_of_mem _ (ha m hm)

theorem ReachesApart.reaches (h : ReachesApart E t avoid ss node) : Reaches E t ss node := by
  induction h with
  | field hmem hd => exact .field hmem hd
  | inline hmem hd hc _ ih => exact .inline hmem hd hc ih
  | spread hmem hd _ hf hc _ ih => exact .spread hmem hd hf hc ih

theorem Collects.seen_subset (h : Collects E t seen ss nodes seen') : ∀ n ∈ seen, n ∈ seen' := by
  induction h with
  | nil => exact fun _ hn => hn
  | excluded _ _ ih => exact ih
  | field _ _ ih => exact ih
  | inline _ _ _ _ ih ih' => exact fun n hn => ih' n (ih n hn)
  | inlineUnmet _ _ _ ih => exact ih
  | spreadSeen _ _ _ ih => exact ih
  | spreadUnknown _ _ _ _ ih => exact fun n hn => ih n (List.mem_cons_of_mem _ hn)
  | spreadUnmet _ _ _ _ _ ih => exact fun n hn => ih n (List.mem_cons_of_mem _ hn)
  | spread _ _ _ _ _ _ ih ih' => exact fun n hn => ih' n (ih n (List.mem_cons_of_mem _ hn))

theorem Collects.reachesApart (h : Collects E t seen ss nodes seen') (hnode : node ∈ nodes) :
    ReachesApart E t seen ss node := by
  have later : ∀ {avoid : List String} {sel : Selection} {rest : List Selection},
      ReachesApart E t avoid rest node → ReachesApart E t avoid (sel :: rest) node :=
    fun h => h.mono fun _ hmem => List.mem_cons_of_mem _ hmem
  induction h with
  | nil => simp at hnode
  | excluded _ _ ih => exact later (ih hnode)
  | field hd _ ih =>
    rcases List.mem_cons.1 hnode with rfl | hnode
    · exact .field List.mem_cons_self hd
    · exact later (ih hnode)
  | inline hd hc hinner _ ih ih' =>
    rcases List.mem_append.1 hnode with hnode | hnode
    · exact .inline List.mem_cons_self hd hc (ih hnode)
    · exact later ((ih' hnode).anti hinner.seen_subset)
  | inlineUnmet _ _ _ ih => exact later (ih hnode)
  | spreadSeen _ _ _ ih => exact later (ih hnode)
  | spreadUnknown _ _ _ _ ih =>
    exact later ((ih hnode).anti fun _ hn => List.mem_cons_of_mem _ hn)
  | spreadUnmet _ _ _ _ _ ih =>
    exact later ((ih hnode).anti fun _ hn => List.mem_cons_of_mem _ hn)
  | spread hd hn hf hc hinner _ ih ih' =>
    rcases List.mem_append.1 hnode with hnode | hnode
    · exact .spread List.mem_cons_self hd hn hf hc (ih hnode)
    · exact later ((ih' hnode).anti fun m hm =>
        hinner.seen_subset m (List.mem_cons_of_mem _ hm))

/-- What stands in selections or in inline fragments among them whose conditions hold. -/
inductive Direct (E : Execution) (t : NamedType) : List Selection → Selection → Prop
  | here {ss : List Selection} {sel : Selection} :
      sel ∈ ss → E.admits sel.directives = true → Direct E t ss sel
  | inside {ss below : List Selection} {c : Option Name} {ds : List Directive}
      {o : Option Origin} {sel : Selection} :
      .inline c ds below o ∈ ss → E.admits ds = true → E.meets t (c.map Name.text) = true →
        Direct E t below sel → Direct E t ss sel

/-- Fields are collected and fragments seen. -/
def Done (nodes : List FieldNode) (seen : List String) : Selection → Prop
  | .field h _ below => ⟨h, below⟩ ∈ nodes
  | .spread n _ _ => n.text ∈ seen
  | .inline .. => True

theorem Done.mono {nodes' : List FieldNode} {sel : Selection} (h : Done nodes seen sel)
    (hnodes : ∀ n ∈ nodes, n ∈ nodes') (hseen : ∀ n ∈ seen, n ∈ seen') : Done nodes' seen' sel := by
  cases sel with
  | field h' b below => exact hnodes _ h
  | spread n ds o => exact hseen _ h
  | inline c ds below o => trivial

theorem direct_cons_iff {sel sel' : Selection} {rest : List Selection} :
    Direct E t (sel :: rest) sel' ↔ Direct E t [sel] sel' ∨ Direct E t rest sel' := by
  constructor
  · intro h
    cases h with
    | here hmem hd =>
      rcases List.mem_cons.1 hmem with rfl | hmem
      · exact .inl (.here List.mem_cons_self hd)
      · exact .inr (.here hmem hd)
    | inside hmem hd hc hb =>
      rcases List.mem_cons.1 hmem with rfl | hmem
      · exact .inl (.inside List.mem_cons_self hd hc hb)
      · exact .inr (.inside hmem hd hc hb)
  · rintro (h | h)
    · cases h with
      | here hmem hd =>
        obtain rfl := List.mem_singleton.1 hmem
        exact .here List.mem_cons_self hd
      | inside hmem hd hc hb =>
        obtain rfl := List.mem_singleton.1 hmem
        exact .inside List.mem_cons_self hd hc hb
    · cases h with
      | here hmem hd => exact .here (List.mem_cons_of_mem _ hmem) hd
      | inside hmem hd hc hb => exact .inside (List.mem_cons_of_mem _ hmem) hd hc hb

/-- What stands directly in some selections is done, and so is what stands in new fragments. -/
structure Closed (E : Execution) (t : NamedType) (seen : List String) (ss : List Selection)
    (nodes : List FieldNode) (seen' : List String) : Prop where
  direct : ∀ sel, Direct E t ss sel → Done nodes seen' sel
  fragments : ∀ n ∈ seen', n ∉ seen → ∀ f, E.fragments.get? n = some f →
    E.meets t (some f.condition.text) = true → ∀ sel, Direct E t f.selections sel →
      Done nodes seen' sel

theorem Closed.cons {nodes' : List FieldNode} {sel : Selection} {rest : List Selection}
    (h : Closed E t seen rest nodes seen') (hnodes : ∀ n ∈ nodes, n ∈ nodes')
    (hsel : ∀ sel', Direct E t [sel] sel' → Done nodes' seen' sel') :
    Closed E t seen (sel :: rest) nodes' seen' where
  direct sel' hd := by
    rcases direct_cons_iff.1 hd with hd | hd
    · exact hsel sel' hd
    · exact (h.direct sel' hd).mono hnodes fun _ hn => hn
  fragments n hn hnew f hf hc sel' hd :=
    (h.fragments n hn hnew f hf hc sel' hd).mono hnodes fun _ hn => hn

theorem Closed.of_skipped {name : String} (h : Closed E t (name :: seen) ss nodes seen')
    (hskip : ∀ f, E.fragments.get? name = some f → E.meets t (some f.condition.text) = false) :
    Closed E t seen ss nodes seen' where
  direct := h.direct
  fragments n hn hnew f hf hc := by
    by_cases heq : n = name
    · subst heq
      rw [hskip f hf] at hc
      exact absurd hc (by simp)
    · refine h.fragments n hn ?_ f hf hc
      intro hmem
      rcases List.mem_cons.1 hmem with hmem | hmem
      · exact heq hmem
      · exact hnew hmem

theorem Closed.of_entered {name : String} {f : Fragment}
    (h : Closed E t (name :: seen) f.selections nodes seen') (hf : E.fragments.get? name = some f) :
    Closed E t seen f.selections nodes seen' where
  direct := h.direct
  fragments n hn hnew f' hf' hc := by
    by_cases heq : n = name
    · subst heq
      rw [hf] at hf'
      obtain rfl := Option.some.inj hf'
      exact h.direct
    · refine h.fragments n hn ?_ f' hf' hc
      intro hmem
      rcases List.mem_cons.1 hmem with hmem | hmem
      · exact heq hmem
      · exact hnew hmem

theorem Closed.append {seen₁ : List String} {inner : List FieldNode} {sel : Selection}
    {below rest : List Selection} (h : Closed E t seen below inner seen₁)
    (h' : Closed E t seen₁ rest nodes seen') (hseen : ∀ n ∈ seen₁, n ∈ seen')
    (hsel : ∀ sel', Direct E t [sel] sel' →
      Direct E t below sel' ∨ Done (inner ++ nodes) seen' sel') :
    Closed E t seen (sel :: rest) (inner ++ nodes) seen' where
  direct sel' hd := by
    rcases direct_cons_iff.1 hd with hd | hd
    · rcases hsel sel' hd with hd | hdone
      · exact (h.direct sel' hd).mono (fun _ hn => List.mem_append_left _ hn) hseen
      · exact hdone
    · exact (h'.direct sel' hd).mono (fun _ hn => List.mem_append_right _ hn) fun _ hn => hn
  fragments n hn hnew f hf hc sel' hd := by
    by_cases hinside : n ∈ seen₁
    · exact (h.fragments n hinside hnew f hf hc sel' hd).mono
        (fun _ hn => List.mem_append_left _ hn) hseen
    · exact (h'.fragments n hn hinside f hf hc sel' hd).mono
        (fun _ hn => List.mem_append_right _ hn) fun _ hn => hn

theorem direct_spread {n : Name} {ds : List Directive} {o : Option Origin} {sel : Selection}
    (h : Direct E t [.spread n ds o] sel) : sel = .spread n ds o := by
  cases h with
  | here hmem => exact List.mem_singleton.1 hmem
  | inside hmem => exact absurd (List.mem_singleton.1 hmem) (by simp)

theorem Collects.closed (h : Collects E t seen ss nodes seen') :
    Closed E t seen ss nodes seen' := by
  induction h with
  | nil =>
    refine ⟨?_, fun n hn hnew => absurd hn hnew⟩
    intro sel hd
    cases hd with
    | here hmem => simp at hmem
    | inside hmem => simp at hmem
  | excluded hd _ ih =>
    refine ih.cons (fun _ hn => hn) ?_
    intro sel' hdirect
    cases hdirect with
    | here hmem hd' =>
      rw [List.mem_singleton.1 hmem, hd] at hd'
      exact absurd hd' (by simp)
    | inside hmem hd' =>
      rw [← List.mem_singleton.1 hmem] at hd
      rw [Selection.directives, hd'] at hd
      exact absurd hd (by simp)
  | field hd _ ih =>
    refine ih.cons (fun _ hn => List.mem_cons_of_mem _ hn) ?_
    intro sel' hdirect
    cases hdirect with
    | here hmem =>
      rw [List.mem_singleton.1 hmem]
      exact List.mem_cons_self
    | inside hmem => exact absurd (List.mem_singleton.1 hmem) (by simp)
  | inline hd hc _ hrest ih ih' =>
    refine ih.append ih' hrest.seen_subset ?_
    intro sel' hdirect
    cases hdirect with
    | here hmem =>
      rw [List.mem_singleton.1 hmem]
      exact .inr trivial
    | inside hmem _ _ hbelow =>
      obtain ⟨rfl, rfl, rfl, rfl⟩ := Selection.inline.inj (List.mem_singleton.1 hmem)
      exact .inl hbelow
  | inlineUnmet hd hc _ ih =>
    refine ih.cons (fun _ hn => hn) ?_
    intro sel' hdirect
    cases hdirect with
    | here hmem =>
      rw [List.mem_singleton.1 hmem]
      trivial
    | inside hmem _ hc' =>
      obtain ⟨rfl, rfl, rfl, rfl⟩ := Selection.inline.inj (List.mem_singleton.1 hmem)
      rw [hc] at hc'
      exact absurd hc' (by simp)
  | spreadSeen hd hn hrest ih =>
    refine ih.cons (fun _ hn => hn) ?_
    intro sel' hdirect
    rw [direct_spread hdirect]
    exact hrest.seen_subset _ hn
  | spreadUnknown hd hn hf hrest ih =>
    refine (ih.of_skipped fun f hf' => ?_).cons (fun _ hn => hn) ?_
    · rw [hf] at hf'
      exact absurd hf' (by simp)
    · intro sel' hdirect
      rw [direct_spread hdirect]
      exact hrest.seen_subset _ List.mem_cons_self
  | spreadUnmet hd hn hf hc hrest ih =>
    refine (ih.of_skipped fun f' hf' => ?_).cons (fun _ hn => hn) ?_
    · rw [hf] at hf'
      obtain rfl := Option.some.inj hf'
      exact hc
    · intro sel' hdirect
      rw [direct_spread hdirect]
      exact hrest.seen_subset _ List.mem_cons_self
  | spread hd hn hf hc hinner hrest ih ih' =>
    refine (ih.of_entered hf).append ih' hrest.seen_subset ?_
    intro sel' hdirect
    rw [direct_spread hdirect]
    exact .inr (hrest.seen_subset _ (hinner.seen_subset _ List.mem_cons_self))

/-- Once everything that stands directly in selections is done, so is whatever they lead to. -/
theorem Reaches.mem_of_closed {all : List Selection} (hall : Closed E t [] all nodes seen')
    (h : Reaches E t ss node) (hdone : ∀ sel, Direct E t ss sel → Done nodes seen' sel) :
    node ∈ nodes := by
  induction h with
  | field hmem hd => exact hdone _ (.here hmem hd)
  | inline hmem hd hc _ ih => exact ih fun sel hsel => hdone sel (.inside hmem hd hc hsel)
  | spread hmem hd hf hc _ ih =>
    have hseen := hdone _ (.here hmem hd)
    exact ih fun sel hsel => hall.fragments _ hseen (by simp) _ hf hc sel hsel

/-- An executor collects the fields that are reached. -/
theorem Collects.mem_iff (h : Collects E t [] ss nodes seen') :
    node ∈ nodes ↔ Reaches E t ss node := by
  constructor
  · intro hnode
    exact (h.reachesApart hnode).reaches
  · intro hr
    exact hr.mem_of_closed h.closed h.closed.direct

/-- Everything that stands in selections, in what is below them and in the fragments that they
lead to. -/
inductive Met (table : Table Fragment) : List Selection → Selection → Prop
  | here {ss : List Selection} {sel : Selection} : sel ∈ ss → Met table ss sel
  | field {ss below : List Selection} {h : FieldHead} {b : Option Origin} {sel : Selection} :
      .field h b below ∈ ss → Met table below sel → Met table ss sel
  | inline {ss below : List Selection} {c : Option Name} {ds : List Directive}
      {o : Option Origin} {sel : Selection} :
      .inline c ds below o ∈ ss → Met table below sel → Met table ss sel
  | spread {ss : List Selection} {n : Name} {ds : List Directive} {o : Option Origin}
      {f : Fragment} {sel : Selection} :
      .spread n ds o ∈ ss → table.get? n.text = some f → Met table f.selections sel →
        Met table ss sel

mutual
/-- Whether a selection and everything that is written inside it passes a check. -/
def deep (check : Selection → Bool) : Selection → Bool
  | .field h b below => check (.field h b below) && deepAll check below
  | .spread n ds o => check (.spread n ds o)
  | .inline c ds below o => check (.inline c ds below o) && deepAll check below

def deepAll (check : Selection → Bool) : List Selection → Bool
  | [] => true
  | sel :: rest => deep check sel && deepAll check rest
end

theorem deep_of_mem {check : Selection → Bool} {sel : Selection} (h : deepAll check ss = true)
    (hsel : sel ∈ ss) : deep check sel = true := by
  induction ss with
  | nil => simp at hsel
  | cons sel' rest ih =>
    rw [deepAll, Bool.and_eq_true] at h
    rcases List.mem_cons.1 hsel with rfl | hsel
    · exact h.1
    · exact ih h.2 hsel

theorem check_of_deep {check : Selection → Bool} {sel : Selection} (h : deep check sel = true) :
    check sel = true := by
  cases sel with
  | field h' b below =>
    rw [deep, Bool.and_eq_true] at h
    exact h.1
  | spread n ds o => exact h
  | inline c ds below o =>
    rw [deep, Bool.and_eq_true] at h
    exact h.1

theorem Met.check {table : Table Fragment} {check : Selection → Bool} {sel : Selection}
    (h : Met table ss sel) (hss : deepAll check ss = true)
    (htable : ∀ n f, table.get? n = some f → deepAll check f.selections = true) :
    check sel = true := by
  induction h with
  | here hmem => exact check_of_deep (deep_of_mem hss hmem)
  | field hmem _ ih =>
    have hsel := deep_of_mem hss hmem
    rw [deep, Bool.and_eq_true] at hsel
    exact ih hsel.2
  | inline hmem _ ih =>
    have hsel := deep_of_mem hss hmem
    rw [deep, Bool.and_eq_true] at hsel
    exact ih hsel.2
  | spread _ hf _ ih => exact ih (htable _ _ hf)

/-- Selections that use neither `@skip` nor `@include`. -/
def Plain (table : Table Fragment) (ss : List Selection) : Prop :=
  ∀ sel, Met table ss sel → ∀ d ∈ sel.directives, d.name ≠ "skip" ∧ d.name ≠ "include"

theorem Plain.admits {sel : Selection} (h : Plain E.fragments ss) (hsel : sel ∈ ss) :
    E.admits sel.directives = true := by
  rw [Execution.admits, List.all_eq_true]
  intro d hd
  obtain ⟨hskip, hinclude⟩ := h sel (.here hsel) d hd
  rw [Directive.admits, if_neg hskip, if_neg hinclude]

theorem Plain.mono {table : Table Fragment} (h : Plain table ss)
    (hss : ∀ sel, Met table ss' sel → Met table ss sel) : Plain table ss' :=
  fun sel hsel => h sel (hss sel hsel)

theorem Plain.of_mem {table : Table Fragment}
    (h : ∀ sel ∈ ss, ∃ ss', sel ∈ ss' ∧ Plain table ss') : Plain table ss := by
  intro sel hsel
  cases hsel with
  | here hmem =>
    obtain ⟨ss', hmem', hplain⟩ := h _ hmem
    exact hplain sel (.here hmem')
  | field hmem hbelow =>
    obtain ⟨ss', hmem', hplain⟩ := h _ hmem
    exact hplain sel (.field hmem' hbelow)
  | inline hmem hbelow =>
    obtain ⟨ss', hmem', hplain⟩ := h _ hmem
    exact hplain sel (.inline hmem' hbelow)
  | spread hmem hf hbelow =>
    obtain ⟨ss', hmem', hplain⟩ := h _ hmem
    exact hplain sel (.spread hmem' hf hbelow)

theorem Plain.of_reaches (h : Plain E.fragments ss) (hr : Reaches E t ss node) :
    Plain E.fragments node.selections := by
  induction hr with
  | field hmem => exact h.mono fun _ hsel => .field hmem hsel
  | inline hmem _ _ _ ih => exact ih (h.mono fun _ hsel => .inline hmem hsel)
  | spread hmem _ hf _ _ ih => exact ih (h.mono fun _ hsel => .spread hmem hf hsel)

end Execution
end QueryTypes
