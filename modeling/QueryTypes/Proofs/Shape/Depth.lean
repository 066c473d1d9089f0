import Mathlib.Algebra.Order.BigOperators.Group.List
import Mathlib.Algebra.Order.Ring.Nat
import QueryTypes.Proofs.Document.Involved
import QueryTypes.Proofs.Shape.Entries
import QueryTypes.Proofs.Validation.Resolved
import QueryTypes.Shape.Build

/-!
# Levels inside each other

When no fragment leads back to itself, there are at most as many levels inside each other as there
are selections altogether, and what is selected on each of them can be collected.
-/

namespace QueryTypes

open Execution (deep deepAll)

/-- Together with the fragments that it leads to, a selection has at most so many levels of fields. -/
inductive Selection.Bounded (table : Table Fragment) : Nat → Selection → Prop
  | field {n : Nat} {h : FieldHead} {b : Option Origin} {below : List Selection} :
      (∀ sel ∈ below, Bounded table n sel) → Bounded table (n + 1) (.field h b below)
  | spread {n : Nat} {name : Name} {ds : List Directive} {o : Option Origin} :
      (∀ f, table.get? name.text = some f → ∀ sel ∈ f.selections, Bounded table n sel) →
        Bounded table n (.spread name ds o)
  | inline {n : Nat} {c : Option Name} {ds : List Directive} {below : List Selection}
      {o : Option Origin} :
      (∀ sel ∈ below, Bounded table n sel) → Bounded table n (.inline c ds below o)

/-- No way into the selections leads through more levels of fields. -/
def Bounded (table : Table Fragment) (n : Nat) (ss : List Selection) : Prop :=
  ∀ sel ∈ ss, sel.Bounded table n

variable {s : Schema} {table : Table Fragment} {n m : Nat} {ss : List Selection} {sel : Selection}
  {order : List String}

theorem Selection.Bounded.succ (h : sel.Bounded table n) : sel.Bounded table (n + 1) := by
  induction h with
  | field _ ih => exact .field ih
  | spread _ ih => exact .spread ih
  | inline _ ih => exact .inline ih

theorem Bounded.mono (h : Bounded table n ss) (hnm : n ≤ m) : Bounded table m ss := by
  obtain ⟨k, rfl⟩ := Nat.exists_eq_add_of_le hnm
  intro sel hsel
  induction k with
  | zero => exact h sel hsel
  | succ k ih => exact (ih (Nat.le_add_right _ _)).succ

/-! ### A bound from the order of fragments -/

mutual
/-- A selection adds at most its own weight to what its spreads lead to. -/
theorem Selection.bounded_of_spreads : (sel : Selection) →
    (∀ name ∈ sel.spreads, ∀ f, table.get? name = some f → QueryTypes.Bounded table n f.selections) →
    sel.Bounded table (sel.weight + n)
  | .field h b below, hspreads => by
    rw [weight, Nat.add_right_comm]
    exact .field (bounded_of_allSpreads below hspreads)
  | .spread name ds o, hspreads => by
    refine .spread fun f hf => Bounded.mono (hspreads name.text (by simp [spreads]) f hf) ?_
    exact Nat.le_add_left _ _
  | .inline c ds below o, hspreads => by
    refine .inline (Bounded.mono (bounded_of_allSpreads below hspreads) ?_)
    rw [weight]
    omega

theorem Selection.bounded_of_allSpreads : (ss : List Selection) →
    (∀ name ∈ Selection.allSpreads ss, ∀ f, table.get? name = some f →
      QueryTypes.Bounded table n f.selections) →
    QueryTypes.Bounded table (Selection.weights ss + n) ss
  | [], _ => by simp [QueryTypes.Bounded]
  | sel :: rest, hspreads => by
    simp only [allSpreads, List.mem_append, or_imp, forall_and] at hspreads
    have hfirst : QueryTypes.Bounded table (sel.weight + n) [sel] := by
      simpa [QueryTypes.Bounded] using sel.bounded_of_spreads hspreads.1
    have hrest := bounded_of_allSpreads rest hspreads.2
    rw [weights]
    intro sel' hsel'
    rcases List.mem_cons.1 hsel' with rfl | hsel'
    · exact hfirst.mono (by omega) _ List.mem_cons_self
    · exact hrest.mono (by omega) sel' hsel'
end

/-- What a fragment weighs; nothing if there is none. -/
def fragmentWeight (table : Table Fragment) (name : String) : Nat :=
  ((table.get? name).map fun f => Selection.weights f.selections).getD 0

/-- What all the fragments weigh that selections use. -/
def usedWeight (table : Table Fragment) (ss : List Selection) : Nat :=
  ((reached table ss).map (fragmentWeight table)).sum

theorem weights_append (a b : List Selection) :
    Selection.weights (a ++ b) = Selection.weights a + Selection.weights b := by
  induction a with
  | nil => simp [Selection.weights]
  | cons sel a ih => rw [List.cons_append, Selection.weights, ih, Selection.weights, Nat.add_assoc]

theorem weights_of_names (table : Table Fragment) (names : List String) :
    Selection.weights ((names.filterMap table.get?).flatMap Fragment.selections) =
      (names.map (fragmentWeight table)).sum := by
  induction names with
  | nil => rfl
  | cons name names ih =>
    rw [List.map_cons, List.sum_cons, fragmentWeight, List.filterMap_cons]
    cases table.get? name with
    | none => simpa using ih
    | some f => rw [List.flatMap_cons, weights_append, ih, Option.map_some, Option.getD_some]

/-- A fragment that is spread is used apart from those that it uses itself. -/
theorem Acyclic.cons_reached_subperm {name : String} {f : Fragment} (h : Acyclic table)
    (hname : name ∈ Selection.allSpreads ss) (hf : table.get? name = some f) :
    (name :: reached table f.selections).Subperm (reached table ss) := by
  have hspread : Leads table (Selection.allSpreads ss) name := .spread hname
  apply List.Nodup.subperm
  · refine List.nodup_cons.2 ⟨?_, Closure.nodup_reach _ _ _⟩
    intro hmem
    exact h.not_leads hf (mem_reached_iff.1 hmem).1
  · intro m hm
    rcases List.mem_cons.1 hm with rfl | hm
    · exact mem_reached_iff.2 ⟨hspread, Table.mem_keys_of_get? hf⟩
    · obtain ⟨hleads, hkey⟩ := mem_reached_iff.1 hm
      rw [← spreadsOf_of_get? hf] at hleads
      exact mem_reached_iff.2 ⟨hspread.trans hleads, hkey⟩

theorem weights_add_usedWeight_le {name : String} {f : Fragment} (hf : table.get? name = some f)
    (hsub : (name :: reached table f.selections).Subperm (reached table ss)) :
    Selection.weights f.selections + usedWeight table f.selections ≤ usedWeight table ss := by
  obtain ⟨l, hperm, hsublist⟩ := hsub
  have hle := (hsublist.map (fragmentWeight table)).sum_le_sum fun _ _ => Nat.zero_le _
  rw [(hperm.map _).sum_eq, List.map_cons, List.sum_cons, fragmentWeight, hf] at hle
  exact hle

/-- A fragment uses fewer fragments than what it is spread in, so that a bound for what is used is
one for what uses it. -/
theorem Acyclic.bounded (h : Acyclic table) (ss : List Selection) :
    Bounded table (Selection.weights ss + usedWeight table ss) ss := by
  induction hlength : (reached table ss).length using Nat.strong_induction_on generalizing ss with
  | _ k ih =>
    refine Selection.bounded_of_allSpreads ss fun name hname f hf => ?_
    have hsub := h.cons_reached_subperm hname hf
    have hless : (reached table f.selections).length < k := by
      have hle := hsub.length_le
      rw [List.length_cons] at hle
      omega
    exact (ih _ hless f.selections rfl).mono (weights_add_usedWeight_le hf hsub)

/-- What a fragment adds to the levels of the selections that use it. -/
def Fragment.extent (f : Fragment) : Nat × List String :=
  (Selection.weights f.selections, Selection.allSpreads f.selections)

/-- Selections that spread the same names use the same fragments, if those that they lead to spread
the same names too. -/
theorem usedWeight_congr {table' : Table Fragment} {ss' : List Selection}
    (hspreads : Selection.allSpreads ss = Selection.allSpreads ss')
    (hsame : ∀ n, Leads table (Selection.allSpreads ss) n →
      (table.get? n).map Fragment.extent = (table'.get? n).map Fragment.extent) :
    usedWeight table ss = usedWeight table' ss' := by
  have hweight : ∀ (table : Table Fragment) (n : String), fragmentWeight table n =
      (((table.get? n).map Fragment.extent).map Prod.fst).getD 0 := by
    intro table n
    rw [fragmentWeight, Option.map_map]
    rfl
  have hspreadsOf : ∀ (table : Table Fragment) (n : String), spreadsOf table n =
      (((table.get? n).map Fragment.extent).map Prod.snd).getD [] := by
    intro table n
    rw [spreadsOf, Option.map_map]
    rfl
  have hkeys : ∀ (table : Table Fragment) (n : String), n ∈ table.keys ↔
      ((table.get? n).map Fragment.extent).isSome = true := by
    intro table n
    rw [Option.isSome_map, ← Table.has, Table.has_iff]
  have hleads : ∀ n, Leads table (Selection.allSpreads ss) n ↔
      Leads table' (Selection.allSpreads ss') n := by
    intro n
    rw [← hspreads]
    exact Leads.congr fun m hm => by rw [hspreadsOf, hspreadsOf, hsame m hm]
  have hperm : (reached table ss).Perm (reached table' ss') := by
    refine (List.perm_ext_iff_of_nodup (Closure.nodup_reach _ _ _)
      (Closure.nodup_reach _ _ _)).2 fun n => ?_
    rw [← reached, ← reached, mem_reached_iff, mem_reached_iff, ← hleads]
    refine and_congr_right fun hn => ?_
    rw [hkeys, hkeys, hsame n hn]
  rw [usedWeight, usedWeight, ← (hperm.map _).sum_eq]
  congr 1
  apply List.map_congr_left
  intro n hn
  rw [hweight, hweight, hsame n (mem_reached_iff.1 hn).1]

theorem leads_of_settled {start : List String} {name : String}
    (h : Cycle.Settled (spreadsOf table) order) (hstart : ∀ n ∈ start, n ∈ order)
    (hname : Leads table start name) : name ∈ order := by
  have hclosed : ∀ m ∈ order, ∀ n ∈ spreadsOf table m, n ∈ order := by
    clear hstart
    induction h with
    | nil => simp
    | cons _ _ hbefore ih =>
      intro m hm n hn
      rcases List.mem_cons.1 hm with rfl | hm
      · exact List.mem_cons_of_mem _ (hbefore n hn)
      · exact List.mem_cons_of_mem _ (ih m hm n hn)
  induction hname with
  | spread hn => exact hstart _ hn
  | through _ hn ih => exact hclosed _ ih _ hn

/-- In an order in which each name leads to earlier ones, none leads back to itself. -/
theorem Cycle.Settled.not_leads {name : String} (h : Cycle.Settled (spreadsOf table) order)
    (hname : name ∈ order) : ¬ Leads table (spreadsOf table name) name := by
  induction h with
  | nil => simp at hname
  | cons hrest hnew hbefore ih =>
    rcases List.mem_cons.1 hname with rfl | hname
    · intro hleads
      exact hnew (leads_of_settled hrest hbefore hleads)
    · exact ih hname

theorem acyclic_of_settled (h : Cycle.Settled (spreadsOf table) order)
    (hall : ∀ n ∈ table.keys, n ∈ order) : Acyclic table := by
  intro name f hf hinvolves
  refine h.not_leads (hall name (Table.mem_keys_of_get? hf)) ?_
  rw [spreadsOf_of_get? hf]
  exact leads_iff_involves.2 hinvolves

theorem Document.Resolved.acyclic {d : Document} (h : d.Resolved s) : Acyclic d.fragmentTable := by
  obtain ⟨order, hsettled, hall⟩ := h.order
  exact acyclic_of_settled hsettled hall

/-! ### What is collected on a level -/

/-- All names in the fragments of a table lead somewhere. -/
structure TableResolved (s : Schema) (table : Table Fragment) : Prop where
  selections : ∀ n f, table.get? n = some f → Resolved s table f.selections
  conditions : ∀ n f, table.get? n = some f → (s.composite? f.condition.text).isSome = true

theorem tableResolved_fragmentTable {d : Document} (h : d.Resolved s) :
    TableResolved s d.fragmentTable where
  selections _ f hf := h.fragments f (fragment_of_get? hf).1
  conditions _ f hf := h.conditions f (fragment_of_get? hf).1

theorem deepAll_eq_true_iff {check : Selection → Bool} :
    deepAll check ss = true ↔ ∀ sel ∈ ss, deep check sel = true := by
  induction ss with
  | nil => simp [deepAll]
  | cons sel ss ih => rw [deepAll, Bool.and_eq_true, ih, List.forall_mem_cons]

namespace Level

variable {parent : NamedType} {conditional : Bool} {visiting : List String} {occ : Occurrence}
  {follow : Follow} {es : List Entry} {e : Entry}

theorem conditionType_of_composite? {c : String} (h : (s.composite? c).isSome = true) :
    ∃ t, conditionType s parent (some c) = .ok t := by
  obtain ⟨t, ht⟩ := Option.isSome_iff_exists.1 h
  exact ⟨t, conditionType_some_iff.2 ht⟩

mutual
theorem exists_occurrence
    (hfollow : ∀ parent conditional n, table.has n = true → ∃ os, follow parent conditional n = .ok os) :
    (sel : Selection) → {parent : NamedType} → {conditional : Bool} →
      deep (Selection.resolves s table) sel = true →
      ∃ os, occurrence s follow parent conditional sel = .ok os
  | .field h b below, _, _, _ => ⟨_, rfl⟩
  | .spread n ds o, _, _, hsel => hfollow _ _ _ hsel
  | .inline c ds below o, parent, conditional, hsel => by
    rw [deep, Bool.and_eq_true] at hsel
    obtain ⟨target, ht⟩ : ∃ t, conditionType s parent (c.map Name.text) = .ok t := by
      cases c with
      | none => exact ⟨parent, rfl⟩
      | some c => exact conditionType_of_composite? hsel.1
    obtain ⟨os, hos⟩ : ∃ os, occurrences s follow target
        (conditional || !alwaysApplies s target parent) below = .ok os :=
      exists_occurrences hfollow below hsel.2
    exact ⟨os, by rw [occurrence, ht]; exact hos⟩

theorem exists_occurrences
    (hfollow : ∀ parent conditional n, table.has n = true → ∃ os, follow parent conditional n = .ok os) :
    (ss : List Selection) → {parent : NamedType} → {conditional : Bool} → Resolved s table ss →
      ∃ os, occurrences s follow parent conditional ss = .ok os
  | [], _, _, _ => ⟨[], rfl⟩
  | sel :: rest, parent, conditional, hss => by
    rw [Resolved, deepAll, Bool.and_eq_true] at hss
    obtain ⟨here, hhere⟩ : ∃ os, occurrence s follow parent conditional sel = .ok os :=
      exists_occurrence hfollow sel hss.1
    obtain ⟨later, hlater⟩ : ∃ os, occurrences s follow parent conditional rest = .ok os :=
      exists_occurrences hfollow rest hss.2
    exact ⟨here ++ later, by rw [occurrences, hhere, hlater]; rfl⟩
end

/-- Where all names lead somewhere, everything selected on a type can be collected. -/
theorem exists_collect (htable : TableResolved s table) (n : Nat) (visiting : List String)
    (parent : NamedType) (conditional : Bool) (hss : Resolved s table ss) :
    ∃ os, collect s table n visiting parent conditional ss = .ok os := by
  induction n generalizing visiting parent conditional ss with
  | zero => exact exists_occurrences (fun _ _ _ _ => ⟨[], rfl⟩) ss hss
  | succ n ih =>
    rw [collect_eq]
    refine exists_occurrences (fun parent conditional name hname => ?_) ss hss
    rw [followOf]
    by_cases hvisiting : visiting.contains name = true
    · rw [if_pos hvisiting]
      exact ⟨[], rfl⟩
    · rw [if_neg hvisiting]
      obtain ⟨f, hf⟩ := Option.isSome_iff_exists.1 hname
      obtain ⟨target, ht⟩ : ∃ t, conditionType s parent (some f.condition.text) = .ok t :=
        conditionType_of_composite? (htable.conditions name f hf)
      obtain ⟨os, hos⟩ := ih (name :: visiting) target
        (conditional || !alwaysApplies s target parent) (htable.selections name f hf)
      exact ⟨os, by rw [hf]; simp only [ht]; exact hos⟩

theorem exists_entries (htable : TableResolved s table) (parent : NamedType)
    (hss : Resolved s table ss) : ∃ es, entries s table parent ss = .ok es := by
  obtain ⟨os, hos⟩ := exists_collect htable (table.length + 1) [] parent false hss
  exact ⟨_, by rw [entries, hos]; rfl⟩

theorem Occurs.exists_bounded (h : Occurs s table visiting parent conditional ss occ)
    (hss : Bounded table n ss) : ∃ m, n = m + 1 ∧ Bounded table m occ.selections := by
  induction h with
  | field hmem =>
    cases hss _ hmem with
    | field hbelow => exact ⟨_, rfl, hbelow⟩
  | inline hmem _ _ ih =>
    cases hss _ hmem with
    | inline hbelow => exact ih hbelow
  | spread hmem _ hf _ _ ih =>
    cases hss _ hmem with
    | spread hbelow => exact ih (hbelow _ hf)

/-- What is checked of selections and fragments holds of what is selected below. -/
theorem Occurs.check {check : Selection → Bool} (h : Occurs s table visiting parent conditional ss occ)
    (htable : ∀ n f, table.get? n = some f → deepAll check f.selections = true)
    (hss : deepAll check ss = true) : (∃ head b, head.key = occ.key ∧ head.name = occ.field ∧
      check (.field head b occ.selections) = true) ∧ deepAll check occ.selections = true := by
  induction h with
  | field hmem =>
    have hsel := Execution.deep_of_mem hss hmem
    rw [deep, Bool.and_eq_true] at hsel
    exact ⟨⟨_, _, rfl, rfl, hsel.1⟩, hsel.2⟩
  | inline hmem _ _ ih =>
    have hsel := Execution.deep_of_mem hss hmem
    rw [deep, Bool.and_eq_true] at hsel
    exact ih hsel.2
  | spread _ _ hf _ _ ih => exact ih (htable _ _ hf)

/-- What is checked of selections and fragments holds of what is merged below an entry. -/
theorem Merges.check {check : Selection → Bool} (h : Merges s table parent ss e)
    (htable : ∀ n f, table.get? n = some f → deepAll check f.selections = true)
    (hss : deepAll check ss = true) : deepAll check e.selections = true := by
  refine deepAll_eq_true_iff.2 fun sel hsel => ?_
  obtain ⟨occ, hocc, -, hsel⟩ := (h.mem_selections_iff sel).1 hsel
  exact Execution.deep_of_mem (hocc.check htable hss).2 hsel

/-- Below an entry there is one level less. -/
theorem exists_bounded_of_entries (hbound : Bounded table n ss)
    (hes : entries s table parent ss = .ok es) (he : e ∈ es) :
    ∃ m, n = m + 1 ∧ Bounded table m e.selections := by
  have hmerges := (merges_of_entries hes).1 e he
  obtain ⟨first, hfirst, -⟩ := hmerges.first
  obtain ⟨m, rfl, -⟩ := hfirst.exists_bounded hbound
  refine ⟨m, rfl, fun sel hsel => ?_⟩
  obtain ⟨occ, hocc, -, hsel⟩ := (hmerges.mem_selections_iff sel).1 hsel
  obtain ⟨m', heq, hbelow⟩ := hocc.exists_bounded hbound
  obtain rfl := Nat.succ.inj heq
  exact hbelow sel hsel

/-- Below an entry all names lead somewhere still. -/
theorem exists_below_of_entries (htable : TableResolved s table) (hss : Resolved s table ss)
    (hbound : Bounded table n ss) (hes : entries s table parent ss = .ok es) (he : e ∈ es) :
    ∃ m, n = m + 1 ∧ Bounded table m e.selections ∧ Resolved s table e.selections := by
  obtain ⟨m, hm, hbelow⟩ := exists_bounded_of_entries hbound hes he
  exact ⟨m, hm, hbelow, ((merges_of_entries hes).1 e he).check htable.selections hss⟩

end Level

namespace ShapeContext

variable (cx : ShapeContext)

theorem depth_eq (ss : List Selection) :
    cx.depth ss = Selection.weights ss + usedWeight cx.fragments ss + 1 := by
  rw [depth, weights_of_names, usedWeight]

variable {cx} in
/-- The depth leaves room for all levels. -/
theorem exists_bound_of_depth (h : Acyclic cx.fragments) (ss : List Selection) :
    ∃ n, cx.depth ss = n + 1 ∧ Bounded cx.fragments n ss :=
  ⟨_, cx.depth_eq ss, h.bounded ss⟩

theorem depth_congr {cx cx' : ShapeContext} {ss' : List Selection}
    (hweights : Selection.weights ss = Selection.weights ss')
    (hspreads : Selection.allSpreads ss = Selection.allSpreads ss')
    (hsame : ∀ n, Leads cx.fragments (Selection.allSpreads ss) n →
      (cx.fragments.get? n).map Fragment.extent = (cx'.fragments.get? n).map Fragment.extent) :
    cx.depth ss = cx'.depth ss' := by
  rw [depth_eq, depth_eq, hweights, usedWeight_congr hspreads hsame]

end ShapeContext
end QueryTypes
