import QueryTypes.Proofs.Document.Uses

/-!
# Fragments that a definition involves

A definition involves the fragments that are spread anywhere inside it, and those that they involve
in turn. The search for them takes every fragment once, so that it comes to an end whatever spreads
whatever; what it finds are the known fragments among the involved ones.
-/

namespace QueryTypes

namespace Selection

/-- The name is spread in the selections, at any depth. -/
inductive HasSpread : List Selection → String → Prop
  | here {ss : List Selection} {n : Name} {ds : List Directive} {o : Option Origin} :
      .spread n ds o ∈ ss → HasSpread ss n.text
  | field {ss below : List Selection} {h : FieldHead} {b : Option Origin} {n : String} :
      .field h b below ∈ ss → HasSpread below n → HasSpread ss n
  | inline {ss below : List Selection} {c : Option Name} {ds : List Directive}
      {o : Option Origin} {n : String} :
      .inline c ds below o ∈ ss → HasSpread below n → HasSpread ss n

variable {ss ss' : List Selection} {sel : Selection} {n : String}

theorem HasSpread.mono (h : HasSpread ss n) (hss : ∀ sel ∈ ss, sel ∈ ss') : HasSpread ss' n := by
  cases h with
  | here hmem => exact .here (hss _ hmem)
  | field hmem hbelow => exact .field (hss _ hmem) hbelow
  | inline hmem hbelow => exact .inline (hss _ hmem) hbelow

mutual
theorem hasSpread_of_mem_spreads : (sel : Selection) → n ∈ sel.spreads → HasSpread [sel] n
  | .field _ _ ss, h => .field List.mem_cons_self (hasSpread_of_mem_allSpreads ss h)
  | .spread _ _ _, h => by
    rw [List.mem_singleton.1 h]
    exact .here List.mem_cons_self
  | .inline _ _ ss _, h => .inline List.mem_cons_self (hasSpread_of_mem_allSpreads ss h)

theorem hasSpread_of_mem_allSpreads : (ss : List Selection) → n ∈ allSpreads ss → HasSpread ss n
  | sel :: rest, h => by
    rw [allSpreads, List.mem_append] at h
    rcases h with h | h
    · refine (hasSpread_of_mem_spreads sel h).mono fun sel' hsel' => ?_
      rw [List.mem_singleton.1 hsel']
      exact List.mem_cons_self
    · exact (hasSpread_of_mem_allSpreads rest h).mono fun _ => List.mem_cons_of_mem _
end

theorem mem_allSpreads_of_mem (hsel : sel ∈ ss) (h : n ∈ sel.spreads) : n ∈ allSpreads ss := by
  induction ss with
  | nil => exact absurd hsel List.not_mem_nil
  | cons sel' rest ih =>
    rw [allSpreads, List.mem_append]
    rcases List.mem_cons.1 hsel with rfl | hsel
    · exact .inl h
    · exact .inr (ih hsel)

theorem mem_allSpreads_iff : n ∈ allSpreads ss ↔ HasSpread ss n := by
  constructor
  · exact hasSpread_of_mem_allSpreads ss
  · intro h
    induction h with
    | here hmem => exact mem_allSpreads_of_mem hmem List.mem_cons_self
    | field hmem _ ih => exact mem_allSpreads_of_mem hmem ih
    | inline hmem _ ih => exact mem_allSpreads_of_mem hmem ih

end Selection

/-- The name is spread in the selections, or in a fragment that they involve. -/
inductive Involves (table : Table Fragment) : List Selection → String → Prop
  | spread {ss : List Selection} {n : String} : Selection.HasSpread ss n → Involves table ss n
  | through {ss : List Selection} {m n : String} {f : Fragment} :
      Selection.HasSpread ss m → table.get? m = some f → Involves table f.selections n →
        Involves table ss n

variable {table : Table Fragment} {ss : List Selection} {start : List String} {m n : String}
  {f : Fragment}

theorem Involves.trans (h : Involves table ss m) (hf : table.get? m = some f)
    (hn : Involves table f.selections n) : Involves table ss n := by
  induction h with
  | spread hm => exact .through hm hf hn
  | through hm hf' _ ih => exact .through hm hf' (ih hf)

theorem mem_spreadsOf_iff :
    n ∈ spreadsOf table m ↔ ∃ f, table.get? m = some f ∧ Selection.HasSpread f.selections n := by
  rw [spreadsOf]
  cases hf : table.get? m with
  | none => simp
  | some f => simp [Selection.mem_allSpreads_iff]

theorem spreadsOf_of_get? (hf : table.get? m = some f) :
    spreadsOf table m = Selection.allSpreads f.selections := by
  rw [spreadsOf, hf]
  rfl

theorem Leads.trans (h : Leads table start m)
    (hn : Leads table (spreadsOf table m) n) : Leads table start n := by
  induction hn with
  | spread hn => exact .through h hn
  | through _ hn ih => exact .through ih hn

theorem leads_iff_involves :
    Leads table (Selection.allSpreads ss) n ↔ Involves table ss n := by
  constructor
  · intro h
    induction h with
    | spread hn => exact .spread (Selection.mem_allSpreads_iff.1 hn)
    | through _ hn ih =>
      obtain ⟨f, hf, hspread⟩ := mem_spreadsOf_iff.1 hn
      exact ih.trans hf (.spread hspread)
  · intro h
    induction h with
    | spread hn => exact .spread (Selection.mem_allSpreads_iff.2 hn)
    | @through ss m n f hm hf _ ih =>
      have hstart : Leads table (Selection.allSpreads ss) m :=
        .spread (Selection.mem_allSpreads_iff.2 hm)
      exact hstart.trans (by rwa [spreadsOf_of_get? hf])

theorem Leads.bind {start' : List String} (h : Leads table start n)
    (hstart : ∀ m ∈ start, Leads table start' m) : Leads table start' n := by
  induction h with
  | spread hn => exact hstart _ hn
  | through _ hn ih => exact .through ih hn

theorem Leads.mono {start' : List String} (h : Leads table start n)
    (hstart : ∀ m ∈ start, m ∈ start') : Leads table start' n :=
  h.bind fun m hm => .spread (hstart m hm)

/-- The tables have the same fragments under the names that the selections lead to. -/
def AgreeOn (table table' : Table Fragment) (ss : List Selection) : Prop :=
  ∀ n, Leads table (Selection.allSpreads ss) n → table.get? n = table'.get? n

theorem AgreeOn.of_leads {table' : Table Fragment} {ss' : List Selection}
    (h : AgreeOn table table' ss)
    (hss : ∀ n ∈ Selection.allSpreads ss', Leads table (Selection.allSpreads ss) n) :
    AgreeOn table table' ss' :=
  fun n hn => h n (hn.bind hss)

theorem AgreeOn.tail {table' : Table Fragment} {sel : Selection}
    (h : AgreeOn table table' (sel :: ss)) : AgreeOn table table' ss :=
  h.of_leads fun _ hn => .spread (List.mem_append_right _ hn)

theorem AgreeOn.symm {table' : Table Fragment} (h : AgreeOn table table' ss) :
    AgreeOn table' table ss := by
  have hspreads : ∀ n, Leads table (Selection.allSpreads ss) n →
      spreadsOf table n = spreadsOf table' n := by
    intro n hn
    rw [spreadsOf, spreadsOf, h n hn]
  exact fun n hn => (h n ((Leads.congr hspreads).2 hn)).symm

/-- No fragment involves itself. -/
def Acyclic (table : Table Fragment) : Prop :=
  ∀ n f, table.get? n = some f → ¬ Involves table f.selections n

theorem Acyclic.not_leads (h : Acyclic table) (hf : table.get? n = some f) :
    ¬ Leads table (Selection.allSpreads f.selections) n :=
  fun hn => h n f hf (leads_iff_involves.1 hn)

/-- What the search for fragments finds when it goes on until nothing is pending. -/
def Finds (table : Table Fragment) (ss : List Selection) (found : List String) : Prop :=
  Closure.Finds table.keys (spreadsOf table) (Selection.allSpreads ss) found

theorem finds_iff_reached {found : List String} :
    Finds table ss found ↔ found = reached table ss :=
  Closure.finds_iff

namespace Fragment

theorem mem_uses_iff {f : Fragment} : n ∈ f.uses table ↔
    (Leads table (Selection.allSpreads f.selections) n ∧ n ∈ table.keys) ∧ n ≠ f.name.text := by
  rw [uses, Text.mem_sorted, List.mem_filter, mem_reached_iff, bne_iff_ne]

theorem pairwise_uses (table : Table Fragment) (f : Fragment) :
    (f.uses table).Pairwise (· < ·) :=
  Text.pairwise_sorted ((Closure.nodup_reach _ _ _).filter _)

end Fragment

/-- Whatever fragments spread each other, the search comes to an end, with one outcome. The
fragments that an operation uses are the known ones that it involves, each once and sorted; those
that a fragment uses are the same but for itself. -/
theorem uses_are_involved (table : Table Fragment) :
    (∀ o : Operation,
      (∃ found, (∀ found', Finds table o.selections found' ↔ found' = found) ∧
        o.uses table = Text.sorted found) ∧
      (o.uses table).Pairwise (· < ·) ∧
      ∀ n, n ∈ o.uses table ↔ n ∈ table.keys ∧ Involves table o.selections n) ∧
    ∀ f : Fragment,
      (∃ found, (∀ found', Finds table f.selections found' ↔ found' = found) ∧
        f.uses table = Text.sorted (found.filter (· != f.name.text))) ∧
      (f.uses table).Pairwise (· < ·) ∧
      ∀ n, n ∈ f.uses table ↔
        n ∈ table.keys ∧ Involves table f.selections n ∧ n ≠ f.name.text := by
  constructor
  · intro o
    refine ⟨⟨reached table o.selections, fun _ => finds_iff_reached, rfl⟩,
      o.pairwise_uses table, fun n => ?_⟩
    rw [Operation.mem_uses_iff, leads_iff_involves, and_comm]
  · intro f
    refine ⟨⟨reached table f.selections, fun _ => finds_iff_reached, rfl⟩,
      f.pairwise_uses table, fun n => ?_⟩
    rw [Fragment.mem_uses_iff, leads_iff_involves, and_comm (a := Involves _ _ _), and_assoc]

end QueryTypes
