import QueryTypes.Proofs.Closure
import QueryTypes.Proofs.Document.Identifier
import QueryTypes.Proofs.Document.Origins
import QueryTypes.Proofs.Table
import QueryTypes.Proofs.Text.Sorted

/-!
# Fragments that a definition uses

The fragments that an operation uses are the known ones that its spreads lead to. So its whole text
depends on nothing but how the operation and these fragments are written.
-/

namespace QueryTypes

/-- The names that are spread, directly or in fragments that are led to. -/
inductive Leads (table : Table Fragment) (start : List String) : String → Prop
  | spread {n : String} : n ∈ start → Leads table start n
  | through {m n : String} : Leads table start m → n ∈ spreadsOf table m → Leads table start n

variable {table table' : Table Fragment} {ss : List Selection} {o o' : Operation} {n : String}
  {start : List String}

theorem mem_keys_of_mem_spreadsOf {m : String} (h : n ∈ spreadsOf table m) : m ∈ table.keys := by
  rw [spreadsOf] at h
  cases hm : table.get? m with
  | none => simp [hm] at h
  | some f => exact Table.mem_keys_of_get? hm

theorem reachable_iff_leads : Closure.Reachable table.keys (spreadsOf table) start n ↔
    Leads table start n ∧ n ∈ table.keys := by
  constructor
  · intro h
    induction h with
    | start hn hk => exact ⟨.spread hn, hk⟩
    | step _ hn hk ih => exact ⟨.through ih.1 hn, hk⟩
  · rintro ⟨h, hk⟩
    induction h with
    | spread hn => exact .start hn hk
    | through _ hn ih => exact .step (ih (mem_keys_of_mem_spreadsOf hn)) hn hk

theorem mem_reached_iff :
    n ∈ reached table ss ↔ Leads table (Selection.allSpreads ss) n ∧ n ∈ table.keys := by
  rw [reached, Closure.mem_reach_iff, reachable_iff_leads]

theorem fragment_of_get? {d : Document} {f : Fragment} (h : d.fragmentTable.get? n = some f) :
    f ∈ d.fragments ∧ f.name.text = n := by
  have hmem := Table.mem_of_mem_ofList (Table.mem_of_lookup h)
  obtain ⟨f', hf', heq⟩ := List.mem_map.1 hmem
  obtain ⟨rfl, rfl⟩ := Prod.mk.inj heq
  exact ⟨hf', rfl⟩

theorem mem_keys_fragmentTable {d : Document} {f : Fragment} (h : f ∈ d.fragments) :
    f.name.text ∈ d.fragmentTable.keys := by
  rw [Document.fragmentTable, Table.mem_keys_ofList_iff, List.map_map]
  exact List.mem_map_of_mem h

namespace Operation

/-- The fragments that an operation uses, in the order of their names. -/
def usedFragments (table : Table Fragment) (o : Operation) : List Fragment :=
  (o.uses table).filterMap table.get?

theorem mem_uses_iff :
    n ∈ o.uses table ↔ Leads table (Selection.allSpreads o.selections) n ∧ n ∈ table.keys := by
  rw [uses, Text.mem_sorted, mem_reached_iff]

theorem pairwise_uses (table : Table Fragment) (o : Operation) :
    (o.uses table).Pairwise (· < ·) :=
  Text.pairwise_sorted (Closure.nodup_reach _ _ _)

theorem uses_of_reached {ns : List String} (hns : ns.Pairwise (· < ·))
    (h : (reached table o.selections).Perm ns) : o.uses table = ns := by
  apply Text.eq_of_pairwise_lt id (pairwise_uses table o) hns
  intro n
  rw [uses, Text.mem_sorted, h.mem_iff]

theorem nodup_uses (table : Table Fragment) (o : Operation) : (o.uses table).Nodup := by
  refine (pairwise_uses table o).imp ?_
  rintro a b hlt rfl
  exact String.lt_irrefl _ hlt

end Operation

/-! ### The fragments of a document -/

namespace Document

variable {d : Document} {f : Fragment}

/-- The names spread in any definition. -/
def spreads (d : Document) : List String :=
  (d.operations.flatMap fun o => Selection.allSpreads o.selections) ++
    d.fragments.flatMap fun f => Selection.allSpreads f.selections

theorem fragmentTable_eq (h : d.fragmentNames.Nodup) :
    d.fragmentTable = d.fragments.map fun f => (f.name.text, f) := by
  apply Table.ofList_of_nodup
  rwa [List.map_map]

theorem values_fragmentTable (h : d.fragmentNames.Nodup) :
    d.fragmentTable.values = d.fragments := by
  rw [fragmentTable_eq h, Table.values, List.map_map]
  exact List.map_id _

theorem spreads_addTypename (d : Document) : d.addTypename.spreads = d.spreads := by
  simp only [spreads, addTypename, Operation.addTypename, Fragment.addTypename, List.flatMap_map,
    Selection.allSpreads_withTypename, Selection.allSpreads_addTypenames]

theorem map_name_usedFragments (d : Document) (o : Operation) :
    (o.usedFragments d.fragmentTable).map (fun f => f.name.text) = o.uses d.fragmentTable := by
  have hknown : ∀ n ∈ o.uses d.fragmentTable,
      (d.fragmentTable.get? n).map (fun f => f.name.text) = some n := by
    intro n hn
    obtain ⟨f, hf⟩ := Option.isSome_iff_exists.1
      (Table.has_iff.2 (Operation.mem_uses_iff.1 hn).2)
    rw [hf, Option.map_some, (fragment_of_get? hf).2]
  rw [Operation.usedFragments, List.map_filterMap, List.filterMap_congr hknown, List.filterMap_some]

theorem leads_of_mem_usedFragments (h : f ∈ o.usedFragments d.fragmentTable) :
    f ∈ d.fragments ∧ Leads d.fragmentTable (Selection.allSpreads o.selections) f.name.text := by
  obtain ⟨n, hn, hf⟩ := List.mem_filterMap.1 h
  obtain ⟨hmem, rfl⟩ := fragment_of_get? hf
  exact ⟨hmem, (Operation.mem_uses_iff.1 hn).1⟩

/-- When all fragments are known, each one that is spread in the whole text is defined there once. -/
theorem count_usedFragments (hknown : ∀ n ∈ d.spreads, n ∈ d.fragmentNames)
    (ho : o ∈ d.operations) (hn : n ∈ Selection.allSpreads o.selections ∨
      ∃ f ∈ o.usedFragments d.fragmentTable, n ∈ Selection.allSpreads f.selections) :
    ((o.usedFragments d.fragmentTable).map fun f => f.name.text).count n = 1 := by
  have hled : Leads d.fragmentTable (Selection.allSpreads o.selections) n ∧ n ∈ d.spreads := by
    rcases hn with hn | ⟨f, hf, hn⟩
    · exact ⟨.spread hn, List.mem_append_left _ (List.mem_flatMap.2 ⟨o, ho, hn⟩)⟩
    · obtain ⟨hmem, hleads⟩ := leads_of_mem_usedFragments hf
      obtain ⟨m, -, hm⟩ := List.mem_filterMap.1 hf
      obtain rfl := (fragment_of_get? hm).2
      refine ⟨hleads.through ?_, List.mem_append_right _ (List.mem_flatMap.2 ⟨f, hmem, hn⟩)⟩
      rwa [spreadsOf, hm]
  obtain ⟨f, hf, rfl⟩ := List.mem_map.1 (hknown n hled.2)
  rw [map_name_usedFragments]
  exact List.count_eq_one_of_mem (o.nodup_uses _)
    (Operation.mem_uses_iff.2 ⟨hled.1, mem_keys_fragmentTable hf⟩)

end Document

/-! ### What the whole text depends on -/

theorem fullText_eq (table : Table Fragment) (o : Operation) : o.fullText table =
    Text.joinWith "\n" (Printer.operation o :: (o.usedFragments table).map Printer.fragment) := by
  rw [Operation.fullText, withFragments, Operation.usedFragments, List.map_filterMap]

/-- What stands in the whole text of a definition that leads to a fragment. -/
def Fragment.written (f : Fragment) : String × List String :=
  (Printer.fragment f, Selection.allSpreads f.selections)

theorem spreadsOf_eq (table : Table Fragment) (n : String) :
    spreadsOf table n = (((table.get? n).map Fragment.written).map Prod.snd).getD [] := by
  rw [spreadsOf, Option.map_map]
  rfl

theorem mem_keys_iff_written :
    n ∈ table.keys ↔ ((table.get? n).map Fragment.written).isSome = true := by
  rw [Option.isSome_map, ← Table.has, Table.has_iff]

theorem Leads.congr (h : ∀ n, Leads table start n → spreadsOf table n = spreadsOf table' n) :
    Leads table start n ↔ Leads table' start n := by
  constructor
  · intro hn
    induction hn with
    | spread hn => exact .spread hn
    | through hm hn ih => exact .through ih (by rwa [← h _ hm])
  · intro hn
    induction hn with
    | spread hn => exact .spread hn
    | through _ hn ih => exact .through ih (by rwa [h _ ih])

/-- Operations that are written alike have one whole text, if the fragments that they lead to are
written alike. -/
theorem fullText_congr (hprint : Printer.operation o = Printer.operation o')
    (hspreads : Selection.allSpreads o.selections = Selection.allSpreads o'.selections)
    (hbelow : ∀ n, Leads table (Selection.allSpreads o.selections) n →
      (table.get? n).map Fragment.written = (table'.get? n).map Fragment.written) :
    o.fullText table = o'.fullText table' := by
  have hsame : ∀ n, Leads table (Selection.allSpreads o.selections) n →
      spreadsOf table n = spreadsOf table' n := by
    intro n hn
    rw [spreadsOf_eq, hbelow n hn, ← spreadsOf_eq]
  have huses : o.uses table = o'.uses table' := by
    apply Text.eq_of_pairwise_lt id (o.pairwise_uses table) (o'.pairwise_uses table')
    intro n
    rw [Operation.mem_uses_iff, Operation.mem_uses_iff, ← hspreads, ← Leads.congr hsame]
    refine and_congr_right fun hn => ?_
    rw [mem_keys_iff_written, mem_keys_iff_written, hbelow n hn]
  have htexts : (o.uses table).filterMap (fun n => (table.get? n).map Printer.fragment) =
      (o.uses table).filterMap fun n => (table'.get? n).map Printer.fragment := by
    apply List.filterMap_congr
    intro n hn
    have hwritten := congrArg (Option.map Prod.fst) (hbelow n (Operation.mem_uses_iff.1 hn).1)
    simpa [Option.map_map, Function.comp_def, Fragment.written] using hwritten
  rw [Operation.fullText, Operation.fullText, withFragments, withFragments, hprint, htexts, huses]

/-! ### Added type names -/

theorem fragmentTable_addTypename (d : Document) :
    d.addTypename.fragmentTable = d.fragmentTable.map (Prod.map id Fragment.addTypename) := by
  rw [Document.fragmentTable, Document.fragmentTable, ← Table.ofList_map]
  simp [Document.addTypename, Function.comp_def, Fragment.addTypename]

theorem get?_addTypename (d : Document) (n : String) :
    d.addTypename.fragmentTable.get? n = (d.fragmentTable.get? n).map Fragment.addTypename := by
  rw [fragmentTable_addTypename, Table.get?_map]

theorem spreadsOf_addTypename (d : Document) (n : String) :
    spreadsOf d.addTypename.fragmentTable n = spreadsOf d.fragmentTable n := by
  rw [spreadsOf, spreadsOf, get?_addTypename, Option.map_map]
  congr 2
  funext f
  rw [Function.comp_apply, Fragment.addTypename, Selection.allSpreads_withTypename,
    Selection.allSpreads_addTypenames]

theorem leads_addTypename {d : Document} :
    Leads d.addTypename.fragmentTable start n ↔ Leads d.fragmentTable start n := by
  constructor
  · intro h
    induction h with
    | spread hn => exact .spread hn
    | through _ hn ih => exact .through ih (by rwa [spreadsOf_addTypename] at hn)
  · intro h
    induction h with
    | spread hn => exact .spread hn
    | through _ hn ih => exact .through ih (by rwa [spreadsOf_addTypename])

theorem Fragment.written_of_bare {f f' : Fragment} (h : f.bare = f'.bare) :
    f.written = f'.written := by
  have hspreads : Selection.allSpreads f.selections = Selection.allSpreads f'.selections := by
    rw [← Selection.allSpreads_allBare f.selections, ← Selection.allSpreads_allBare f'.selections]
    exact congrArg (fun f => Selection.allSpreads f.selections) h
  rw [written, written, hspreads, ← Printer.fragment_bare f, h, Printer.fragment_bare f']

/-- Where operations stand, and what else their documents hold, is not seen in the whole text. -/
theorem fullText_of_bare (hsame : o.bare = o'.bare)
    (hbelow : ∀ n, Leads table (Selection.allSpreads o.selections) n →
      (table.get? n).map Fragment.bare = (table'.get? n).map Fragment.bare) :
    o.fullText table = o'.fullText table' := by
  apply fullText_congr
  · rw [← Printer.operation_bare o, hsame, Printer.operation_bare o']
  · rw [← Selection.allSpreads_allBare o.selections, ← Selection.allSpreads_allBare o'.selections]
    exact congrArg (fun o => Selection.allSpreads o.selections) hsame
  · intro n hn
    have hbare := hbelow n hn
    cases hf : table.get? n with
    | none =>
      rw [hf] at hbare
      rw [Option.map_eq_none_iff.1 hbare.symm]
    | some f =>
      rw [hf] at hbare
      obtain ⟨f', hf', heq⟩ := Option.map_eq_some_iff.1 hbare.symm
      rw [hf', Option.map_some, Option.map_some, Fragment.written_of_bare heq]

theorem fullText_addTypename_of_bare {d d' : Document} (hsame : o.bare = o'.bare)
    (hbelow : ∀ n, Leads d.fragmentTable (Selection.allSpreads o.selections) n →
      (d.fragmentTable.get? n).map Fragment.bare = (d'.fragmentTable.get? n).map Fragment.bare) :
    o.addTypename.fullText d.addTypename.fragmentTable =
      o'.addTypename.fullText d'.addTypename.fragmentTable := by
  have hadded : Fragment.bare ∘ Fragment.addTypename = Fragment.addTypename ∘ Fragment.bare :=
    funext Fragment.bare_addTypename
  apply fullText_of_bare
  · rw [Operation.bare_addTypename, hsame, Operation.bare_addTypename]
  · intro n hn
    rw [leads_addTypename, Operation.addTypename, Selection.allSpreads_addTypenames] at hn
    rw [get?_addTypename, get?_addTypename, Option.map_map, Option.map_map, hadded,
      ← Option.map_map, hbelow n hn, Option.map_map]

end QueryTypes
