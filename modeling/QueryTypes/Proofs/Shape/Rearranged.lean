import QueryTypes.Output.Types
import QueryTypes.Proofs.Document.Uses
import QueryTypes.Proofs.Outcome
import QueryTypes.Proofs.Shape.Depth

/-!
# Definitions in another order

What is built for a definition depends on the fragments only through their names. So the definitions
may come in any order: the same modules are built, in another order.
-/

namespace QueryTypes

/-- The same operations and the same fragments under the same names, in any order. -/
structure Document.Rearranges (d d' : Document) : Prop where
  operations : d.operations.Perm d'.operations
  fragments : d.fragmentTable.Perm d'.fragmentTable

/-- Fragments with names of their own may stand in any order. -/
theorem Document.Rearranges.of_perm {d d' : Document} (hnames : d.fragmentNames.Nodup)
    (hoperations : d.operations.Perm d'.operations) (hfragments : d.fragments.Perm d'.fragments) :
    d.Rearranges d' where
  operations := hoperations
  fragments := by
    have hperm : d.fragmentNames.Perm d'.fragmentNames := hfragments.map _
    rw [fragmentTable_eq hnames, fragmentTable_eq (hperm.nodup_iff.1 hnames)]
    exact hfragments.map _

namespace Level

variable {s : Schema} {table table' : Table Fragment}

theorem collect_congr (h : ∀ name, table.get? name = table'.get? name) (n : Nat)
    (visiting : List String) : collect s table n visiting = collect s table' n visiting := by
  induction n generalizing visiting with
  | zero => rfl
  | succ n ih => simp only [collect, h, ih]

theorem entries_of_perm (hkeys : table.keys.Nodup) (hperm : table.Perm table') :
    entries s table = entries s table' := by
  funext parent ss
  rw [entries, entries, hperm.length_eq, collect_congr (Table.get?_of_perm hkeys hperm)]

end Level

namespace ShapeContext

variable {cx cx' : ShapeContext}

/-- The same schema and scalars, and the same fragments in any order. -/
structure Rearranges (cx cx' : ShapeContext) : Prop where
  schema : cx'.schema = cx.schema
  scalars : cx'.scalars = cx.scalars
  keys : cx.fragments.keys.Nodup
  fragments : cx.fragments.Perm cx'.fragments

theorem Rearranges.exists_eq (h : cx.Rearranges cx') :
    ∃ table, cx.fragments.Perm table ∧ cx' = { cx with fragments := table } := by
  obtain ⟨schema, fragments, scalars⟩ := cx'
  obtain ⟨rfl, rfl, -, hperm⟩ := h
  exact ⟨fragments, hperm, rfl⟩

theorem objects_rearranged (h : cx.Rearranges cx') (n : Nat) (name : String) (parent : NamedType)
    (ss : List Selection) : cx'.objects n name parent ss = cx.objects n name parent ss := by
  obtain ⟨table, hperm, rfl⟩ := h.exists_eq
  induction n generalizing name parent ss with
  | zero => rw [objects, objects]
  | succ n ih =>
    simp only [objects, ih, Level.entries_of_perm h.keys hperm]
    rfl

theorem depth_rearranged (h : cx.Rearranges cx') (ss : List Selection) :
    cx'.depth ss = cx.depth ss :=
  (depth_congr rfl rfl fun n _ => by rw [Table.get?_of_perm h.keys h.fragments]).symm

theorem operation_rearranged (h : cx.Rearranges cx') (o : Operation) :
    cx'.operation o = cx.operation o := by
  simp only [operation, depth_rearranged h, objects_rearranged h]
  obtain ⟨table, -, rfl⟩ := h.exists_eq
  rfl

theorem fragment_rearranged (h : cx.Rearranges cx') (f : Fragment) :
    cx'.fragment f = cx.fragment f := by
  simp only [fragment, depth_rearranged h, objects_rearranged h]
  obtain ⟨table, -, rfl⟩ := h.exists_eq
  rfl

end ShapeContext

namespace Types

/-- In another order the definitions have the same modules. -/
theorem exists_modules_rearranged {cx cx' : ShapeContext} {d d' : Document} {ms : List ModuleShape}
    (hcx : cx.Rearranges cx') (hoperations : d.operations.Perm d'.operations)
    (h : modules cx d = .ok ms) : ∃ ms', modules cx' d' = .ok ms' ∧ ms.Perm ms' := by
  obtain ⟨operations, hops, h⟩ := Outcome.bind_eq_ok_iff.1 h
  obtain ⟨fragments, hfrags, h⟩ := Outcome.bind_eq_ok_iff.1 h
  obtain rfl := Except.ok.inj h
  obtain ⟨operations', hops', hopsperm⟩ := Outcome.exists_perm_of_mapM hoperations hops
  obtain ⟨fragments', hfrags', hfragsperm⟩ :=
    Outcome.exists_perm_of_mapM (hcx.fragments.map Prod.snd) hfrags
  refine ⟨operations' ++ fragments', ?_, hopsperm.append hfragsperm⟩
  have hoperation : cx'.operation = cx.operation := funext (ShapeContext.operation_rearranged hcx)
  have hfragment : cx'.fragment = cx.fragment := funext (ShapeContext.fragment_rearranged hcx)
  rw [modules, hoperation, hfragment, hops']
  change (cx'.fragments.values.mapM cx.fragment >>= _) = _
  rw [Table.values, hfrags']
  rfl

end Types
end QueryTypes
