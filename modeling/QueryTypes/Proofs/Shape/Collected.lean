import QueryTypes.Proofs.Document.Walks
import QueryTypes.Proofs.Shape.Keys
import QueryTypes.Proofs.Shape.Undirected

/-!
# Collected fields

What is collected for a level is what a walk meets, so its entries are what a search finds: each
key where it comes first, with all fields that have it. For every object type that a composite type
stands for, an executor finds no other keys, and no unconditional entry is missing.
-/

namespace QueryTypes.Level

open Execution

variable {s : Schema} {table : Table Fragment} {visiting : List String} {parent : NamedType}
  {conditional : Bool} {ss : List Selection} {os : List Occurrence} {es : List Entry}
  {follow : Follow}

/-- What a spread contributes is what a walk meets in the fragment. -/
def Strolls (table : Table Fragment) (visiting : List String) (follow : Follow) : Prop :=
  ∀ parent conditional name os, follow parent conditional name = .ok os →
    name ∈ visiting ∧ os = [] ∨ name ∉ visiting ∧ ∃ f inner, table.get? name = some f ∧
      Walks table (name :: visiting) f.selections inner ∧ List.Forall₂ Occurrence.Of os inner

mutual
theorem Strolls.walks_selection (hfollow : Strolls table visiting follow) :
    (sel : Selection) → {parent : NamedType} → {conditional : Bool} → {os : List Occurrence} →
      occurrence s follow parent conditional sel = .ok os →
      ∃ inner, List.Forall₂ Occurrence.Of os inner ∧ ∀ rest nodes,
        Walks table visiting rest nodes → Walks table visiting (sel :: rest) (inner ++ nodes)
  | .field h b below, parent, conditional, os, hos => by
    obtain rfl := Except.ok.inj hos
    exact ⟨[⟨h, below⟩], .cons ⟨rfl, rfl, rfl⟩ .nil, fun _ _ hrest => .field hrest⟩
  | .spread n ds o, parent, conditional, os, hos => by
    rcases hfollow _ _ _ _ hos with ⟨hn, rfl⟩ | ⟨hn, f, inner, hf, hinner, hof⟩
    · exact ⟨[], .nil, fun _ _ hrest => .again hn hrest⟩
    · exact ⟨inner, hof, fun _ _ hrest => .spread hn hf hinner hrest⟩
  | .inline c ds below o, parent, conditional, os, hos => by
    rw [occurrence] at hos
    obtain ⟨target, -, hos⟩ := Outcome.bind_eq_ok_iff.1 hos
    obtain ⟨inner, hinner, hof⟩ := hfollow.walks_selections below hos
    exact ⟨inner, hof, fun _ _ hrest => .inline hinner hrest⟩

theorem Strolls.walks_selections (hfollow : Strolls table visiting follow) :
    (ss : List Selection) → {parent : NamedType} → {conditional : Bool} → {os : List Occurrence} →
      occurrences s follow parent conditional ss = .ok os →
      ∃ walked, Walks table visiting ss walked ∧ List.Forall₂ Occurrence.Of os walked
  | [], _, _, os, hos => by
    obtain rfl := Except.ok.inj hos
    exact ⟨[], .nil, .nil⟩
  | sel :: rest, _, _, os, hos => by
    rw [occurrences] at hos
    obtain ⟨here, hhere, hos⟩ := Outcome.bind_eq_ok_iff.1 hos
    obtain ⟨later, hlater, hos⟩ := Outcome.bind_eq_ok_iff.1 hos
    obtain rfl := Except.ok.inj hos
    obtain ⟨inner, hof, hcons⟩ := hfollow.walks_selection sel hhere
    obtain ⟨walked, hwalked, hof'⟩ := hfollow.walks_selections rest hlater
    exact ⟨inner ++ walked, hcons rest walked hwalked, List.rel_append hof hof'⟩
end

theorem Room.ne_zero {n : Nat} (h : Room table visiting n) : n ≠ 0 := by
  rintro rfl
  have hlength := (h.nodup.subperm h.known).length_le
  rw [Table.keys, List.length_map] at hlength
  exact absurd h.bound (by omega)

/-- With enough room everything that is collected is met on a walk, in the same order. -/
theorem exists_walks_of_collect {n : Nat} (hroom : Room table visiting n)
    (hos : collect s table n visiting parent conditional ss = .ok os) :
    ∃ walked, Walks table visiting ss walked ∧ List.Forall₂ Occurrence.Of os walked := by
  induction n generalizing visiting parent conditional ss os with
  | zero => exact absurd rfl hroom.ne_zero
  | succ n ih =>
    rw [collect_eq] at hos
    refine Strolls.walks_selections (fun parent conditional name os hos => ?_) ss hos
    rw [followOf] at hos
    by_cases hn : visiting.contains name = true
    · rw [if_pos hn] at hos
      exact .inl ⟨by simpa using hn, (Except.ok.inj hos).symm⟩
    · rw [if_neg hn] at hos
      cases hf : table.get? name with
      | none =>
        rw [hf] at hos
        exact absurd hos (by simp)
      | some f =>
        rw [hf] at hos
        obtain ⟨target, -, hos⟩ := Outcome.bind_eq_ok_iff.1 hos
        have hnew : name ∉ visiting := by simpa using hn
        obtain ⟨m, hm, hroom'⟩ := hroom.enter hnew hf
        obtain rfl := Nat.succ.inj hm
        obtain ⟨inner, hinner, hof⟩ := ih hroom' hos
        exact .inr ⟨hnew, f, inner, rfl, hinner, hof⟩

theorem map_key_of_forall₂ {walked : List FieldNode} (h : List.Forall₂ Occurrence.Of os walked) :
    os.map Occurrence.key = walked.map FieldNode.key := by
  induction h with
  | nil => rfl
  | cons hof _ ih => rw [List.map_cons, List.map_cons, hof.key, ih]

/-- The entry of some fields has the name of the first one and the selections of all. -/
theorem entry_of_forall₂ {walked : List FieldNode} {k : String} {e : Entry}
    (h : List.Forall₂ Occurrence.Of os walked) (he : entry k os = some e) :
    walked.head?.map (fun node => node.head.name) = some e.field ∧
      e.selections = walked.flatMap FieldNode.selections := by
  have hselections : os.flatMap Occurrence.selections = walked.flatMap FieldNode.selections := by
    clear he
    induction h with
    | nil => rfl
    | cons hof _ ih => rw [List.flatMap_cons, List.flatMap_cons, hof.selections, ih]
  cases h with
  | nil => simp [entry] at he
  | cons hof _ =>
    obtain rfl := Option.some.inj he
    exact ⟨congrArg some hof.field.symm, hselections⟩

/-- The entries of a level are what a walk meets, by key. -/
theorem exists_walks_of_entries (h : entries s table parent ss = .ok es) :
    ∃ walked, Walks table [] ss walked ∧
      es.map Entry.key = (walked.map FieldNode.key).eraseDups ∧
      ∀ e ∈ es, (walked.find? fun node => node.key == e.key).map (fun node => node.head.name) =
          some e.field ∧
        e.selections = (walked.filter fun node => node.key == e.key).flatMap FieldNode.selections := by
  obtain ⟨os, hos, hkeys, hgroups⟩ := exists_groups_of_entries h
  obtain ⟨walked, hwalked, hof⟩ := exists_walks_of_collect room_nil hos
  refine ⟨walked, hwalked, by rw [hkeys, map_key_of_forall₂ hof], fun e he => ?_⟩
  have hgroup : List.Forall₂ Occurrence.Of (os.filter fun o => o.key == e.key)
      (walked.filter fun node => node.key == e.key) :=
    List.rel_filter (fun o node hof => by simp [hof.key]) hof
  rw [← List.head?_filter]
  exact entry_of_forall₂ hgroup (hgroups e he)

theorem entries_of_undirected (h : entries s table parent ss = .ok es) :
    entries s table.undirected parent (Selection.allUndirected ss) =
      .ok (es.map Entry.undirected) := by
  rw [entries_undirected, h]
  rfl

/-- The fields of a level are collected as a search through the selections finds them, and as it
takes for every object type that the type of the level stands for. -/
theorem entries_collected (s : Schema) (table : Table Fragment) (parent : NamedType)
    (ss : List Selection) (es : List Entry) (hs : s.Distinct) (hparent : parent ∈ s.types)
    (h : entries s table parent ss = .ok es) :
    (∃ found seen, Searches table [] ss found seen ∧
      (∀ node, node ∈ found ↔ Way table (fun _ => true) ss node) ∧
      es.map Entry.key = (found.map FieldNode.key).eraseDups ∧
      ∀ e ∈ es, (found.find? fun node => node.key == e.key).map (fun node => node.head.name) =
        some e.field) ∧
    (∀ e ∈ es, ∃ nodes : List FieldNode, e.selections = nodes.flatMap FieldNode.selections ∧
      ∀ node, node ∈ nodes ↔ Way table (fun _ => true) ss node ∧ node.key = e.key) ∧
    ∀ t ∈ s.possibleTypes parent, ∀ values,
      (∃ nodes seen, Collects ⟨s, table.undirected, values⟩ t [] (Selection.allUndirected ss)
        nodes seen) ∧
      ∀ nodes seen, Collects ⟨s, table.undirected, values⟩ t [] (Selection.allUndirected ss)
          nodes seen →
        (∀ node ∈ nodes, ∃ e ∈ es, e.key = node.key) ∧
        ∀ e ∈ es, e.conditional = false → ∃ node ∈ nodes, node.key = e.key := by
  obtain ⟨walked, hwalked, hkeys, hes⟩ := exists_walks_of_entries h
  obtain ⟨hway, found, seen, hfound, hmem, hsame, hfind⟩ := hwalked.spec
  refine ⟨⟨found, seen, hfound, hmem, hkeys.trans hsame, ?_⟩, ?_, ?_⟩
  · intro e he
    rw [← hfind]
    exact (hes e he).1
  · intro e he
    refine ⟨walked.filter fun node => node.key == e.key, (hes e he).2, fun node => ?_⟩
    rw [List.mem_filter, hway, beq_iff_eq]
  · intro t ht values
    have hundirected := entries_of_undirected h
    obtain ⟨walked', hwalked', -⟩ := exists_walks_of_entries hundirected
    refine ⟨hwalked'.exists_collects (E := ⟨s, table.undirected, values⟩) t (by simp),
      fun nodes seen hnodes => ⟨fun node hnode => ?_, fun e he hconditional => ?_⟩⟩
    · obtain ⟨-, -, -, -, e, he, hkey⟩ := exists_entry_of_reaches
        (E := ⟨s, table.undirected, values⟩) hundirected (hnodes.reachesApart hnode)
      obtain ⟨e', he', rfl⟩ := List.mem_map.1 he
      exact ⟨e', he', hkey⟩
    · have hmerges := (merges_of_entries hundirected).1 _ (List.mem_map_of_mem he)
      obtain ⟨occ, hocc, hkey, hcertain⟩ := hmerges.conditional_iff.1 hconditional
      obtain ⟨node, hnode, hof, -⟩ := hocc.reaches (E := ⟨s, table.undirected, values⟩) hs
        (plain_undirected table ss) hparent hcertain (Schema.isA_of_mem_possibleTypes ht)
      exact ⟨node, hnodes.mem_iff.2 hnode, hof.key.symm.trans hkey⟩

open ShapeContext (plainType plainField onType spreadOf)

/-- Two fragments that spread each other, on a union and on one of its members. -/
def tangledSchema : Schema :=
  ⟨[plainType "Query" [("it", "It")], ⟨"It", none, .union ["A", "B"]⟩,
    plainType "A" [("a", "String")], plainType "B" [("b", "String")],
    ⟨"String", none, .scalar⟩], some "Query", none, none, []⟩

def tangledFragments : Table Fragment := [
  ("F", ⟨⟨"F", none⟩, ⟨"It", none⟩, [],
    [plainField "__typename" [], spreadOf "G", onType "B" [plainField "b" []]], none⟩),
  ("G", ⟨⟨"G", none⟩, ⟨"A", none⟩, [], [plainField "a" [], spreadOf "F"], none⟩)]

def tangledSelections : List Selection := [spreadOf "F", spreadOf "G", spreadOf "F"]

theorem entries_collected_tangled :
    ∃ es, entries tangledSchema tangledFragments ⟨"It", none, .union ["A", "B"]⟩
        tangledSelections = .ok es ∧
      es.map Entry.key = ["__typename", "a", "b"] ∧
      (∃ found seen, Searches tangledFragments [] tangledSelections found seen ∧
        (found.map FieldNode.key).eraseDups = ["__typename", "a", "b"]) ∧
      ∃ nodes seen, Collects ⟨tangledSchema, tangledFragments.undirected, fun _ => true⟩
        (plainType "A" [("a", "String")]) [] (Selection.allUndirected tangledSelections) nodes seen ∧
        ∃ node ∈ nodes, node.key = "__typename" := by
  obtain ⟨es, hes, hkeys, hfirst⟩ : ∃ es, entries tangledSchema tangledFragments
      ⟨"It", none, .union ["A", "B"]⟩ tangledSelections = .ok es ∧
      es.map Entry.key = ["__typename", "a", "b"] ∧
      es.head?.map (fun e => (e.key, e.conditional)) = some ("__typename", false) :=
    ⟨_, rfl, rfl, rfl⟩
  obtain ⟨⟨found, seen, hfound, -, hsame, -⟩, -, hcollects⟩ := entries_collected tangledSchema
    tangledFragments _ tangledSelections es (by decide) (List.mem_of_getElem? (i := 1) rfl) hes
  obtain ⟨⟨nodes, seen', hnodes⟩, hall⟩ := hcollects (plainType "A" [("a", "String")])
    List.mem_cons_self (fun _ => true)
  obtain ⟨e, he, hpair⟩ := Option.map_eq_some_iff.1 hfirst
  obtain ⟨hkey, hcertain⟩ := Prod.mk.inj hpair
  obtain ⟨node, hnode, hname⟩ := (hall nodes seen' hnodes).2 e (List.mem_of_head? he) hcertain
  exact ⟨es, hes, hkeys, ⟨found, seen, hfound, hsame.symm.trans hkeys⟩, nodes, seen', hnodes, node,
    hnode, hname.trans hkey⟩

end QueryTypes.Level
