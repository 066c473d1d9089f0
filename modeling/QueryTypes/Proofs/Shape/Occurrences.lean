import Mathlib.Data.List.Perm.Subperm
import QueryTypes.Proofs.Execution.Collect
import QueryTypes.Proofs.Outcome
import QueryTypes.Proofs.Table
import QueryTypes.Shape.Level

/-!
# Occurrences on a level

The fields that are collected for a level of an object type are those that some way leads to,
whatever conditions stand on it. What an executor reaches on an object is among them, and what
occurs without a condition is reached on every object.
-/

namespace QueryTypes.Level

/-- A way to a field that enters no fragment inside itself, with the type and the condition that
it ends on. -/
inductive Occurs (s : Schema) (table : Table Fragment) :
    List String → NamedType → Bool → List Selection → Occurrence → Prop
  | field {visiting : List String} {parent : NamedType} {conditional : Bool}
      {ss below : List Selection} {h : FieldHead} {b : Option Origin} :
      .field h b below ∈ ss →
        Occurs s table visiting parent conditional ss ⟨h.key, h.name, parent, below, conditional⟩
  | inline {visiting : List String} {parent target : NamedType} {conditional : Bool}
      {ss below : List Selection} {c : Option Name} {ds : List Directive} {o : Option Origin}
      {occ : Occurrence} :
      .inline c ds below o ∈ ss → conditionType s parent (c.map Name.text) = .ok target →
        Occurs s table visiting target (conditional || !alwaysApplies s target parent) below occ →
        Occurs s table visiting parent conditional ss occ
  | spread {visiting : List String} {parent target : NamedType} {conditional : Bool}
      {ss : List Selection} {n : Name} {ds : List Directive} {o : Option Origin} {f : Fragment}
      {occ : Occurrence} :
      .spread n ds o ∈ ss → n.text ∉ visiting → table.get? n.text = some f →
        conditionType s parent (some f.condition.text) = .ok target →
        Occurs s table (n.text :: visiting) target
          (conditional || !alwaysApplies s target parent) f.selections occ →
        Occurs s table visiting parent conditional ss occ

variable {s : Schema} {table : Table Fragment} {visiting : List String} {parent : NamedType}
  {conditional : Bool} {ss ss' : List Selection} {occ : Occurrence} {follow : Follow}

theorem Occurs.mono (h : Occurs s table visiting parent conditional ss occ)
    (hss : ∀ sel ∈ ss, sel ∈ ss') : Occurs s table visiting parent conditional ss' occ := by
  cases h with
  | field hmem => exact .field (hss _ hmem)
  | inline hmem ht ho => exact .inline (hss _ hmem) ht ho
  | spread hmem hn hf ht ho => exact .spread (hss _ hmem) hn hf ht ho

/-- What the spread of a fragment contributes, with so many fragments left to enter. -/
def followOf (s : Schema) (table : Table Fragment) :
    Nat → List String → NamedType → Bool → String → Except ShapeError (List Occurrence)
  | 0, _, _, _, _ => .ok []
  | n + 1, visiting, parent, conditional, name =>
    if visiting.contains name then .ok []
    else match table.get? name with
      | none => .error (.unknownFragment name)
      | some f => do
        let target ← conditionType s parent (some f.condition.text)
        collect s table n (name :: visiting) target
          (conditional || !alwaysApplies s target parent) f.selections

theorem collect_eq (n : Nat) : collect s table n visiting =
    occurrences s (followOf s table n visiting) := by
  cases n <;> rfl

theorem exists_of_occurrences {os : List Occurrence}
    (h : occurrences s follow parent conditional ss = .ok os) :
    ∀ sel ∈ ss, ∃ here, occurrence s follow parent conditional sel = .ok here := by
  induction ss generalizing os with
  | nil => simp
  | cons sel ss ih =>
    rw [occurrences] at h
    obtain ⟨here, hhere, h⟩ := Outcome.bind_eq_ok_iff.1 h
    obtain ⟨rest, hrest, -⟩ := Outcome.bind_eq_ok_iff.1 h
    intro sel' hsel'
    rcases List.mem_cons.1 hsel' with rfl | hsel'
    · exact ⟨here, hhere⟩
    · exact ih hrest sel' hsel'

theorem mem_occurrences_iff {os : List Occurrence}
    (h : occurrences s follow parent conditional ss = .ok os) :
    occ ∈ os ↔ ∃ sel ∈ ss, ∃ here, occurrence s follow parent conditional sel = .ok here ∧
      occ ∈ here := by
  induction ss generalizing os with
  | nil =>
    obtain rfl := Except.ok.inj h
    simp
  | cons sel ss ih =>
    rw [occurrences] at h
    obtain ⟨here, hhere, h⟩ := Outcome.bind_eq_ok_iff.1 h
    obtain ⟨rest, hrest, h⟩ := Outcome.bind_eq_ok_iff.1 h
    obtain rfl := Except.ok.inj h
    rw [List.mem_append, ih hrest]
    simp [hhere]

/-- What a spread contributes comes from a fragment that was not entered yet. -/
def Enters (s : Schema) (table : Table Fragment) (visiting : List String) (follow : Follow) :
    Prop :=
  ∀ parent conditional name os occ, follow parent conditional name = .ok os → occ ∈ os →
    name ∉ visiting ∧ ∃ f target, table.get? name = some f ∧
      conditionType s parent (some f.condition.text) = .ok target ∧
      Occurs s table (name :: visiting) target
        (conditional || !alwaysApplies s target parent) f.selections occ

mutual
theorem Enters.occurs_of_mem_occurrence (hfollow : Enters s table visiting follow) :
    (sel : Selection) → {parent : NamedType} → {conditional : Bool} → {os : List Occurrence} →
      occurrence s follow parent conditional sel = .ok os → occ ∈ os →
      Occurs s table visiting parent conditional [sel] occ
  | .field h b below, parent, conditional, os, hos, hocc => by
    obtain rfl := Except.ok.inj hos
    obtain rfl := List.mem_singleton.1 hocc
    exact .field (b := b) List.mem_cons_self
  | .spread n ds o, parent, conditional, os, hos, hocc => by
    obtain ⟨hn, f, target, hf, ht, ho⟩ := hfollow _ _ _ _ _ hos hocc
    have hmem : Selection.spread n ds o ∈ [Selection.spread n ds o] := List.mem_cons_self
    exact .spread hmem hn hf ht ho
  | .inline c ds below o, parent, conditional, os, hos, hocc => by
    rw [occurrence] at hos
    obtain ⟨target, ht, hos⟩ := Outcome.bind_eq_ok_iff.1 hos
    exact .inline List.mem_cons_self ht (hfollow.occurs_of_mem_occurrences below hos hocc)

theorem Enters.occurs_of_mem_occurrences (hfollow : Enters s table visiting follow) :
    (ss : List Selection) → {parent : NamedType} → {conditional : Bool} → {os : List Occurrence} →
      occurrences s follow parent conditional ss = .ok os → occ ∈ os →
      Occurs s table visiting parent conditional ss occ
  | [], _, _, os, hos, hocc => by
    obtain rfl := Except.ok.inj hos
    simp at hocc
  | sel :: rest, _, _, os, hos, hocc => by
    rw [occurrences] at hos
    obtain ⟨here, hhere, hos⟩ := Outcome.bind_eq_ok_iff.1 hos
    obtain ⟨later, hlater, hos⟩ := Outcome.bind_eq_ok_iff.1 hos
    obtain rfl := Except.ok.inj hos
    rcases List.mem_append.1 hocc with hocc | hocc
    · exact (hfollow.occurs_of_mem_occurrence sel hhere hocc).mono (by simp)
    · exact (hfollow.occurs_of_mem_occurrences rest hlater hocc).mono
        fun _ hmem => List.mem_cons_of_mem _ hmem
end

theorem enters_followOf (n : Nat) (visiting : List String) :
    Enters s table visiting (followOf s table n visiting) := by
  induction n generalizing visiting with
  | zero =>
    intro parent conditional name os occ hos hocc
    obtain rfl := Except.ok.inj hos
    simp at hocc
  | succ n ih =>
    intro parent conditional name os occ hos hocc
    rw [followOf] at hos
    by_cases hn : visiting.contains name = true
    · rw [if_pos hn] at hos
      obtain rfl := Except.ok.inj hos
      simp at hocc
    · rw [if_neg hn] at hos
      cases hf : table.get? name with
      | none =>
        rw [hf] at hos
        exact absurd hos (by simp)
      | some f =>
        rw [hf] at hos
        obtain ⟨target, ht, hos⟩ := Outcome.bind_eq_ok_iff.1 hos
        rw [collect_eq] at hos
        exact ⟨by simpa using hn, f, target, rfl, ht,
          (ih _).occurs_of_mem_occurrences f.selections hos hocc⟩

/-- With so many fragments left to enter, no way to a field is cut short. -/
structure Room (table : Table Fragment) (visiting : List String) (n : Nat) : Prop where
  nodup : visiting.Nodup
  known : ∀ name ∈ visiting, name ∈ table.keys
  bound : table.length < visiting.length + n

theorem room_nil : Room table [] (table.length + 1) := ⟨List.nodup_nil, by simp, by simp⟩

theorem Room.enter {name : String} {f : Fragment} {n : Nat} (h : Room table visiting n)
    (hnew : name ∉ visiting) (hf : table.get? name = some f) :
    ∃ m, n = m + 1 ∧ Room table (name :: visiting) m := by
  have hnodup : (name :: visiting).Nodup := List.nodup_cons.2 ⟨hnew, h.nodup⟩
  have hknown : ∀ m ∈ name :: visiting, m ∈ table.keys := by
    intro m hm
    rcases List.mem_cons.1 hm with rfl | hm
    · exact Table.mem_keys_of_get? hf
    · exact h.known m hm
  have hlength := (hnodup.subperm hknown).length_le
  rw [Table.keys, List.length_map, List.length_cons] at hlength
  have hbound := h.bound
  cases n with
  | zero => omega
  | succ m => exact ⟨m, rfl, hnodup, hknown, by rw [List.length_cons]; omega⟩

theorem Occurs.mem_collect (h : Occurs s table visiting parent conditional ss occ) {n : Nat}
    (hroom : Room table visiting n) {os : List Occurrence}
    (hos : collect s table n visiting parent conditional ss = .ok os) : occ ∈ os := by
  induction h generalizing n os with
  | field hmem =>
    rw [collect_eq] at hos
    exact (mem_occurrences_iff hos).2 ⟨_, hmem, _, rfl, List.mem_cons_self⟩
  | inline hmem ht _ ih =>
    rw [collect_eq] at hos
    obtain ⟨here, hhere⟩ := exists_of_occurrences hos _ hmem
    refine (mem_occurrences_iff hos).2 ⟨_, hmem, here, hhere, ?_⟩
    rw [occurrence, ht] at hhere
    apply ih hroom
    rw [collect_eq]
    exact hhere
  | spread hmem hn hf ht _ ih =>
    rw [collect_eq] at hos
    obtain ⟨here, hhere⟩ := exists_of_occurrences hos _ hmem
    refine (mem_occurrences_iff hos).2 ⟨_, hmem, here, hhere, ?_⟩
    obtain ⟨m, rfl, hroom'⟩ := hroom.enter hn hf
    rw [occurrence, followOf, if_neg (by simpa using hn), hf] at hhere
    obtain ⟨target, ht', hhere⟩ := Outcome.bind_eq_ok_iff.1 hhere
    rw [ht] at ht'
    obtain rfl := Except.ok.inj ht'
    exact ih hroom' hhere

/-- The fields that are collected for a level are those that occur on it. -/
theorem mem_collect_iff {os : List Occurrence}
    (hos : collect s table (table.length + 1) [] parent conditional ss = .ok os) :
    occ ∈ os ↔ Occurs s table [] parent conditional ss occ := by
  constructor
  · intro hocc
    rw [collect_eq] at hos
    exact (enters_followOf _ _).occurs_of_mem_occurrences ss hos hocc
  · intro h
    exact h.mem_collect room_nil hos

end QueryTypes.Level
