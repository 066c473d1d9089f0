import Mathlib.Data.List.Nodup
import QueryTypes.Validation.Visit

/-!
# Types by name

Types are found by their names, and an object of one type counts as an object of the abstract
types that cover it. What a composite type stands for are objects of that type.
-/

namespace QueryTypes.Schema

/-- Types have distinct names. -/
def Distinct (s : Schema) : Prop := (s.types.map NamedType.name).Nodup

instance (s : Schema) : Decidable s.Distinct := inferInstanceAs (Decidable (List.Nodup _))

/-- Whether objects of the first type are objects of the second one. -/
def isA (s : Schema) (t u : NamedType) : Bool :=
  u.name == t.name || u.isAbstract && s.covers u t

variable {s : Schema} {t u v : NamedType} {n : String}

theorem mem_of_type? (h : s.type? n = some t) : t ∈ s.types :=
  List.mem_of_find?_eq_some h

theorem name_of_type? (h : s.type? n = some t) : t.name = n := by
  have hname := List.find?_some h
  simpa using hname

theorem Distinct.eq_of_name (hs : s.Distinct) (ht : t ∈ s.types) (hu : u ∈ s.types)
    (h : t.name = u.name) : t = u :=
  List.inj_on_of_nodup_map hs ht hu h

theorem Distinct.type?_name (hs : s.Distinct) (ht : t ∈ s.types) : s.type? t.name = some t := by
  cases hfound : s.type? t.name with
  | none =>
    have hnone := List.find?_eq_none.1 hfound t ht
    simp at hnone
  | some u => rw [hs.eq_of_name (mem_of_type? hfound) ht (name_of_type? hfound)]

theorem composite?_eq_some_iff :
    s.composite? n = some t ↔ s.type? n = some t ∧ t.isComposite = true := by
  rw [composite?, Option.filter_eq_some_iff]

theorem mem_of_composite? (h : s.composite? n = some t) : t ∈ s.types :=
  mem_of_type? (composite?_eq_some_iff.1 h).1

theorem mem_of_rootType? {k : OperationKind} (h : s.rootType? k = some t) : t ∈ s.types := by
  rw [rootType?, Option.bind_eq_some_iff] at h
  obtain ⟨n, -, hn⟩ := h
  exact mem_of_type? hn

theorem isA_iff :
    s.isA t u = true ↔ u.name = t.name ∨ u.isAbstract = true ∧ s.covers u t = true := by
  rw [isA, Bool.or_eq_true, Bool.and_eq_true, beq_iff_eq]

theorem isA_self : s.isA t t = true := isA_iff.2 (.inl rfl)

theorem covers_congr (h : t.name = v.name) : s.covers u t = s.covers u v := by
  rw [covers, covers, h]

theorem not_isAbstract_of_isObject (h : t.isObject = true) : t.isAbstract = false := by
  obtain ⟨name, description, body⟩ := t
  cases body <;>
    simp_all [NamedType.isObject, NamedType.isAbstract, NamedType.isInterface, NamedType.isUnion]

theorem Distinct.covers_interface_iff (hs : s.Distinct) (ht : t ∈ s.types)
    (hc : t.isComposite = true) (hu : u.isInterface = true) :
    s.covers u t = true ↔ u.name ∈ t.interfaces := by
  obtain ⟨name, description, body⟩ := u
  cases body with
  | interface is fs =>
    rw [covers, List.any_eq_true]
    constructor
    · rintro ⟨w, hw, h⟩
      rw [Bool.and_eq_true, Bool.and_eq_true, beq_iff_eq] at h
      obtain rfl := hs.eq_of_name hw ht h.1.1
      simpa using h.2
    · intro h
      exact ⟨t, ht, by simp [hc, h]⟩
  | scalar => simp [NamedType.isInterface] at hu
  | object is fs => simp [NamedType.isInterface] at hu
  | union ms => simp [NamedType.isInterface] at hu
  | enum vs => simp [NamedType.isInterface] at hu
  | input fs => simp [NamedType.isInterface] at hu

theorem isA_of_mem_possibleTypes (h : t ∈ s.possibleTypes u) : s.isA t u = true := by
  obtain ⟨name, description, body⟩ := u
  cases body with
  | object is fs =>
    obtain rfl := List.mem_singleton.1 h
    exact isA_self
  | interface is fs =>
    obtain ⟨ht, h⟩ := List.mem_filter.1 h
    rw [Bool.and_eq_true] at h
    refine isA_iff.2 (.inr ⟨rfl, List.any_eq_true.2 ⟨t, ht, ?_⟩⟩)
    simpa [NamedType.isComposite, h.1] using h.2
  | union ms =>
    obtain ⟨n, hn, ht⟩ := List.mem_filterMap.1 h
    refine isA_iff.2 (.inr ⟨rfl, ?_⟩)
    simp [covers, name_of_type? ht, hn]
  | scalar => simp [possibleTypes] at h
  | enum vs => simp [possibleTypes] at h
  | input fs => simp [possibleTypes] at h

theorem mem_of_mem_possibleTypes (hu : u ∈ s.types) (h : t ∈ s.possibleTypes u) : t ∈ s.types := by
  obtain ⟨name, description, body⟩ := u
  cases body with
  | object is fs =>
    obtain rfl := List.mem_singleton.1 h
    exact hu
  | interface is fs => exact (List.mem_filter.1 h).1
  | union ms =>
    obtain ⟨n, -, ht⟩ := List.mem_filterMap.1 h
    exact mem_of_type? ht
  | scalar => simp [possibleTypes] at h
  | enum vs => simp [possibleTypes] at h
  | input fs => simp [possibleTypes] at h

end QueryTypes.Schema
