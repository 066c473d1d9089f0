import QueryTypes.Proofs.Schema.Types
import QueryTypes.Schema.Integrity

/-!
# What a sound schema keeps to

In a schema without complaints an object has every field of the types that it is one of, and what
it has there is a value of the type that they promise.
-/

namespace QueryTypes.Schema

open Integrity

variable {s : Schema} {t u i p : NamedType} {n name : String} {d : Field}

/-- What integrity asks of a single type. -/
structure Upright (s : Schema) (t : NamedType) : Prop where
  fields : t.isObject = true ∨ t.isInterface = true → fieldComplaints s t = []
  interfaces : t.isObject = true ∨ t.isInterface = true → interfaceComplaints s t = []
  members : t.isUnion = true → memberComplaints s t = []

theorem upright_of_leaf (ho : t.isObject = false) (hi : t.isInterface = false)
    (hu : t.isUnion = true → memberComplaints s t = []) : Upright s t where
  fields h := by simp [ho, hi] at h
  interfaces h := by simp [ho, hi] at h
  members := hu

theorem upright_of_cons {ts : List NamedType} {visited : List String}
    (h : typeComplaints s visited (t :: ts) = []) :
    Upright s t ∧ ∃ visited', typeComplaints s visited' ts = [] := by
  obtain ⟨name, description, body⟩ := t
  cases body with
  | scalar =>
    rw [typeComplaints, List.append_eq_nil_iff] at h
    exact ⟨upright_of_leaf rfl rfl (by simp [NamedType.isUnion]), _, h.2⟩
  | object is fs =>
    simp only [typeComplaints, List.append_eq_nil_iff] at h
    exact ⟨⟨fun _ => h.1.1.2, fun _ => h.1.2, by simp [NamedType.isUnion]⟩, _, h.2⟩
  | interface is fs =>
    simp only [typeComplaints, List.append_eq_nil_iff] at h
    exact ⟨⟨fun _ => h.1.1.2, fun _ => h.1.2, by simp [NamedType.isUnion]⟩, _, h.2⟩
  | union ms =>
    simp only [typeComplaints, List.append_eq_nil_iff] at h
    exact ⟨upright_of_leaf rfl rfl fun _ => h.1.2, _, h.2⟩
  | enum vs =>
    simp only [typeComplaints, List.append_eq_nil_iff] at h
    exact ⟨upright_of_leaf rfl rfl (by simp [NamedType.isUnion]), _, h.2⟩
  | input fs =>
    simp only [typeComplaints, List.append_eq_nil_iff] at h
    exact ⟨upright_of_leaf rfl rfl (by simp [NamedType.isUnion]), _, h.2⟩

theorem upright_of_typeComplaints {ts : List NamedType} {visited : List String}
    (h : typeComplaints s visited ts = []) (ht : t ∈ ts) : Upright s t := by
  induction ts generalizing visited with
  | nil => simp at ht
  | cons u ts ih =>
    obtain ⟨hu, visited', hrest⟩ := upright_of_cons h
    rcases List.mem_cons.1 ht with rfl | ht
    · exact hu
    · exact ih hrest ht

theorem upright_of_complaints (h : s.complaints = []) (ht : t ∈ s.types) : Upright s t := by
  rw [complaints, List.append_eq_nil_iff] at h
  exact upright_of_typeComplaints h.2 ht

theorem name_of_fieldComplaints (h : fieldComplaints s t = []) (hd : d ∈ t.fields) :
    nameComplaints d.name = [] := by
  rw [fieldComplaints, List.append_eq_nil_iff, List.flatMap_eq_nil_iff] at h
  have hfield := h.2 d hd
  rw [List.append_eq_nil_iff, List.append_eq_nil_iff] at hfield
  exact hfield.1.1

theorem promises_of_go {seen names : List String} (h : interfaceComplaints.go s t seen names = [])
    (hn : n ∈ names) : ∃ i, s.type? n = some i ∧ i.isInterface = true ∧
      ancestorPromises t i = [] ∧ fieldPromises s t i = [] := by
  induction names generalizing seen with
  | nil => simp at hn
  | cons m rest ih =>
    rw [interfaceComplaints.go] at h
    cases hi : (s.type? m).filter NamedType.isInterface with
    | none =>
      rw [hi] at h
      exact absurd h (by simp)
    | some i =>
      obtain ⟨hm, hinterface⟩ := Option.filter_eq_some_iff.1 hi
      rw [hi] at h
      by_cases hseen : m ∈ seen
      · simp [hseen] at h
      · simp only [List.contains_iff_mem, if_neg hseen, List.append_eq_nil_iff] at h
        rcases List.mem_cons.1 hn with rfl | hn
        · exact ⟨i, hm, hinterface, h.2.1.1, h.2.1.2⟩
        · exact ih h.2.2 hn

theorem isObject_of_go {seen names : List String} (h : memberComplaints.go s t seen names = [])
    (hn : n ∈ names) : (s.type? n).any NamedType.isObject = true := by
  induction names generalizing seen with
  | nil => simp at hn
  | cons m rest ih =>
    rw [memberComplaints.go] at h
    by_cases hm : (s.type? m).any NamedType.isObject = true
    · by_cases hseen : m ∈ seen
      · simp [hm, hseen] at h
      · rw [if_neg (by simp [hm]), if_neg (by simpa using hseen)] at h
        rcases List.mem_cons.1 hn with rfl | hn
        · exact hm
        · exact ih h hn
    · rw [if_pos (by simpa using hm)] at h
      exact absurd h (by simp)

theorem field_of_fieldPromises (h : fieldPromises s t i = []) (hd : i.field? name = some d) :
    ∃ own, t.field? name = some own ∧ s.isSubtype own.type d.type = true := by
  have hname : d.name = name := by simpa using List.find?_some hd
  have hmem : d ∈ i.fields := List.mem_of_find?_eq_some hd
  rw [fieldPromises, List.flatMap_eq_nil_iff] at h
  have hpromise := h d hmem
  rw [hname] at hpromise
  cases hown : t.field? name with
  | none =>
    rw [hown] at hpromise
    exact absurd hpromise (by simp)
  | some own =>
    rw [hown] at hpromise
    simp only [List.append_eq_nil_iff] at hpromise
    refine ⟨own, rfl, ?_⟩
    by_contra hsub
    simp [hsub] at hpromise

theorem interfaces_of_ancestorPromises (h : ancestorPromises t i = []) (hn : n ∈ i.interfaces) :
    n ∈ t.interfaces := by
  rw [ancestorPromises, List.map_eq_nil_iff, List.filter_eq_nil_iff] at h
  simpa using h n hn

theorem isSubtype_self (x : TypeRef) : s.isSubtype x x = true := by
  induction x with
  | named n r => cases r <;> simp [isSubtype]
  | list x r ih => cases r <;> simp [isSubtype, ih]

theorem isObject_of_rootType? {k : OperationKind} (h : s.complaints = [])
    (ht : s.rootType? k = some t) : t.isObject = true := by
  rw [complaints, List.append_eq_nil_iff, List.append_eq_nil_iff] at h
  have hroots := h.1.1
  simp only [rootComplaints, List.append_eq_nil_iff, List.map_eq_nil_iff, Option.toList_eq_nil_iff,
    Option.filter_eq_none_iff] at hroots
  rw [rootType?, Option.bind_eq_some_iff] at ht
  obtain ⟨n, hn, ht⟩ := ht
  cases k with
  | query => simpa [ht] using hroots.1.1.2 n hn
  | mutation => simpa [ht] using hroots.1.2 n hn
  | subscription => simpa [ht] using hroots.2 n hn

theorem isObject_of_mem_possibleTypes (h : s.complaints = []) (hu : u ∈ s.types)
    (ht : t ∈ s.possibleTypes u) : t.isObject = true := by
  have hup := upright_of_complaints h hu
  obtain ⟨name, description, body⟩ := u
  cases body with
  | object is fs =>
    obtain rfl := List.mem_singleton.1 ht
    rfl
  | interface is fs =>
    have hboth := (List.mem_filter.1 ht).2
    rw [Bool.and_eq_true] at hboth
    exact hboth.1
  | union ms =>
    obtain ⟨n, hn, ht⟩ := List.mem_filterMap.1 ht
    have hmembers := hup.members rfl
    rw [memberComplaints, List.append_eq_nil_iff] at hmembers
    simpa [ht] using isObject_of_go hmembers.2 hn
  | scalar => simp [possibleTypes] at ht
  | enum vs => simp [possibleTypes] at ht
  | input fs => simp [possibleTypes] at ht

/-- No declared field has one of the names that introspection uses. -/
theorem not_reserved (h : s.complaints = []) (ht : t ∈ s.types) (hd : t.field? name = some d) :
    "__".isPrefixOf name = false := by
  have hname : d.name = name := by simpa using List.find?_some hd
  have hmem : d ∈ t.fields := List.mem_of_find?_eq_some hd
  have hkind : t.isObject = true ∨ t.isInterface = true := by
    obtain ⟨n, description, body⟩ := t
    cases body <;> simp_all [NamedType.fields, NamedType.isObject, NamedType.isInterface]
  have hcomplaints := name_of_fieldComplaints ((upright_of_complaints h ht).fields hkind) hmem
  rw [hname, nameComplaints] at hcomplaints
  by_contra hreserved
  simp [hreserved] at hcomplaints

theorem fieldOf?_of_field? (h : s.complaints = []) (ht : t ∈ s.types)
    (hd : t.field? name = some d) : s.fieldOf? t name = some d := by
  have hreserved := not_reserved h ht hd
  have hne : ∀ m, "__".isPrefixOf m = true → name ≠ m := by
    rintro m hm rfl
    rw [hreserved] at hm
    exact absurd hm (by simp)
  rw [fieldOf?, if_neg fun hc => hne _ (by decide +kernel) hc.1,
    if_neg fun hc => hne _ (by decide +kernel) hc.1,
    if_neg (hne _ (by decide +kernel)), hd]

/-- What can be asked of an abstract type: its name, or one of its own fields. -/
theorem fieldOf?_abstract (hs : s.Distinct) (h : s.complaints = []) (hp : p ∈ s.types)
    (habs : p.isAbstract = true) (hd : s.fieldOf? p name = some d) :
    name = "__typename" ∧ d = Builtin.typenameField ∨ p.field? name = some d := by
  have hroot : (s.query == some p.name) = false := by
    by_contra hquery
    have hquery : s.query = some p.name := by simpa using hquery
    have hobject := isObject_of_rootType? (k := .query) h (t := p) (by
      rw [rootType?, root, hquery, Option.bind_some, hs.type?_name hp])
    rw [not_isAbstract_of_isObject hobject] at habs
    exact absurd habs (by simp)
  simp only [fieldOf?, hroot, Bool.false_eq_true, and_false, if_false] at hd
  by_cases hname : name = "__typename"
  · rw [if_pos hname] at hd
    exact .inl ⟨hname, (Option.some.inj hd).symm⟩
  · rw [if_neg hname] at hd
    exact .inr hd

theorem fieldOf?_typename : s.fieldOf? t "__typename" = some Builtin.typenameField := by
  simp [fieldOf?]

theorem isInterface_of_field? (habs : p.isAbstract = true) (hd : p.field? name = some d) :
    p.isInterface = true := by
  have hmem : d ∈ p.fields := List.mem_of_find?_eq_some hd
  obtain ⟨n, description, body⟩ := p
  cases body <;>
    simp_all [NamedType.fields, NamedType.isAbstract, NamedType.isInterface, NamedType.isUnion]

/-- An object has every field of the types that it is one of, with a type that fits. -/
theorem field_of_isA (hs : s.Distinct) (h : s.complaints = []) (ht : t ∈ s.types)
    (hto : t.isObject = true) (hp : p ∈ s.types) (ha : s.isA t p = true)
    (hd : s.fieldOf? p name = some d) :
    ∃ own, s.fieldOf? t name = some own ∧ s.isSubtype own.type d.type = true := by
  rcases isA_iff.1 ha with hname | ⟨habs, hcovers⟩
  · obtain rfl := hs.eq_of_name hp ht hname
    exact ⟨d, hd, isSubtype_self _⟩
  · rcases fieldOf?_abstract hs h hp habs hd with ⟨rfl, rfl⟩ | hd
    · exact ⟨_, fieldOf?_typename, isSubtype_self _⟩
    · have hinterface := isInterface_of_field? habs hd
      have hcomposite : t.isComposite = true := by simp [NamedType.isComposite, hto]
      have himplements := (hs.covers_interface_iff ht hcomposite hinterface).1 hcovers
      obtain ⟨i, hi, -, -, hpromises⟩ :=
        promises_of_go ((upright_of_complaints h ht).interfaces (.inl hto)) himplements
      rw [hs.type?_name hp] at hi
      obtain rfl := Option.some.inj hi
      obtain ⟨own, hown, hsub⟩ := field_of_fieldPromises hpromises hd
      exact ⟨own, fieldOf?_of_field? h ht hown, hsub⟩

theorem mem_interfaces_of_mem_possibleTypes (hi : u.isInterface = true)
    (ht : t ∈ s.possibleTypes u) : t ∈ s.types ∧ t.isObject = true ∧ u.name ∈ t.interfaces := by
  obtain ⟨n, description, body⟩ := u
  cases body with
  | interface is fs =>
    obtain ⟨hmem, hboth⟩ := List.mem_filter.1 ht
    rw [Bool.and_eq_true] at hboth
    exact ⟨hmem, hboth.1, by simpa using hboth.2⟩
  | scalar => simp [NamedType.isInterface] at hi
  | object is fs => simp [NamedType.isInterface] at hi
  | union ms => simp [NamedType.isInterface] at hi
  | enum vs => simp [NamedType.isInterface] at hi
  | input fs => simp [NamedType.isInterface] at hi

theorem isInterface_of_covers (hs : s.Distinct) (h : s.complaints = []) (hp : p ∈ s.types)
    (hu : u ∈ s.types) (hi : u.isInterface = true) (hcovers : s.covers p u = true) :
    p.isInterface = true := by
  have hup := upright_of_complaints h hp
  obtain ⟨n, description, body⟩ := p
  cases body with
  | interface is fs => rfl
  | union ms =>
    have hmembers := hup.members rfl
    rw [memberComplaints, List.append_eq_nil_iff] at hmembers
    have hobject := isObject_of_go (n := u.name) hmembers.2
      (by simpa [covers, NamedType.members] using hcovers)
    rw [hs.type?_name hu, Option.any_some] at hobject
    have hnot := not_isAbstract_of_isObject hobject
    simp [NamedType.isAbstract, hi] at hnot
  | scalar => simp [covers] at hcovers
  | object is fs => simp [covers] at hcovers
  | enum vs => simp [covers] at hcovers
  | input fs => simp [covers] at hcovers

theorem covers_of_mem_possibleTypes (hs : s.Distinct) (h : s.complaints = []) (hp : p ∈ s.types)
    (hu : u ∈ s.types) (hi : u.isInterface = true) (hcovers : s.covers p u = true)
    (ht : t ∈ s.possibleTypes u) : s.covers p t = true := by
  have hpi := isInterface_of_covers hs h hp hu hi hcovers
  have huc : u.isComposite = true := by simp [NamedType.isComposite, NamedType.isAbstract, hi]
  have hparent := (hs.covers_interface_iff hu huc hpi).1 hcovers
  obtain ⟨htmem, hto, hname⟩ := mem_interfaces_of_mem_possibleTypes hi ht
  obtain ⟨i, hi', -, hancestors, -⟩ :=
    promises_of_go ((upright_of_complaints h htmem).interfaces (.inl hto)) hname
  rw [hs.type?_name hu] at hi'
  obtain rfl := Option.some.inj hi'
  have htc : t.isComposite = true := by simp [NamedType.isComposite, hto]
  exact (hs.covers_interface_iff htmem htc hpi).2
    (interfaces_of_ancestorPromises hancestors hparent)

/-- What a field has on an object is one of what the field promises. -/
theorem isA_of_isSubtype (hs : s.Distinct) (h : s.complaints = []) {x y : TypeRef}
    (hsub : s.isSubtype x y = true) (hu : s.composite? x.leaf = some u)
    (ht : t ∈ s.possibleTypes u) : ∃ w, s.composite? y.leaf = some w ∧ s.isA t w = true := by
  induction x generalizing y with
  | list x r ih =>
    cases y with
    | named m r' => simp [isSubtype] at hsub
    | list y r' =>
      rw [isSubtype, Bool.and_eq_true] at hsub
      exact ih (y := y) hsub.2 hu
  | named m r =>
    cases y with
    | list y r' => simp [isSubtype] at hsub
    | named m' r' =>
      rw [TypeRef.leaf] at hu ⊢
      obtain ⟨hm, huc⟩ := composite?_eq_some_iff.1 hu
      rw [isSubtype, Bool.and_eq_true] at hsub
      rcases Bool.or_eq_true_iff.1 hsub.2 with hname | hcovers
      · obtain rfl : m = m' := by simpa using hname
        exact ⟨u, hu, isA_of_mem_possibleTypes ht⟩
      · rw [hm] at hcovers
        cases hw : s.type? m' with
        | none => simp [hw] at hcovers
        | some w =>
          simp only [hw, Bool.and_eq_true, Bool.or_eq_true] at hcovers
          obtain ⟨⟨hwa, huk⟩, hcovers⟩ := hcovers
          refine ⟨w, composite?_eq_some_iff.2 ⟨hw, by simp [NamedType.isComposite, hwa]⟩, ?_⟩
          refine isA_iff.2 (.inr ⟨hwa, ?_⟩)
          rcases huk with huo | hui
          · have hpossible : s.possibleTypes u = [u] := by
              obtain ⟨n, description, body⟩ := u
              cases body <;> simp_all [NamedType.isObject, possibleTypes]
            rw [hpossible, List.mem_singleton] at ht
            rw [ht]
            exact hcovers
          · exact covers_of_mem_possibleTypes hs h (mem_of_type? hw) (mem_of_type? hm) hui hcovers
              ht

end QueryTypes.Schema
