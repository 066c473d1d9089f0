import QueryTypes.Document.Typename
import QueryTypes.Project.Validity
import QueryTypes.Proofs.Outcome
import QueryTypes.Proofs.Schema.Types

/-!
# Known fields

In a valid document every field is one of the type that it is selected on, and has a block below it
if its type has fields. The fields that are added to blocks for the names of types do not change
that.
-/

namespace QueryTypes

/-- A field that the type has not, which it is selected on. -/
def Visit.isStray : Visit → Bool
  | .field ⟨some _, none⟩ _ _ _ => true
  | _ => false

/-- A field that needs a block and has none, the name of the type aside. -/
def Visit.isBlockless (s : Schema) : Visit → Bool
  | .field ⟨_, some f⟩ h _ open_ =>
    h.name != "__typename" && (s.composite? f.type.leaf).isSome && !open_
  | _ => false

theorem NamedType.isLeaf_of_isComposite {t : NamedType} (h : t.isComposite = true) :
    t.isLeaf = false := by
  obtain ⟨name, description, body⟩ := t
  cases body with
  | scalar | enum | input => cases h
  | object | interface | union => rfl

namespace Validation

variable {s : Schema} {d : Document} {scope : Scope} {v : Visit} {ss below : List Selection}
  {sel : Selection} {h : FieldHead} {b : Option Origin} {p u : NamedType} {n : String}

theorem isStray_eq_false (hv : fieldsExist s v = []) : v.isStray = false := by
  cases v with
  | field scope h block open_ =>
    obtain ⟨parent, field⟩ := scope
    cases parent with
    | none => rfl
    | some t =>
      cases field with
      | none => simp [fieldsExist] at hv
      | some f => rfl
  | _ => rfl

theorem isBlockless_eq_false (hv : blocksFit s v = []) : v.isBlockless s = false := by
  cases v with
  | field scope h block open_ =>
    obtain ⟨parent, field⟩ := scope
    cases field with
    | none => rfl
    | some f =>
      cases hu : s.composite? f.type.leaf with
      | none => simp [Visit.isBlockless, hu]
      | some u =>
        obtain ⟨htype, hcomposite⟩ := Schema.composite?_eq_some_iff.1 hu
        have hleaf : u.isLeaf = false := NamedType.isLeaf_of_isComposite hcomposite
        cases open_ with
        | false => simp [blocksFit, htype, hleaf] at hv
        | true => simp [Visit.isBlockless]
  | _ => rfl

theorem rule_eq_nil {α β : Type} {rule : β → List α} {visits : List β} {x : β}
    (h : Findings.ofVisits rule visits = []) (hx : x ∈ visits) : rule x = [] := by
  rw [Findings.ofVisits, List.flatMap_eq_nil_iff] at h
  obtain ⟨i, hi, rfl⟩ := List.getElem_of_mem hx
  have hmem : (visits[i], i) ∈ visits.zipIdx := by
    rw [List.mem_zipIdx_iff_getElem?]
    simp [hi]
  exact List.map_eq_nil_iff.1 (h _ hmem)

theorem limited_eq_nil_iff {ds : List Diagnostic} : limited ds = [] ↔ ds = [] := by
  rw [limited]
  by_cases hlength : limit < ds.length
  · rw [if_pos hlength]
    constructor
    · intro h
      simp at h
    · rintro rfl
      simp at hlength
  · rw [if_neg hlength]

/-- Nothing is wrong with a document if no rule finds anything. -/
theorem complaints_eq_nil_iff :
    complaints s d = .ok [] ↔ ∃ found, findings s d = .ok found ∧ ∀ r ∈ found, r = [] := by
  rw [complaints, Outcome.bind_eq_ok_iff]
  constructor
  · rintro ⟨found, hfound, hnil⟩
    exact ⟨found, hfound, (Findings.inOrder_eq_nil_iff found).1
      (limited_eq_nil_iff.1 (Except.ok.inj hnil))⟩
  · rintro ⟨found, hfound, hnil⟩
    rw [← Findings.inOrder_eq_nil_iff] at hnil
    exact ⟨found, hfound, congrArg Except.ok (limited_eq_nil_iff.2 hnil)⟩

theorem fields_of_complaints (hc : complaints s d = .ok []) (hv : v ∈ s.documentVisits d) :
    fieldsExist s v = [] ∧ blocksFit s v = [] := by
  obtain ⟨found, hfound, hnil⟩ := complaints_eq_nil_iff.1 hc
  rw [findings] at hfound
  obtain ⟨first, -, hfound⟩ := Outcome.bind_eq_ok_iff.1 hfound
  obtain rfl := Except.ok.inj hfound
  exact ⟨rule_eq_nil (hnil _ (by simp)) hv, rule_eq_nil (hnil _ (by simp)) hv⟩

/-- Files are valid for a schema if nothing is wrong with them, with the schema and with what they
define together. -/
theorem validity_eq_ok_iff {files : List ClientFile} :
    ClientFiles.validity (some s) files = .ok () ↔
      ClientFiles.ownProblems ⟨[], []⟩ files = [] ∧ s.complaints = [] ∧
        complaints s (ClientFiles.document files) = .ok [] := by
  have hproblems : ClientFiles.validity (some s) files = .ok () ↔
      ClientFiles.problems (some s) files = .ok [] := by
    rw [ClientFiles.validity, Outcome.bind_eq_ok_iff]
    constructor
    · rintro ⟨found, hfound, h⟩
      cases found with
      | nil => exact hfound
      | cons d rest => simp [throw, throwThe, MonadExceptOf.throw] at h
    · intro h
      exact ⟨[], h, rfl⟩
  rw [hproblems]
  cases hown : ClientFiles.ownProblems ⟨[], []⟩ files with
  | cons d rest => simp [ClientFiles.problems, hown]
  | nil =>
    simp only [ClientFiles.problems, hown, ClientFiles.schemaProblems]
    cases hbroken : s.complaints with
    | cons m rest => simp [throw, throwThe, MonadExceptOf.throw, bind, Except.bind]
    | nil =>
      cases hc : complaints s (ClientFiles.document files) with
      | error e => simp [Except.mapError]
      | ok ds => simp [Except.mapError]

/-- Whether a schema and files are valid can be computed. -/
theorem validity_of_findings {files : List ClientFile}
    (hown : ClientFiles.ownProblems ⟨[], []⟩ files = []) (hs : s.complaints.isEmpty = true)
    (hfound : ((findings s (ClientFiles.document files)).toOption.any
      fun found => found.all List.isEmpty) = true) :
    ClientFiles.validity (some s) files = .ok () := by
  refine validity_eq_ok_iff.2 ⟨hown, List.isEmpty_iff.1 hs, complaints_eq_nil_iff.2 ?_⟩
  cases hf : findings s (ClientFiles.document files) with
  | error e => simp [hf, Except.toOption] at hfound
  | ok found =>
    rw [hf, Except.toOption, Option.any_some] at hfound
    exact ⟨found, rfl, fun r hr => List.isEmpty_iff.1 (List.all_eq_true.1 hfound r hr)⟩

end Validation

/-- None of the visits is at fault. -/
def Clean (fault : Visit → Bool) (vs : List Visit) : Prop := ∀ v ∈ vs, fault v = false

/-- On the type, nothing in the selections is at fault. -/
def Faultless (fault : Visit → Bool) (s : Schema) (p : NamedType) (ss : List Selection) : Prop :=
  ∃ field, Clean fault (Selection.allVisits s ⟨some p, field⟩ ss)

/-- On the type, every field that stands in the selections is known. -/
def Known (s : Schema) (p : NamedType) (ss : List Selection) : Prop :=
  ∃ field, ∀ v ∈ Selection.allVisits s ⟨some p, field⟩ ss, v.isStray = false

/-- Nothing in the document is at fault where it stands. -/
structure Document.Faultless (fault : Visit → Bool) (s : Schema) (d : Document) : Prop where
  operations : ∀ o ∈ d.operations, ∀ root, s.rootType? o.kind = some root →
    root.isObject = true → QueryTypes.Faultless fault s root o.selections
  fragments : ∀ f ∈ d.fragments, ∀ u, s.composite? f.condition.text = some u →
    QueryTypes.Faultless fault s u f.selections

/-- Every field of the document is known where it stands. -/
structure Document.Known (s : Schema) (d : Document) : Prop where
  operations : ∀ o ∈ d.operations, ∀ root, s.rootType? o.kind = some root →
    root.isObject = true → QueryTypes.Known s root o.selections
  fragments : ∀ f ∈ d.fragments, ∀ u, s.composite? f.condition.text = some u →
    QueryTypes.Known s u f.selections

variable {s : Schema} {d : Document} {scope : Scope} {v : Visit} {ss below : List Selection}
  {sel : Selection} {h : FieldHead} {b : Option Origin} {p u : NamedType} {n : String}
  {fault : Visit → Bool}

theorem Document.faultless_of_visits (hd : Clean fault (s.documentVisits d)) :
    d.Faultless fault s where
  operations o ho root hroot hobject := by
    refine ⟨none, fun v hv => hd v ?_⟩
    refine List.mem_append_left _ (List.mem_flatMap.2 ⟨o, ho, ?_⟩)
    have hscope : (s.rootType? o.kind).filter NamedType.isObject = some root := by
      rw [hroot, Option.filter_some, if_pos hobject]
    simp only [Schema.operationVisits, hscope]
    simp [hv]
  fragments f hf u hu := by
    refine ⟨none, fun v hv => hd v ?_⟩
    refine List.mem_append_right _ (List.mem_flatMap.2 ⟨f, hf, ?_⟩)
    simp only [Schema.fragmentVisits, hu]
    simp [hv]

theorem Document.Faultless.known (hd : d.Faultless Visit.isStray s) : d.Known s :=
  ⟨hd.operations, hd.fragments⟩

theorem Document.Known.faultless (hd : d.Known s) : d.Faultless Visit.isStray s :=
  ⟨hd.operations, hd.fragments⟩

theorem known_of_complaints (hc : Validation.complaints s d = .ok []) : d.Known s :=
  (Document.faultless_of_visits fun _ hv =>
    Validation.isStray_eq_false (Validation.fields_of_complaints hc hv).1).known

theorem blocks_of_complaints (hc : Validation.complaints s d = .ok []) :
    d.Faultless (Visit.isBlockless s) s :=
  Document.faultless_of_visits fun _ hv =>
    Validation.isBlockless_eq_false (Validation.fields_of_complaints hc hv).2

theorem mem_allVisits (hsel : sel ∈ ss) (hv : v ∈ sel.visits s scope) :
    v ∈ Selection.allVisits s scope ss := by
  induction ss with
  | nil => simp at hsel
  | cons sel' rest ih =>
    rw [Selection.allVisits, List.mem_append]
    rcases List.mem_cons.1 hsel with rfl | hsel
    · exact .inl hv
    · exact .inr (ih hsel)

theorem Faultless.of_mem (hk : Faultless fault s p ss) (hsel : sel ∈ ss) :
    Faultless fault s p [sel] := by
  obtain ⟨field, hk⟩ := hk
  refine ⟨field, fun v hv => hk v (mem_allVisits hsel ?_)⟩
  simpa [Selection.allVisits] using hv

theorem Faultless.field (hk : Faultless fault s p ss) (hsel : .field h b below ∈ ss) :
    fault (.field ⟨some p, s.fieldOf? p h.name⟩ h b (!below.isEmpty)) = false ∧
      ∀ f u, s.fieldOf? p h.name = some f → s.composite? f.type.leaf = some u →
        Faultless fault s u below := by
  obtain ⟨field, hk⟩ := hk
  have hvisits : ∀ v ∈ (Selection.field h b below).visits s ⟨some p, field⟩, fault v = false :=
    fun v hv => hk v (mem_allVisits hsel hv)
  constructor
  · exact hvisits _ (by simp [Selection.visits])
  · intro f u hf hu
    refine ⟨some f, fun v hv => hvisits v ?_⟩
    simp [Selection.visits, hf, hu, hv]

theorem Faultless.inline {c : Option Name} {ds : List Directive} {o : Option Origin}
    (hk : Faultless fault s p ss) (hsel : .inline c ds below o ∈ ss) :
    (c = none → Faultless fault s p below) ∧
      ∀ m u, c = some m → s.composite? m.text = some u → Faultless fault s u below := by
  obtain ⟨field, hk⟩ := hk
  have hvisits : ∀ v ∈ (Selection.inline c ds below o).visits s ⟨some p, field⟩,
      fault v = false := fun v hv => hk v (mem_allVisits hsel hv)
  constructor
  · rintro rfl
    refine ⟨field, fun v hv => hvisits v ?_⟩
    simp [Selection.visits, hv]
  · rintro m u rfl hu
    refine ⟨field, fun v hv => hvisits v ?_⟩
    simp [Selection.visits, hu, hv]

theorem Known.field (hk : Known s p ss) (hsel : .field h b below ∈ ss) :
    ∃ f, s.fieldOf? p h.name = some f ∧
      ∀ u, s.composite? f.type.leaf = some u → Known s u below := by
  have hstray : Faultless Visit.isStray s p ss := hk
  obtain ⟨hfault, hbelow⟩ := hstray.field hsel
  cases hf : s.fieldOf? p h.name with
  | none => simp [Visit.isStray, hf] at hfault
  | some f => exact ⟨f, rfl, fun u hu => hbelow f u hf hu⟩

theorem Known.inline {c : Option Name} {ds : List Directive} {o : Option Origin}
    (hk : Known s p ss) (hsel : .inline c ds below o ∈ ss) :
    (c = none → Known s p below) ∧
      ∀ m u, c = some m → s.composite? m.text = some u → Known s u below :=
  Faultless.inline hk hsel

/-! ### With the names of types -/

/-- The fault is none of blocks, and the field for the name of the type is never at fault. -/
structure Overlooks (fault : Visit → Bool) (s : Schema) : Prop where
  block : ∀ p ss, fault (.block p ss) = false
  typename : ∀ scope, Clean fault (typenameField.visits s scope)

theorem clean_append_iff {vs ws : List Visit} :
    Clean fault (vs ++ ws) ↔ Clean fault vs ∧ Clean fault ws := by
  simp [Clean, or_imp, forall_and]

theorem clean_cons_iff {vs : List Visit} :
    Clean fault (v :: vs) ↔ fault v = false ∧ Clean fault vs := by
  simp [Clean]

/-- The field for the name of the type is visited, and nothing else at it. -/
theorem exists_visits_typenameField (s : Schema) (scope : Scope) : ∃ own head,
    typenameField.visits s scope = [.field own head none false, .fieldEnd own head] ∧
      head.name = "__typename" ∧ (own.parent.isSome = true → own.field.isSome = true) := by
  refine ⟨_, _, rfl, rfl, fun hparent => ?_⟩
  have hparent : scope.parent.isSome = true := hparent
  obtain ⟨t, ht⟩ := Option.isSome_iff_exists.1 hparent
  simp [ht, Schema.fieldOf?]

theorem overlooks_isStray (s : Schema) : Overlooks Visit.isStray s where
  block _ _ := rfl
  typename scope := by
    obtain ⟨⟨parent, field⟩, head, hvisits, -, hfield⟩ := exists_visits_typenameField s scope
    rw [hvisits, clean_cons_iff, clean_cons_iff]
    refine ⟨?_, rfl, by simp [Clean]⟩
    cases parent with
    | none => rfl
    | some t =>
      cases field with
      | none => simp at hfield
      | some f => rfl

theorem overlooks_isBlockless (s : Schema) : Overlooks (Visit.isBlockless s) s where
  block _ _ := rfl
  typename scope := by
    obtain ⟨⟨parent, field⟩, head, hvisits, hname, -⟩ := exists_visits_typenameField s scope
    rw [hvisits, clean_cons_iff, clean_cons_iff]
    refine ⟨?_, rfl, by simp [Clean]⟩
    cases field with
    | none => rfl
    | some f => simp [Visit.isBlockless, hname]

theorem Overlooks.clean_blockVisit (hs : Overlooks fault s) (p : Option NamedType)
    (ss : List Selection) : Clean fault (blockVisit p ss) := by
  intro v hv
  rw [blockVisit] at hv
  by_cases hss : ss.isEmpty = true
  · simp [hss] at hv
  · rw [if_neg hss, List.mem_singleton] at hv
    rw [hv]
    exact hs.block p ss

theorem Overlooks.clean_withTypename (hs : Overlooks fault s)
    (hss : Clean fault (Selection.allVisits s scope ss)) :
    Clean fault (Selection.allVisits s scope (withTypename ss)) := by
  rw [withTypename]
  by_cases hadd : (ss.isEmpty || ss.any Selection.isTypename) = true
  · rw [if_pos hadd]
    exact hss
  · rw [if_neg hadd, Selection.allVisits, clean_append_iff]
    exact ⟨hs.typename scope, hss⟩

theorem isEmpty_withTypename (ss : List Selection) :
    (withTypename (Selection.addTypenames ss)).isEmpty = ss.isEmpty := by
  cases ss with
  | nil => rfl
  | cons sel rest =>
    rw [withTypename]
    split <;> rfl

mutual
theorem Overlooks.clean_addTypename (hs : Overlooks fault s) :
    (sel : Selection) → {scope : Scope} → Clean fault (sel.visits s scope) →
      Clean fault (sel.addTypename.visits s scope)
  | .field h b ss, scope, hc => by
    simp only [Selection.addTypename, Selection.visits, clean_append_iff, clean_cons_iff,
      List.cons_append, isEmpty_withTypename] at hc ⊢
    obtain ⟨hown, ⟨⟨⟨harguments, hdirectives⟩, -⟩, hbelow⟩, hend⟩ := hc
    exact ⟨hown, ⟨⟨⟨harguments, hdirectives⟩, hs.clean_blockVisit _ _⟩,
      hs.clean_withTypename (hs.clean_addTypenames ss hbelow)⟩, hend⟩
  | .spread n ds o, scope, hc => hc
  | .inline c ds ss o, scope, hc => by
    simp only [Selection.addTypename, Selection.visits, clean_append_iff, clean_cons_iff,
      List.cons_append] at hc ⊢
    obtain ⟨hown, ⟨⟨hcondition, hdirectives⟩, -⟩, hbelow⟩ := hc
    exact ⟨hown, ⟨⟨hcondition, hdirectives⟩, hs.clean_blockVisit _ _⟩,
      hs.clean_withTypename (hs.clean_addTypenames ss hbelow)⟩

theorem Overlooks.clean_addTypenames (hs : Overlooks fault s) :
    (ss : List Selection) → {scope : Scope} → Clean fault (Selection.allVisits s scope ss) →
      Clean fault (Selection.allVisits s scope (Selection.addTypenames ss))
  | [], _, hc => hc
  | sel :: rest, scope, hc => by
    rw [Selection.allVisits, clean_append_iff] at hc
    rw [Selection.addTypenames, Selection.allVisits, clean_append_iff]
    exact ⟨hs.clean_addTypename sel hc.1, hs.clean_addTypenames rest hc.2⟩
end

theorem Document.Faultless.addTypename (hs : Overlooks fault s) (hd : d.Faultless fault s) :
    d.addTypename.Faultless fault s where
  operations o ho root hroot hobject := by
    obtain ⟨o', ho', rfl⟩ := List.mem_map.1 ho
    obtain ⟨field, hk⟩ := hd.operations o' ho' root hroot hobject
    exact ⟨field, hs.clean_addTypenames o'.selections hk⟩
  fragments f hf u hu := by
    obtain ⟨f', hf', rfl⟩ := List.mem_map.1 hf
    obtain ⟨field, hk⟩ := hd.fragments f' hf' u hu
    exact ⟨field, hs.clean_withTypename (hs.clean_addTypenames f'.selections hk)⟩

theorem Document.Known.addTypename (hd : d.Known s) : d.addTypename.Known s :=
  (hd.faultless.addTypename (overlooks_isStray s)).known

end QueryTypes
