import QueryTypes.Proofs.Execution.Standing
import QueryTypes.Proofs.Shape.Depth
import QueryTypes.Proofs.Shape.Tree

/-!
# Levels that can be built

A level is built from its entries, each of which is looked up on the type of its first occurrence.
Where all names lead somewhere, that is the one thing that can go wrong: object types are built for
selections exactly if no entry of theirs, on whatever level, has a field that its type has not. There
is no such entry when the fields with a key are of one type: the first type then is that of them all.
-/

namespace QueryTypes

open Execution (deepAll)

def Entry.complaint (e : Entry) : ShapeError := .unknownField e.field e.parent.name

/-- The type that the entry stands on has no such field. -/
def Entry.IsStray (e : Entry) : Prop :=
  e.field ≠ "__typename" ∧ e.parent.selectable e.field = .error e.complaint

theorem NamedType.selectable_cases (t : NamedType) (name : String) :
    (∃ type description, t.selectable name = .ok (type, description)) ∨
      t.selectable name = .error (.unknownField name t.name) := by
  rw [selectable]
  split
  · exact .inl ⟨_, _, rfl⟩
  · exact .inl ⟨_, _, rfl⟩
  · exact .inr rfl

theorem NamedType.selectable_of_field? {t : NamedType} {name : String} {f : Field}
    (h : t.field? name = some f) : t.selectable name = .ok (f.type, f.description) := by
  rw [selectable, h]

/-- The selection asks for nothing about the schema itself. -/
def Selection.asksData : Selection → Bool
  | .field h _ _ => h.name != "__schema" && h.name != "__type"
  | _ => true

theorem Schema.field?_of_fieldOf? {s : Schema} {t : NamedType} {name : String} {f : Field}
    (h : s.fieldOf? t name = some f) (hschema : name ≠ "__schema") (htype : name ≠ "__type")
    (htypename : name ≠ "__typename") : t.field? name = some f := by
  rwa [fieldOf?, if_neg fun hc => hschema hc.1, if_neg fun hc => htype hc.1, if_neg htypename] at h

/-- Nothing in a fragment of the table is at fault where it stands. -/
def FaultlessTable (fault : Visit → Bool) (s : Schema) (table : Table Fragment) : Prop :=
  ∀ n f, table.get? n = some f →
    ∀ u, s.composite? f.condition.text = some u → Faultless fault s u f.selections

/-- What is without fault where it stands is so wherever it occurs on a level. -/
theorem Level.Occurs.faultless {fault : Visit → Bool} {s : Schema} {table : Table Fragment}
    {visiting : List String} {parent : NamedType} {conditional : Bool} {ss : List Selection}
    {occ : Occurrence} (h : Occurs s table visiting parent conditional ss occ)
    (htable : FaultlessTable fault s table)
    (hss : ∀ sel ∈ ss, Faultless fault s parent [sel]) :
    (∃ head b, head.name = occ.field ∧ fault (.field
      ⟨some occ.parent, s.fieldOf? occ.parent occ.field⟩ head b (!occ.selections.isEmpty)) = false) ∧
    ∀ f u, s.fieldOf? occ.parent occ.field = some f → s.composite? f.type.leaf = some u →
      Faultless fault s u occ.selections := by
  induction h with
  | field hmem =>
    obtain ⟨hfault, hbelow⟩ := (hss _ hmem).field List.mem_cons_self
    exact ⟨⟨_, _, rfl, hfault⟩, hbelow⟩
  | @inline visiting parent target conditional ss below c ds o occ hmem ht _ ih =>
    refine ih fun sel hsel => ?_
    obtain ⟨hnone, hsome⟩ := (hss _ hmem).inline List.mem_cons_self
    cases c with
    | none =>
      obtain rfl := Except.ok.inj ht
      exact (hnone rfl).of_mem hsel
    | some c => exact (hsome c target rfl (conditionType_some_iff.1 ht)).of_mem hsel
  | spread _ _ hf ht _ ih =>
    exact ih fun sel hsel => (htable _ _ hf _ (conditionType_some_iff.1 ht)).of_mem hsel

/-- Fields that are known where they stand are known wherever they occur on a level. -/
theorem Level.Occurs.known {s : Schema} {table : Table Fragment} {visiting : List String}
    {parent : NamedType} {conditional : Bool} {ss : List Selection} {occ : Occurrence}
    (h : Occurs s table visiting parent conditional ss occ)
    (htable : ∀ n f, table.get? n = some f →
      ∀ u, s.composite? f.condition.text = some u → Known s u f.selections)
    (hss : ∀ sel ∈ ss, Known s parent [sel]) : ∃ f, s.fieldOf? occ.parent occ.field = some f ∧
      ∀ u, s.composite? f.type.leaf = some u → Known s u occ.selections := by
  obtain ⟨⟨head, b, -, hstray⟩, hbelow⟩ := h.faultless htable hss
  cases hf : s.fieldOf? occ.parent occ.field with
  | none => simp [Visit.isStray, hf] at hstray
  | some f => exact ⟨f, rfl, fun u hu => hbelow f u hf hu⟩

namespace ShapeContext

variable {cx : ShapeContext} {parent q r : NamedType} {ss tt uu : List Selection} {name : String}
  {n : Nat} {e : Entry} {es : List Entry} {N : ShapeTree}

/-- The entry has selections on the type below it. -/
def Opens (cx : ShapeContext) (e : Entry) (t : NamedType) : Prop :=
  e.field ≠ "__typename" ∧ ∃ type description, e.parent.selectable e.field = .ok (type, description) ∧
    cx.schema.composite? type.leaf = some t

/-- The levels that are built for selections on a type, each with the type it is built on. -/
inductive Nested (cx : ShapeContext) (parent : NamedType) (ss : List Selection) :
    NamedType → List Selection → Prop
  | here : Nested cx parent ss parent ss
  | inside {q t : NamedType} {tt : List Selection} {es : List Entry} {e : Entry} :
      Nested cx parent ss q tt → Level.entries cx.schema cx.fragments q tt = .ok es → e ∈ es →
        cx.Opens e t → Nested cx parent ss t e.selections

/-- No entry of any level stands on a type without its field. -/
def Answered (cx : ShapeContext) (parent : NamedType) (ss : List Selection) : Prop :=
  ∀ q tt es, Nested cx parent ss q tt → Level.entries cx.schema cx.fragments q tt = .ok es →
    ∀ e ∈ es, ¬ e.IsStray

/-- An entry of some level that stands on a type without its field. -/
def Unanswered (cx : ShapeContext) (parent : NamedType) (ss : List Selection) (e : Entry) : Prop :=
  ∃ q tt es, Nested cx parent ss q tt ∧ Level.entries cx.schema cx.fragments q tt = .ok es ∧
    e ∈ es ∧ e.IsStray

theorem Nested.trans (h : Nested cx parent ss q tt) (h' : Nested cx q tt r uu) :
    Nested cx parent ss r uu := by
  induction h' with
  | here => exact h
  | inside _ hes he hopens ih => exact .inside ih hes he hopens

theorem Unanswered.of_nested (h : Nested cx parent ss q tt) (he : Unanswered cx q tt e) :
    Unanswered cx parent ss e := by
  obtain ⟨r, uu, es, hnested, hes, hmem, hstray⟩ := he
  exact ⟨r, uu, es, h.trans hnested, hes, hmem, hstray⟩

/-- An entry becomes a property, or it has no field, or what is below it fails. -/
theorem sprout_cases (cx : ShapeContext)
    (grow : String → NamedType → List Selection → Except ShapeError ShapeTree) (name : String)
    (e : Entry) : (∃ part, cx.sprout grow name e = .ok part) ∨
      e.IsStray ∧ cx.sprout grow name e = .error e.complaint ∨
      ∃ t err, cx.Opens e t ∧ grow (name ++ "_" ++ e.key) t e.selections = .error err ∧
        cx.sprout grow name e = .error err := by
  rw [sprout]
  by_cases htypename : (e.field == "__typename") = true
  · rw [if_pos htypename]
    exact .inl ⟨_, rfl⟩
  · rw [if_neg htypename]
    have hfield : e.field ≠ "__typename" := by simpa using htypename
    rcases e.parent.selectable_cases e.field with ⟨type, description, hok⟩ | herror
    · rw [hok]
      simp only [bind, Except.bind]
      cases ht : (cx.schema.type? type.leaf).filter NamedType.isComposite with
      | none => exact .inl ⟨_, rfl⟩
      | some t =>
        simp only
        cases hgrow : grow (name ++ "_" ++ e.key) t e.selections with
        | ok b => exact .inl ⟨_, rfl⟩
        | error err => exact .inr (.inr ⟨t, err, ⟨hfield, type, description, hok, ht⟩, hgrow, rfl⟩)
    · exact .inr (.inl ⟨⟨hfield, herror⟩, by rw [herror]; rfl⟩)

/-- Building comes to an end, and fails for an entry without a field only. -/
theorem grow_cases (htable : TableResolved cx.schema cx.fragments)
    (hss : Resolved cx.schema cx.fragments ss) (hbound : Bounded cx.fragments n ss) :
    (∃ N, cx.grow (n + 1) name parent ss = .ok N) ∨
      ∃ e, Unanswered cx parent ss e ∧ cx.grow (n + 1) name parent ss = .error e.complaint := by
  induction n generalizing name parent ss with
  | zero =>
    obtain ⟨es, hes⟩ := Level.exists_entries htable parent hss
    have hnone : es = [] := by
      refine List.eq_nil_iff_forall_not_mem.2 fun e he => ?_
      obtain ⟨m, hm, -⟩ := Level.exists_below_of_entries htable hss hbound hes he
      cases hm
    rw [grow, hes, hnone]
    exact .inl ⟨_, rfl⟩
  | succ n ih =>
    obtain ⟨es, hes⟩ := Level.exists_entries htable parent hss
    rw [grow, hes]
    rcases Outcome.mapM_cases (cx.sprout (cx.grow (n + 1)) name) es with
      ⟨parts, hparts⟩ | ⟨e, he, err, hsprout, hall⟩
    · exact .inl ⟨_, by simp only [bind, Except.bind, hparts]; rfl⟩
    · right
      have hfails : (do
          let parts ← es.mapM (cx.sprout (cx.grow (n + 1)) name)
          return ShapeTree.node ⟨name, parts.map Prod.fst, parent.description⟩ parent ss
            (parts.filterMap Prod.snd)) = Except.error err := by
        rw [hall]
        rfl
      rcases cx.sprout_cases (cx.grow (n + 1)) name e with
        ⟨part, hpart⟩ | ⟨hstray, hcomplaint⟩ | ⟨t, err', hopens, hgrow, herr⟩
      · rw [hpart] at hsprout
        cases hsprout
      · obtain rfl := Except.error.inj (hcomplaint.symm.trans hsprout)
        exact ⟨e, ⟨parent, ss, es, .here, hes, he, hstray⟩, hfails⟩
      · obtain rfl := Except.error.inj (herr.symm.trans hsprout)
        obtain ⟨m, hm, hbelow, hresolved⟩ := Level.exists_below_of_entries htable hss hbound hes he
        obtain rfl := Nat.succ.inj hm
        have hbranch : (∃ N, cx.grow (n + 1) (name ++ "_" ++ e.key) t e.selections = .ok N) ∨
            ∃ e', Unanswered cx t e.selections e' ∧
              cx.grow (n + 1) (name ++ "_" ++ e.key) t e.selections = .error e'.complaint :=
          ih hresolved hbelow
        rcases hbranch with ⟨N, hN⟩ | ⟨e', he', herror⟩
        · rw [hN] at hgrow
          cases hgrow
        · obtain rfl := Except.error.inj (hgrow.symm.trans herror)
          exact ⟨e', he'.of_nested (.inside .here hes he hopens), hfails⟩

theorem exists_sprout_of_grow (h : cx.grow n name q tt = .ok N)
    (hes : Level.entries cx.schema cx.fragments q tt = .ok es) (he : e ∈ es) :
    ∃ m part, cx.sprout (cx.grow m) name e = .ok part := by
  obtain ⟨m, es', parts, -, hes', hparts, -⟩ := exists_parts_of_grow h
  obtain rfl := Except.ok.inj (hes.symm.trans hes')
  obtain ⟨part, -, hpart⟩ := (Outcome.mem_of_mapM hparts).1 e he
  exact ⟨m, part, hpart⟩

/-- Below an entry that has selections on a type there is a tree for them. -/
theorem exists_grow_of_sprout {part : Property × Option (String × ShapeTree)}
    (h : cx.sprout (cx.grow n) name e = .ok part) (hopens : cx.Opens e t) :
    ∃ b, cx.grow n (name ++ "_" ++ e.key) t e.selections = .ok b ∧ part.2 = some (e.key, b) := by
  obtain ⟨hfield, type, description, hok, ht⟩ := hopens
  rw [Schema.composite?] at ht
  rw [sprout, if_neg (by simpa using hfield), hok] at h
  simp only [bind, Except.bind, ht] at h
  obtain ⟨b, hb, h⟩ := Outcome.bind_eq_ok_iff.1 h
  exact ⟨b, hb, by rw [← Except.ok.inj h]⟩

/-- What was built is built on each level. -/
theorem Nested.exists_grow (h : Nested cx parent ss q tt)
    (hgrow : ∃ n name N, cx.grow n name parent ss = .ok N) :
    ∃ n name N, cx.grow n name q tt = .ok N := by
  induction h with
  | here => exact hgrow
  | inside _ hes he hopens ih =>
    obtain ⟨n, name, N, hN⟩ := ih
    obtain ⟨m, part, hpart⟩ := exists_sprout_of_grow hN hes he
    obtain ⟨b, hb, -⟩ := exists_grow_of_sprout hpart hopens
    exact ⟨m, _, b, hb⟩

theorem answered_of_grow (h : cx.grow n name parent ss = .ok N) : Answered cx parent ss := by
  rintro q tt es hnested hes e he ⟨hfield, hstray⟩
  obtain ⟨n, name, N, hN⟩ := hnested.exists_grow ⟨n, name, N, h⟩
  obtain ⟨m, part, hpart⟩ := exists_sprout_of_grow hN hes he
  rw [sprout, if_neg (by simpa using hfield), hstray] at hpart
  cases hpart

/-! ### Keys with one type -/

/-- The fields with a key that something is selected below are all of one type, on each level. -/
def OneTyped (cx : ShapeContext) (parent : NamedType) (ss : List Selection) : Prop :=
  ∀ q tt, Nested cx parent ss q tt → ∀ occ other f g,
    Level.Occurs cx.schema cx.fragments [] q false tt occ →
    Level.Occurs cx.schema cx.fragments [] q false tt other →
    other.key = occ.key → other.selections ≠ [] →
    cx.schema.fieldOf? occ.parent occ.field = some f →
    cx.schema.fieldOf? other.parent other.field = some g → g.type.leaf = f.type.leaf

/-- All fields in the selections are known where they stand, and none asks for the schema. -/
structure Standing (cx : ShapeContext) (parent : NamedType) (ss : List Selection) : Prop where
  known : ∀ sel ∈ ss, Known cx.schema parent [sel]
  data : deepAll Selection.asksData ss = true

/-- So it is with the fragments. -/
structure FragmentsStand (cx : ShapeContext) : Prop where
  known : ∀ n f, cx.fragments.get? n = some f →
    ∀ u, cx.schema.composite? f.condition.text = some u → Known cx.schema u f.selections
  data : ∀ n f, cx.fragments.get? n = some f → deepAll Selection.asksData f.selections = true

theorem Standing.exists_field (hfragments : cx.FragmentsStand) (h : cx.Standing q tt)
    {occ : Occurrence} (hocc : Level.Occurs cx.schema cx.fragments [] q false tt occ) :
    ∃ f, cx.schema.fieldOf? occ.parent occ.field = some f ∧
      (occ.field ≠ "__typename" →
        occ.parent.selectable occ.field = .ok (f.type, f.description)) ∧
      ∀ u, cx.schema.composite? f.type.leaf = some u → Known cx.schema u occ.selections := by
  obtain ⟨f, hf, hbelow⟩ := hocc.known hfragments.known h.known
  obtain ⟨head, b, -, hname, hdata⟩ := (hocc.check hfragments.data h.data).1
  refine ⟨f, hf, fun hne => ?_, hbelow⟩
  rw [Selection.asksData, hname, Bool.and_eq_true, bne_iff_ne, bne_iff_ne] at hdata
  exact NamedType.selectable_of_field? (Schema.field?_of_fieldOf? hf hdata.1 hdata.2 hne)

/-- What is without fault on a level is so below an entry whose fields have one type. -/
theorem Standing.faultless_inside {fault : Visit → Bool} (hfragments : cx.FragmentsStand)
    (h : cx.Standing q tt) (hone : OneTyped cx q tt)
    (htable : FaultlessTable fault cx.schema cx.fragments)
    (htt : ∀ sel ∈ tt, Faultless fault cx.schema q [sel])
    (hes : Level.entries cx.schema cx.fragments q tt = .ok es) (he : e ∈ es)
    {t : NamedType} (hopens : cx.Opens e t) :
    ∀ sel ∈ e.selections, Faultless fault cx.schema t [sel] := by
  intro sel hsel
  have hmerges := (Level.merges_of_entries hes).1 e he
  obtain ⟨first, hfirst, hkey, hfield, hparent⟩ := hmerges.first
  obtain ⟨f, hf, hselectable, -⟩ := h.exists_field hfragments hfirst
  obtain ⟨hne, type, description, hok, ht⟩ := hopens
  -- the type below the entry is that of the field of its first occurrence
  rw [← hparent, ← hfield, hselectable (by rw [hfield]; exact hne)] at hok
  obtain ⟨rfl, -⟩ := Prod.mk.inj (Except.ok.inj hok)
  obtain ⟨other, hother, hkey', hsel⟩ := (hmerges.mem_selections_iff sel).1 hsel
  obtain ⟨g, hg, -⟩ := h.exists_field hfragments hother
  have hleaf := hone q tt .here first other f g hfirst hother (hkey'.trans hkey.symm)
    (List.ne_nil_of_mem hsel) hf hg
  exact ((hother.faultless htable htt).2 g t hg (by rw [hleaf]; exact ht)).of_mem hsel

theorem Standing.inside (hfragments : cx.FragmentsStand) (h : cx.Standing q tt)
    (hone : OneTyped cx q tt) (hes : Level.entries cx.schema cx.fragments q tt = .ok es) (he : e ∈ es)
    {t : NamedType} (hopens : cx.Opens e t) : cx.Standing t e.selections where
  known := h.faultless_inside hfragments hone hfragments.known h.known hes he hopens
  data := ((Level.merges_of_entries hes).1 e he).check hfragments.data h.data

theorem Nested.standing (hfragments : cx.FragmentsStand) (h : Nested cx parent ss q tt)
    (hss : cx.Standing parent ss) (hone : OneTyped cx parent ss) : cx.Standing q tt := by
  induction h with
  | here => exact hss
  | inside hnested hes he hopens ih =>
    refine ih.inside hfragments (fun r uu hinner => ?_) hes he hopens
    exact hone r uu (hnested.trans hinner)

/-- Known fields are on the types that they are looked up on as long as each key has one type. -/
theorem answered_of_oneTyped (hfragments : cx.FragmentsStand) (hss : cx.Standing parent ss)
    (hone : OneTyped cx parent ss) : Answered cx parent ss := by
  rintro q tt es hnested hes e he ⟨hne, hstray⟩
  obtain ⟨first, hfirst, -, hfield, hparent⟩ := ((Level.merges_of_entries hes).1 e he).first
  obtain ⟨f, -, hselectable, -⟩ :=
    (hnested.standing hfragments hss hone).exists_field hfragments hfirst
  rw [← hparent, ← hfield, hselectable (by rw [hfield]; exact hne)] at hstray
  cases hstray

/-! ### Modules -/

variable {o : Operation} {f : Fragment} {t : NamedType} {d : Document}

/-- The document is in order, its operations have names and root types, and the fragments are its
own. -/
structure Ready (cx : ShapeContext) (d : Document) : Prop where
  fragments : cx.fragments = d.fragmentTable
  resolved : d.Resolved cx.schema
  named : ∀ o ∈ d.operations, ∃ n, o.name = some n
  roots : ∀ o ∈ d.operations, (cx.schema.rootType? o.kind).isSome = true

/-- The types and selections that the modules of a document are built for. -/
inductive Starts (cx : ShapeContext) (d : Document) : NamedType → List Selection → Prop
  | operation {o : Operation} {root : NamedType} : o ∈ d.operations →
      cx.schema.rootType? o.kind = some root → Starts cx d root o.selections
  | fragment {f : Fragment} {t : NamedType} : f ∈ d.fragments →
      cx.schema.composite? f.condition.text = some t → Starts cx d t f.selections

theorem Ready.objects_cases (hd : cx.Ready d) (hss : Resolved cx.schema d.fragmentTable ss)
    (name : String) (parent : NamedType) :
    (∃ os, cx.objects (cx.depth ss) name parent ss = .ok os) ∨
      ∃ e, Unanswered cx parent ss e ∧
        cx.objects (cx.depth ss) name parent ss = .error e.complaint := by
  have htable : TableResolved cx.schema cx.fragments := by
    rw [hd.fragments]
    exact tableResolved_fragmentTable hd.resolved
  have hacyclic : Acyclic cx.fragments := by
    rw [hd.fragments]
    exact hd.resolved.acyclic
  rw [← hd.fragments] at hss
  obtain ⟨n, hn, hbound⟩ := exists_bound_of_depth hacyclic ss
  rw [hn, objects_eq]
  have hgrow : (∃ N, cx.grow (n + 1) name parent ss = .ok N) ∨
      ∃ e, Unanswered cx parent ss e ∧ cx.grow (n + 1) name parent ss = .error e.complaint :=
    grow_cases htable hss hbound
  rcases hgrow with ⟨N, hN⟩ | ⟨e, he, herror⟩
  · exact .inl ⟨N.flatten, by rw [hN]; rfl⟩
  · exact .inr ⟨e, he, by rw [herror]; rfl⟩

theorem exists_parameterShape (name : String)
    (ho : ∀ v ∈ o.variableDefs, (cx.schema.type? v.type.leaf).isSome = true) :
    ∃ arguments, cx.parameterShape name o = .ok arguments := by
  rw [parameterShape]
  split
  · exact ⟨none, rfl⟩
  · rcases Outcome.mapM_cases (fun v : VariableDefinition => (do
      if (cx.schema.type? v.type.leaf).isNone then
        throw (.unknownVariableType v.type.text v.name.text)
      return ⟨v.name.text, cx.inputType v.type, !v.type.isRequired, none⟩ :
        Except ShapeError Property)) o.variableDefs with ⟨ps, hps⟩ | ⟨v, hv, err, herr, -⟩
    · exact ⟨_, by rw [hps]; rfl⟩
    · have hknown := ho v hv
      rw [← Option.not_isNone, Bool.not_eq_true'] at hknown
      rw [hknown] at herr
      cases herr

theorem Ready.operation_cases (hd : cx.Ready d) (ho : o ∈ d.operations) :
    (∃ m, cx.operation o = .ok m) ∨ ∃ t ss e, Starts cx d t ss ∧ Unanswered cx t ss e ∧
      cx.operation o = .error e.complaint := by
  obtain ⟨name, hname⟩ := hd.named o ho
  obtain ⟨root, hroot⟩ := Option.isSome_iff_exists.1 (hd.roots o ho)
  obtain ⟨arguments, harguments⟩ : ∃ arguments, cx.parameterShape name.text o = .ok arguments :=
    exists_parameterShape name.text (hd.resolved.inputs o ho)
  rw [operation, hroot, hname]
  rcases hd.objects_cases (hd.resolved.operations o ho) name.text root with
    ⟨os, hos⟩ | ⟨e, he, herror⟩
  · exact .inl ⟨_, by simp only [hos, harguments]; rfl⟩
  · exact .inr ⟨_, _, e, .operation ho hroot, he, by simp only [herror]; rfl⟩

theorem Ready.fragment_cases (hd : cx.Ready d) (hf : f ∈ d.fragments) :
    (∃ m, cx.fragment f = .ok m) ∨ ∃ t ss e, Starts cx d t ss ∧ Unanswered cx t ss e ∧
      cx.fragment f = .error e.complaint := by
  obtain ⟨t, ht⟩ := Option.isSome_iff_exists.1 (hd.resolved.conditions f hf)
  have hstart : Starts cx d t f.selections := .fragment hf ht
  rw [Schema.composite?] at ht
  rw [fragment, ht]
  rcases hd.objects_cases (hd.resolved.fragments f hf) f.name.text t with
    ⟨os, hos⟩ | ⟨e, he, herror⟩
  · exact .inl ⟨_, by simp only [hos]; rfl⟩
  · exact .inr ⟨_, _, e, hstart, he, by simp only [herror]; rfl⟩

theorem answered_of_operation {root : NamedType} {m : ModuleShape} (h : cx.operation o = .ok m)
    (hroot : cx.schema.rootType? o.kind = some root) : Answered cx root o.selections := by
  obtain ⟨root', N, hroot', hN, -⟩ := exists_of_operation h
  obtain rfl := Option.some.inj (hroot.symm.trans hroot')
  exact answered_of_grow hN

theorem answered_of_fragment {m : ModuleShape} (h : cx.fragment f = .ok m)
    (ht : cx.schema.composite? f.condition.text = some t) : Answered cx t f.selections := by
  obtain ⟨t', N, ht', hN, -⟩ := exists_of_fragment h
  obtain rfl := Option.some.inj (ht.symm.trans ht')
  exact answered_of_grow hN

end ShapeContext
end QueryTypes
