import QueryTypes.Proofs.Output.Apart
import QueryTypes.Proofs.Shape.Answered
import QueryTypes.Proofs.Shape.Presence

/-!
# Generation from valid documents

Validation looks each field up on the type that it stands on. Object types are built per response
key, and all that is selected below a key is looked up on the type of the first field that has it.
So a valid document can fail: when the fields with a key are of different types and something is
selected that the first type has not, or when the document asks for the schema itself. Main
statement: valid documents generate exactly if no such entry is found, and none is in a document
that asks for data only and has one type for each key.
-/

namespace QueryTypes

open Execution (deepAll)
open ShapeContext

/-! ### References to the shared types -/

theorem dropEnding_eq_nil_iff {ending s : List Char} :
    dropEnding ending s = [] ↔ s = [] ∨ s = ending := by
  rw [dropEnding, Text.after?]
  by_cases hprefix : ending.reverse.isPrefixOf s.reverse = true
  · obtain ⟨front, hfront⟩ := List.reverse_prefix.1 (List.isPrefixOf_iff_prefix.1 hprefix)
    rw [if_pos hprefix, ← hfront, List.reverse_append, List.drop_left]
    change front.reverse.reverse = [] ↔ _
    rw [List.reverse_reverse]
    constructor
    · rintro rfl
      exact .inr rfl
    · rintro (hnil | hsame)
      · exact (List.append_eq_nil_iff.1 hnil).1
      · exact List.append_left_eq_self.1 hsame
  · rw [if_neg hprefix]
    constructor
    · exact .inl
    · rintro (hnil | rfl)
      · exact hnil
      · exact absurd (List.isPrefixOf_iff_prefix.2 (List.prefix_refl _)) hprefix

namespace Path

/-- A path that starts nowhere has segments that are more than nothing. -/
def IsSpelled (p : Path) : Prop := p.root = .here → "" ∉ p.segments

theorem isSpelled_ofText (s : String) : (ofText s).IsSpelled := by
  intro _ hmem
  simpa using (List.mem_filter.1 hmem).2

theorem IsSpelled.child {p : Path} (h : p.IsSpelled) (s : String) : (p.child s).IsSpelled := by
  rw [Path.child, join]
  split
  · exact isSpelled_ofText s
  · intro hroot hmem
    rcases List.mem_append.1 hmem with hmem | hmem
    · exact h hroot hmem
    · simpa using (List.mem_filter.1 hmem).2

theorem IsSpelled.text_ne_empty {p : Path} (h : p.IsSpelled) : p.text ≠ "" := by
  rw [text]
  split
  · decide
  · rename_i hplace
    intro hempty
    obtain ⟨hroot, hsegments⟩ := String.append_eq_empty_iff.1 hempty
    have hhere : p.root = .here := by
      cases hr : p.root with
      | here => rfl
      | slash => simp [hr, PathRoot.text] at hroot
      | twoSlashes => simp [hr, PathRoot.text] at hroot
    have hspelled := h hhere
    cases hs : p.segments with
    | nil => exact hplace ⟨hhere, hs⟩
    | cons first rest =>
      rw [hs] at hsegments hspelled
      have hfirst : first = "" := by
        cases rest with
        | nil => simpa [Text.joinWith] using hsegments
        | cons second rest =>
          rw [Text.joinWith, String.intercalate_cons_cons, String.append_eq_empty_iff,
            String.append_eq_empty_iff] at hsegments
          exact hsegments.1.1
      exact hspelled (hfirst ▸ List.mem_cons_self)

end Path

theorem Placement.isSpelled_shared (p : Placement) (sources : List Path) :
    (p.shared sources).IsSpelled := by
  rw [shared]
  split
  · exact Path.isSpelled_ofText _
  · refine Path.IsSpelled.child ?_ _
    split
    · exact Path.IsSpelled.child (fun hroot => by cases hroot) _
    · exact Path.isSpelled_ofText _

/-- One file can refer to another unless nothing is left of its path without the extension. -/
theorem moduleSpecifier_cases {target : Path} (htarget : target.IsSpelled) (cwd : Location)
    (start : Path) (extension : String) :
    target.text ≠ "." ++ extension ∧
        (∃ specifier, moduleSpecifier cwd start target extension = .ok specifier) ∨
      target.text = "." ++ extension ∧
        moduleSpecifier cwd start target extension = .error (.badValue "no path specified") := by
  have hbare : String.ofList (dropEnding ('.' :: extension.toList) target.text.toList) = "" ↔
      target.text = "." ++ extension := by
    rw [← String.toList_inj, String.toList_ofList, String.toList_empty, dropEnding_eq_nil_iff,
      ← String.toList_inj, String.toList_append]
    constructor
    · rintro (hnil | hsame)
      · exact absurd (String.toList_eq_nil_iff.1 hnil) htarget.text_ne_empty
      · exact hsame
    · exact .inr
  rw [moduleSpecifier]
  by_cases htext : target.text = "." ++ extension
  · exact .inr ⟨htext, if_pos (hbare.2 htext)⟩
  · exact .inl ⟨htext, _, if_neg (mt hbare.1 htext)⟩

/-! ### Modules and their files -/

namespace ShapeContext

variable {cx : ShapeContext} {d : Document} {ms : List ModuleShape} {t : NamedType}
  {ss : List Selection}

/-- Modules are built for all that is defined, or for an entry without a field for nothing. -/
theorem Ready.modules_cases (hd : cx.Ready d) (hfragments : d.fragmentNames.Nodup) :
    (∃ ms, Types.modules cx d = .ok ms) ∨ ∃ t ss x, cx.Starts d t ss ∧ cx.Unanswered t ss x ∧
      Types.modules cx d = .error x.complaint := by
  rw [Types.modules, hd.fragments, Document.values_fragmentTable hfragments]
  rcases Outcome.mapM_cases cx.operation d.operations with
    ⟨operations, hoperations⟩ | ⟨o, ho, err, herr, hall⟩
  · rcases Outcome.mapM_cases cx.fragment d.fragments with
      ⟨fragments, hall⟩ | ⟨f, hf, err, herr, hall⟩
    · exact .inl ⟨operations ++ fragments, by rw [hoperations, hall]; rfl⟩
    · rcases hd.fragment_cases hf with ⟨m, hm⟩ | ⟨t, ss, x, hstart, hx, hfails⟩
      · rw [hm] at herr
        cases herr
      · obtain rfl := Except.error.inj (hfails.symm.trans herr)
        exact .inr ⟨t, ss, x, hstart, hx, by rw [hoperations, hall]; rfl⟩
  · rcases hd.operation_cases ho with ⟨m, hm⟩ | ⟨t, ss, x, hstart, hx, hfails⟩
    · rw [hm] at herr
      cases herr
    · obtain rfl := Except.error.inj (hfails.symm.trans herr)
      exact .inr ⟨t, ss, x, hstart, hx, by rw [hall]; rfl⟩

theorem answered_of_modules (hcx : cx.fragments = d.fragmentTable)
    (hfragments : d.fragmentNames.Nodup) (h : Types.modules cx d = .ok ms)
    (hstart : cx.Starts d t ss) : cx.Answered t ss := by
  obtain ⟨operations, hoperations, h⟩ := Outcome.bind_eq_ok_iff.1 h
  obtain ⟨fragments, hbuilt, -⟩ := Outcome.bind_eq_ok_iff.1 h
  rw [hcx, Document.values_fragmentTable hfragments] at hbuilt
  cases hstart with
  | operation ho hroot =>
    obtain ⟨m, -, hm⟩ := (Outcome.mem_of_mapM hoperations).1 _ ho
    exact answered_of_operation hm hroot
  | fragment hf ht =>
    obtain ⟨m, -, hm⟩ := (Outcome.mem_of_mapM hbuilt).1 _ hf
    exact answered_of_fragment hm ht

theorem Unanswered.not_answered {x : Entry} (h : cx.Unanswered t ss x) : ¬ cx.Answered t ss := by
  obtain ⟨q, tt, es, hnested, hes, hmem, hstray⟩ := h
  exact fun hall => hall q tt es hnested hes x hmem hstray

end ShapeContext

/-- If there are files that refer to it, the file of the shared types is not named by the extension
alone. -/
def Placement.NamesShared (p : Placement) (d : Document) : Prop :=
  p.bundle? = none → d.titles ≠ [] →
    (p.shared (d.titles.filterMap Prod.fst)).text ≠ "." ++ p.extension

namespace Types

variable {l : Language} {e : Emission} {ms : List ModuleShape}

theorem moduleFile_cases (l : Language) (e : Emission) (ms : List ModuleShape) (m : ModuleShape) :
    (sharedPath l e ms).text ≠ "." ++ (placement l e).extension ∧
        (∃ f, moduleFile l e (sharedPath l e ms) m = .ok f) ∨
      (sharedPath l e ms).text = "." ++ (placement l e).extension ∧
        moduleFile l e (sharedPath l e ms) m =
          .error (.breakdown (.badValue "no path specified")) := by
  have hspelled : (sharedPath l e ms).IsSpelled := Placement.isSpelled_shared _ _
  rw [moduleFile]
  rcases moduleSpecifier_cases hspelled e.cwd
    ((placement l e).module (m.file.map Path.ofText) m.name).parent (placement l e).extension with
    ⟨htext, specifier, hspecifier⟩ | ⟨htext, herror⟩
  · exact .inl ⟨htext, _, by rw [hspecifier]; rfl⟩
  · exact .inr ⟨htext, by rw [herror]; rfl⟩

theorem moduleFiles_cases (l : Language) (e : Emission) (ms : List ModuleShape) :
    (ms ≠ [] → (sharedPath l e ms).text ≠ "." ++ (placement l e).extension) ∧
        (∃ files, ms.mapM (moduleFile l e (sharedPath l e ms)) = .ok files) ∨
      (ms ≠ [] ∧ (sharedPath l e ms).text = "." ++ (placement l e).extension) ∧
        ms.mapM (moduleFile l e (sharedPath l e ms)) =
          .error (.breakdown (.badValue "no path specified")) := by
  rcases Outcome.mapM_cases (moduleFile l e (sharedPath l e ms)) ms with
    ⟨files, hfiles⟩ | ⟨m, hm, err, herr, hall⟩
  · refine .inl ⟨fun hne => ?_, files, hfiles⟩
    obtain ⟨m, hm⟩ := List.exists_mem_of_ne_nil _ hne
    obtain ⟨f, -, hf⟩ := (Outcome.mem_of_mapM hfiles).1 m hm
    rcases moduleFile_cases l e ms m with ⟨htext, -⟩ | ⟨-, herror⟩
    · exact htext
    · cases hf.symm.trans herror
  · rcases moduleFile_cases l e ms m with ⟨-, f, hf⟩ | ⟨htext, herror⟩
    · cases hf.symm.trans herr
    · obtain rfl := Except.error.inj (herror.symm.trans herr)
      exact .inr ⟨⟨List.ne_nil_of_mem hm, htext⟩, hall⟩

/-- Files are laid out for all modules, if each one can refer to the shared types. -/
theorem emit_cases (hms : modules e.context e.document = .ok ms)
    (htitles : ms.map ModuleShape.title = e.document.titles) :
    (placement l e).NamesShared e.document ∧
        (∃ files, emit l Overrides.none e = .ok files) ∨
      ¬ (placement l e).NamesShared e.document ∧
        emit l Overrides.none e = .error (.breakdown (.badValue "no path specified")) := by
  cases hb : (placement l e).bundle? with
  | some path =>
    refine .inl ⟨fun hnone => ?_, ?_⟩
    · rw [hb] at hnone
      cases hnone
    · rw [emit_eq_bundle hms hb]
      exact ⟨_, rfl⟩
  | none =>
    have hempty : e.document.titles = [] ↔ ms = [] := by rw [← htitles, List.map_eq_nil_iff]
    have hshared : (placement l e).NamesShared e.document ↔
        (ms ≠ [] → (sharedPath l e ms).text ≠ "." ++ (placement l e).extension) := by
      rw [Placement.NamesShared, ← sharedPath_eq l htitles, ne_eq, hempty]
      simp [hb]
    rw [hshared, emit_eq_files hms hb]
    rcases moduleFiles_cases l e ms with ⟨htext, files, hfiles⟩ | ⟨⟨hne, htext⟩, hall⟩
    · refine .inl ⟨htext, ?_⟩
      rw [hfiles]
      simp only [bind, Except.bind]
      split
      · exact ⟨_, rfl⟩
      · exact ⟨_, rfl⟩
    · exact .inr ⟨fun h => h hne htext, by rw [hall]; rfl⟩

end Types

/-! ### Valid documents -/

/-- Nothing in the document asks for the schema itself. -/
structure Document.AsksData (d : Document) : Prop where
  operations : ∀ o ∈ d.operations, deepAll Selection.asksData o.selections = true
  fragments : ∀ f ∈ d.fragments, deepAll Selection.asksData f.selections = true

theorem asksData_addTypename (sel : Selection) : sel.addTypename.asksData = sel.asksData := by
  cases sel <;> rfl

theorem Document.AsksData.addTypename {d : Document} (h : d.AsksData) : d.addTypename.AsksData where
  operations o ho := by
    obtain ⟨o, hmem, rfl⟩ := List.mem_map.1 ho
    exact (deepAll_addTypenames rfl asksData_addTypename _).trans (h.operations o hmem)
  fragments f hf := by
    obtain ⟨f, hmem, rfl⟩ := List.mem_map.1 hf
    exact ((deepAll_withTypename rfl _).trans
      (deepAll_addTypenames rfl asksData_addTypename _)).trans (h.fragments f hmem)

namespace ShapeContext

variable {cx : ShapeContext} {parent q : NamedType} {ss tt : List Selection}

theorem Nested.check {check : Selection → Bool} (h : Nested cx parent ss q tt)
    (htable : ∀ n f, cx.fragments.get? n = some f → deepAll check f.selections = true)
    (hparent : parent ∈ cx.schema.types) (hss : deepAll check ss = true) :
    q ∈ cx.schema.types ∧ deepAll check tt = true := by
  induction h with
  | here => exact ⟨hparent, hss⟩
  | inside _ hes he hopens ih =>
    obtain ⟨-, type, description, -, ht⟩ := hopens
    exact ⟨Schema.mem_of_composite? ht, ((Level.merges_of_entries hes).1 _ he).check htable ih.2⟩

/-- A field that is selected under its own name. -/
def asksPlainly (sel : Selection) : Bool := Generation.isUnaliased sel && sel.asksData

/-- Where fields of one name have one type, so have keys that are names of fields. -/
theorem oneTyped_of_unaliased
    (hschema : ∀ t ∈ cx.schema.types, ∀ u ∈ cx.schema.types, ∀ f ∈ t.fields, ∀ g ∈ u.fields,
      g.name = f.name → g.type.leaf = f.type.leaf)
    (htable : ∀ n f, cx.fragments.get? n = some f → deepAll asksPlainly f.selections = true)
    (hparent : parent ∈ cx.schema.types) (hss : deepAll asksPlainly ss = true) :
    OneTyped cx parent ss := by
  intro q tt hnested occ other f g hocc hother hkey _ hf hg
  obtain ⟨hq, htt⟩ := hnested.check htable hparent hss
  have hplain : ∀ o, Level.Occurs cx.schema cx.fragments [] q false tt o →
      o.field = o.key ∧ o.field ≠ "__schema" ∧ o.field ≠ "__type" := by
    intro o ho
    obtain ⟨⟨head, b, hk, hname, hcheck⟩, -⟩ := ho.check htable htt
    rw [asksPlainly, Generation.isUnaliased, Selection.asksData, Bool.and_eq_true,
      Bool.and_eq_true, bne_iff_ne, bne_iff_ne, Option.isNone_iff_eq_none] at hcheck
    rw [FieldHead.key, hcheck.1, Option.getD_none] at hk
    exact ⟨hname.symm.trans hk, hname ▸ hcheck.2⟩
  obtain ⟨hfield, hnotSchema, hnotType⟩ := hplain occ hocc
  have hsame : other.field = occ.field := (hplain other hother).1.trans (hkey.trans hfield.symm)
  rw [hsame] at hg
  by_cases htypename : occ.field = "__typename"
  · rw [htypename, Schema.fieldOf?_typename] at hf hg
    rw [← Option.some.inj hf, ← Option.some.inj hg]
  · have hf' := Schema.field?_of_fieldOf? hf hnotSchema hnotType htypename
    have hg' := Schema.field?_of_fieldOf? hg hnotSchema hnotType htypename
    have hnamed : f.name = occ.field := by simpa using List.find?_some hf'
    have hnamed' : g.name = occ.field := by simpa using List.find?_some hg'
    exact hschema _ (hocc.mem_types hq) _ (hother.mem_types hq) f (List.mem_of_find?_eq_some hf')
      g (List.mem_of_find?_eq_some hg') (hnamed'.trans hnamed.symm)

end ShapeContext

namespace Generation

variable {g : Generation} {files : List ClientFile} {t : NamedType} {ss : List Selection}

theorem preparedDocument_asksData (h : g.document.AsksData) : g.preparedDocument.AsksData := by
  rw [preparedDocument]
  split
  · exact h.addTypename
  · exact h

theorem preparedDocument_resolved (h : g.document.Resolved g.schema) :
    g.preparedDocument.Resolved g.schema := by
  rw [preparedDocument]
  split
  · exact h.addTypename
  · exact h

theorem exists_operation_of_prepared {o : Operation} (ho : o ∈ g.preparedDocument.operations) :
    ∃ o' ∈ g.document.operations, o'.name = o.name ∧ o'.kind = o.kind := by
  rw [preparedDocument] at ho
  split at ho
  · obtain ⟨o', ho', rfl⟩ := List.mem_map.1 ho
    exact ⟨o', ho', rfl, rfl⟩
  · exact ⟨o, ho, rfl, rfl⟩

theorem ready_context (hdocument : g.document = ClientFiles.document files)
    (hvalid : ClientFiles.validity (some g.schema) files = .ok ())
    (hroots : ∀ o ∈ g.document.operations, (g.schema.rootType? o.kind).isSome = true) :
    g.context.Ready g.preparedDocument ∧ g.preparedDocument.fragmentNames.Nodup := by
  obtain ⟨hown, -, hcomplaints⟩ := Validation.validity_eq_ok_iff.1 hvalid
  rw [ClientFiles.ownProblems_eq_report, ClientFiles.report_eq_nil_iff] at hown
  have hnames := hown.2.names
  rw [← ClientFiles.document_eq hown.2, ← hdocument] at hnames
  rw [← hdocument] at hcomplaints
  obtain ⟨hnamed, -, hfragments⟩ := hnames
  refine ⟨⟨rfl, preparedDocument_resolved (resolved_of_complaints hcomplaints), ?_, ?_⟩, ?_⟩
  · intro o ho
    obtain ⟨o', ho', hname, -⟩ := exists_operation_of_prepared ho
    rw [← hname]
    exact hnamed o' ho'
  · intro o ho
    obtain ⟨o', ho', -, hkind⟩ := exists_operation_of_prepared ho
    rw [← hkind]
    exact hroots o' ho'
  · rw [congr_preparedDocument Document.fragmentNames_addTypename]
    exact hfragments

theorem standing_of_starts (hdocument : g.document = ClientFiles.document files)
    (hvalid : ClientFiles.validity (some g.schema) files = .ok ()) (hdata : g.document.AsksData)
    (hstart : g.context.Starts g.preparedDocument t ss) : g.context.Standing t ss := by
  have hknown := preparedDocument_known hdocument hvalid
  have hprepared := preparedDocument_asksData hdata
  cases hstart with
  | @operation o root ho hroot =>
    have hsound := (Validation.validity_eq_ok_iff.1 hvalid).2.1
    have hobject := Schema.isObject_of_rootType? hsound hroot
    exact ⟨fun sel hsel => (hknown.operations o ho t hroot hobject).of_mem hsel,
      hprepared.operations o ho⟩
  | @fragment f t hf ht =>
    exact ⟨fun sel hsel => (hknown.fragments f hf t ht).of_mem hsel, hprepared.fragments f hf⟩

theorem fragmentsStand_context (hdocument : g.document = ClientFiles.document files)
    (hvalid : ClientFiles.validity (some g.schema) files = .ok ()) (hdata : g.document.AsksData) :
    g.context.FragmentsStand where
  known _ f hf := (preparedDocument_known hdocument hvalid).fragments f (fragment_of_get? hf).1
  data _ f hf := (preparedDocument_asksData hdata).fragments f (fragment_of_get? hf).1

/-- No entry of any level for the document stands on a type without its field. -/
def Answered (g : Generation) : Prop :=
  ∀ t ss, g.context.Starts g.preparedDocument t ss → g.context.Answered t ss

/-- How a generation from a valid document ends. -/
theorem emission_cases (l : Language) (cwd : Location)
    (hdocument : g.document = ClientFiles.document files)
    (hvalid : ClientFiles.validity (some g.schema) files = .ok ())
    (hroots : ∀ o ∈ g.document.operations, (g.schema.rootType? o.kind).isSome = true) :
    let outcome := Types.emit l Overrides.none (g.emission cwd)
    let p := Types.placement l (g.emission cwd)
    (g.Answered ∧ p.NamesShared g.document ∧ ∃ written, outcome = .ok written) ∨
    (g.Answered ∧ ¬ p.NamesShared g.document ∧
      outcome = .error (.breakdown (.badValue "no path specified"))) ∨
    ∃ t ss x, g.context.Starts g.preparedDocument t ss ∧ g.context.Unanswered t ss x ∧
      outcome = .error x.complaint.failure := by
  intro outcome p
  obtain ⟨hready, hfragments⟩ := ready_context hdocument hvalid hroots
  have hnames : p.NamesShared g.preparedDocument ↔ p.NamesShared g.document := by
    rw [Placement.NamesShared, preparedDocument_titles, Placement.NamesShared]
  rcases hready.modules_cases hfragments with ⟨ms, hms⟩ | ⟨t, ss, x, hstart, hx, herror⟩
  · have hanswered : g.Answered := fun t ss => answered_of_modules rfl hfragments hms
    have htitles := Types.titles_of_modules rfl hfragments hms
    rcases Types.emit_cases (e := g.emission cwd) hms htitles with
      ⟨hshared, hwritten⟩ | ⟨hshared, herror⟩
    · exact .inl ⟨hanswered, hnames.1 hshared, hwritten⟩
    · exact .inr (.inl ⟨hanswered, mt hnames.2 hshared, herror⟩)
  · exact .inr (.inr ⟨t, ss, x, hstart, hx, Types.emit_eq_error herror⟩)

/-- Which valid documents generate. For every schema with the root types that are needed and every
document that is valid for it, with or without the names of types: declarations are laid out exactly
if no entry of any level stands on a type without its field, and no file has to refer to one that is
named by the extension alone. A failure names the field of such an entry and its type. All is well
with documents that ask for data only and have one type for each key. -/
theorem emits_iff_answered (g : Generation) (files : List ClientFile) (l : Language)
    (cwd : Location) (hdocument : g.document = ClientFiles.document files)
    (hvalid : ClientFiles.validity (some g.schema) files = .ok ())
    (hroots : ∀ o ∈ g.document.operations, (g.schema.rootType? o.kind).isSome = true) :
    let outcome := Types.emit l Overrides.none (g.emission cwd)
    let p := Types.placement l (g.emission cwd)
    ((∃ written, outcome = .ok written) ↔ g.Answered ∧ p.NamesShared g.document) ∧
    (∀ failure, outcome = .error failure →
      (∃ t ss x, g.context.Starts g.preparedDocument t ss ∧ g.context.Unanswered t ss x ∧
        failure = .generation
          ("Cannot query field '" ++ x.field ++ "' on type '" ++ x.parent.name ++ "'")) ∨
      ¬ p.NamesShared g.document ∧ failure = .breakdown (.badValue "no path specified")) ∧
    (g.document.AsksData →
      (∀ t ss, g.context.Starts g.preparedDocument t ss → g.context.OneTyped t ss) →
        p.NamesShared g.document → ∃ written, outcome = .ok written) := by
  intro outcome p
  have hiff : (∃ written, outcome = .ok written) ↔ g.Answered ∧ p.NamesShared g.document := by
    rcases emission_cases l cwd hdocument hvalid hroots with
      ⟨hanswered, hshared, hwritten⟩ | ⟨-, hshared, herror⟩ | ⟨t, ss, x, hstart, hx, herror⟩
    · exact iff_of_true hwritten ⟨hanswered, hshared⟩
    · refine iff_of_false ?_ fun h => hshared h.2
      rintro ⟨written, hwritten⟩
      cases hwritten.symm.trans herror
    · refine iff_of_false ?_ fun h => hx.not_answered (h.1 t ss hstart)
      rintro ⟨written, hwritten⟩
      cases hwritten.symm.trans herror
  refine ⟨hiff, ?_, ?_⟩
  · intro failure hfailure
    rcases emission_cases l cwd hdocument hvalid hroots with
      ⟨-, -, written, hwritten⟩ | ⟨-, hshared, herror⟩ | ⟨t, ss, x, hstart, hx, herror⟩
    · cases hfailure.symm.trans hwritten
    · exact .inr ⟨hshared, Except.error.inj (hfailure.symm.trans herror)⟩
    · exact .inl ⟨t, ss, x, hstart, hx, Except.error.inj (hfailure.symm.trans herror)⟩
  · intro hdata hone hshared
    refine hiff.2 ⟨fun t ss hstart => ?_, hshared⟩
    exact answered_of_oneTyped (fragmentsStand_context hdocument hvalid hdata)
      (standing_of_starts hdocument hvalid hdata hstart) (hone t ss hstart)

/-- A union whose members give a field two types, with a field below it that the first has not. -/
def crossedSchema : Schema :=
  ⟨[plainType "Query" [("it", "It")], ⟨"It", none, .union ["A", "B"]⟩, plainType "A" [("x", "Foo")],
    plainType "B" [("x", "Bar")], plainType "Foo" [("c", "String")],
    plainType "Bar" [("d", "String")], ⟨"String", none, .scalar⟩], some "Query", none, none, []⟩

def crossedFile : ClientFile :=
  ⟨["q.graphql"], [.operation { partedOperation with
    selections := [plainField "it" [onType "A" [plainField "x" [plainField "c" []]],
      onType "B" [plainField "x" [plainField "d" []]]]] }], []⟩

def crossed : Generation :=
  { parted with document := ClientFiles.document [crossedFile], schema := crossedSchema }

theorem crossed_fails : Types.emit .typescript Overrides.none (crossed.emission []) =
    .error (.generation "Cannot query field 'd' on type 'Foo'") := rfl

theorem parted_oneTyped {t : NamedType} {ss : List Selection}
    (h : parted.context.Starts parted.preparedDocument t ss) : parted.context.OneTyped t ss := by
  cases h with
  | @operation o root ho hroot =>
    obtain rfl : o = partedOperation := List.mem_singleton.1 ho
    obtain rfl : plainType "Query" [("it", "It")] = t := Option.some.inj hroot
    refine oneTyped_of_unaliased (by decide) (fun n f hf => ?_) List.mem_cons_self rfl
    rw [parted_fragments] at hf
    cases hf
  | fragment hf => exact absurd hf List.not_mem_nil

/-- The first document is valid and generates nothing; the second one has one type for each key. -/
theorem emits_iff_answered_crossed :
    ClientFiles.validity (some crossed.schema) [crossedFile] = .ok () ∧
      (∃ t ss x, crossed.context.Starts crossed.preparedDocument t ss ∧
        crossed.context.Unanswered t ss x ∧ "Cannot query field 'd' on type 'Foo'" =
          "Cannot query field '" ++ x.field ++ "' on type '" ++ x.parent.name ++ "'") ∧
      ¬ crossed.Answered ∧
      parted.Answered ∧
      ∃ written, Types.emit .typescript Overrides.none (parted.emission []) = .ok written := by
  have hvalid : ClientFiles.validity (some crossed.schema) [crossedFile] = .ok () :=
    Validation.validity_of_findings rfl (by decide +kernel) (by decide +kernel)
  obtain ⟨-, hfailures, -⟩ :=
    emits_iff_answered crossed [crossedFile] .typescript [] rfl hvalid (by decide)
  have hstray : ∃ t ss x, crossed.context.Starts crossed.preparedDocument t ss ∧
      crossed.context.Unanswered t ss x ∧ "Cannot query field 'd' on type 'Foo'" =
        "Cannot query field '" ++ x.field ++ "' on type '" ++ x.parent.name ++ "'" := by
    rcases hfailures _ crossed_fails with ⟨t, ss, x, hstart, hx, hfailure⟩ | ⟨-, hfailure⟩
    · exact ⟨t, ss, x, hstart, hx, Failure.generation.inj hfailure⟩
    · cases hfailure
  obtain ⟨hiff, -, hgenerates⟩ :=
    emits_iff_answered parted [partedFile] .typescript [] rfl parted_valid (by decide)
  have hwritten : ∃ written,
      Types.emit .typescript Overrides.none (parted.emission []) = .ok written := by
    refine hgenerates ⟨fun o ho => ?_, fun f hf => absurd hf List.not_mem_nil⟩
      (fun t ss => parted_oneTyped) ?_
    · obtain rfl : o = partedOperation := List.mem_singleton.1 ho
      rfl
    · exact fun _ _ => by decide +kernel
  obtain ⟨t, ss, x, hstart, hx, hfailure⟩ := hstray
  exact ⟨hvalid, ⟨t, ss, x, hstart, hx, hfailure⟩,
    fun hanswered => hx.not_answered (hanswered t ss hstart), (hiff.1 hwritten).1, hwritten⟩

end Generation
end QueryTypes
