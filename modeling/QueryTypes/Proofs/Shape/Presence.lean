import QueryTypes.Output.Generate
import QueryTypes.Proofs.Document.Uses
import QueryTypes.Proofs.Execution.Standing
import QueryTypes.Proofs.Shape.Keys

/-!
# Presence of required keys

A key that an object type requires is in every object for which a field with the key lives. That is
so in every response as long as what is merged on a level is either the same or unconditional.
-/

namespace QueryTypes

namespace ShapeTree

/-- Every object in the response has the keys that its object type requires. -/
def Fulfilled (N : ShapeTree) (a : Answer) : Prop :=
  ∀ types path c M, a.Holds types path c → N.at? path = some M →
    ∀ p ∈ M.properties, p.optional = false → p.name ∈ c.keys

/-- For each key that an object type requires a field lives where an object of it is. -/
def Backed (N : ShapeTree) (E : Execution) (ss : List Selection) (a : Answer) : Prop :=
  ∀ types path c M, a.Holds types path c → N.at? path = some M →
    ∀ p ∈ M.properties, p.optional = false →
      ∃ node, node.key = p.name ∧
        Execution.Lives E (types ++ [c.1]) (path ++ [node.key]) ss node

/-- Occurrences of one key, one of them with selections below it, are the same selection of a field
or are all unconditional selections of one field. -/
def SteadyLevel (cx : ShapeContext) (N : ShapeTree) : Prop :=
  ∀ occ other, Level.Occurs cx.schema cx.fragments [] N.parent false N.selections occ →
    Level.Occurs cx.schema cx.fragments [] N.parent false N.selections other →
    other.key = occ.key → occ.selections ≠ [] →
      other.field = occ.field ∧
        (other.parent = occ.parent ∧ other.selections = occ.selections ∨
          other.conditional = false ∧ occ.conditional = false)

def Steady (cx : ShapeContext) (N : ShapeTree) : Prop :=
  ∀ path M, N.at? path = some M → M.SteadyLevel cx

end ShapeTree

theorem NamedType.field_of_selectable {t : NamedType} {name : String} {type : TypeRef}
    {description : Option String} (hc : t.isComposite = true)
    (h : t.selectable name = .ok (type, description)) :
    ∃ d, t.field? name = some d ∧ d.type = type := by
  have hinputs : t.inputFields = [] := by
    obtain ⟨n, description, body⟩ := t
    cases body <;> simp_all [NamedType.inputFields, NamedType.isComposite, NamedType.isObject,
      NamedType.isAbstract, NamedType.isInterface, NamedType.isUnion]
  rw [selectable, hinputs, List.find?_nil] at h
  cases hd : t.field? name with
  | none => simp [hd] at h
  | some d =>
    simp only [hd] at h
    exact ⟨d, rfl, (Prod.mk.inj (Except.ok.inj h)).1⟩

namespace ShapeContext

open Execution

variable {cx : ShapeContext} {values : String → Bool} {N B : ShapeTree} {t : NamedType}
  {ss : List Selection} {nodes : List FieldNode} {seen : List String} {k : String}
  {occ : Occurrence} {node : FieldNode}

/-- The selections for an object are those that the tree was built for, and the object has the type
that it was built for. -/
structure Mirrors (cx : ShapeContext) (values : String → Bool) (N : ShapeTree) (t : NamedType)
    (ss : List Selection) : Prop where
  grown : Grown cx N
  stands : Stands (cx.execution values) t ss
  plain : Plain cx.fragments ss
  mem_selections_iff : ∀ sel, sel ∈ ss ↔ sel ∈ N.selections
  mem : N.parent ∈ cx.schema.types
  isA : N.selections ≠ [] → cx.schema.isA t N.parent = true

/-- An occurrence on the level of a tree. -/
def OccursOn (cx : ShapeContext) (N : ShapeTree) (occ : Occurrence) : Prop :=
  Level.Occurs cx.schema cx.fragments [] N.parent false N.selections occ

theorem OccursOn.ne_nil (h : OccursOn cx N occ) : N.selections ≠ [] := by
  cases h with
  | field hmem => exact List.ne_nil_of_mem hmem
  | inline hmem => exact List.ne_nil_of_mem hmem
  | spread hmem => exact List.ne_nil_of_mem hmem

/-- What the executor reaches occurs on the level, on a type that the object has. -/
theorem Mirrors.exists_occurs (h : Mirrors cx values N t ss)
    (hc : Collects (cx.execution values) t [] ss nodes seen) (hnode : node ∈ nodes) :
    ∃ occ, OccursOn cx N occ ∧ occ.Of node ∧ cx.schema.isA t occ.parent = true := by
  obtain ⟨es, hes⟩ := h.grown.levelled
  have hr := (hc.reachesApart hnode).mono fun sel hsel => (h.mem_selections_iff sel).1 hsel
  obtain ⟨occ, hocc, hof, hisA, -⟩ := Level.exists_entry_of_reaches hes.entries hr
  exact ⟨occ, hocc, hof, hisA (h.isA (OccursOn.ne_nil hocc))⟩

/-- What occurs without a condition is reached by the executor. -/
theorem Mirrors.exists_node (hs : cx.schema.Distinct) (h : Mirrors cx values N t ss)
    (hc : Collects (cx.execution values) t [] ss nodes seen) (hocc : OccursOn cx N occ)
    (hcond : occ.conditional = false) :
    ∃ node ∈ nodes, occ.Of node ∧ cx.schema.isA t occ.parent = true := by
  have hplain : Plain cx.fragments N.selections :=
    Plain.of_mem fun sel hsel => ⟨ss, (h.mem_selections_iff sel).2 hsel, h.plain⟩
  obtain ⟨node, hr, hof, hisA⟩ :=
    Level.Occurs.reaches (E := cx.execution values) hs hocc hplain h.mem hcond (h.isA hocc.ne_nil)
  refine ⟨node, hc.mem_iff.2 (hr.mono fun sel hsel => ?_), hof, hisA⟩
  exact (h.mem_selections_iff sel).2 hsel

/-- On a steady level all fields with a key share an occurrence with selections below it. -/
theorem Mirrors.shared (hs : cx.schema.Distinct) (h : Mirrors cx values N t ss)
    (hsteady : N.SteadyLevel cx) (hc : Collects (cx.execution values) t [] ss nodes seen)
    (hnode : node ∈ nodes) (hocc : OccursOn cx N occ) (hk : node.key = occ.key)
    (hne : occ.selections ≠ []) :
    node.head.name = occ.field ∧ cx.schema.isA t occ.parent = true ∧
      ∃ other ∈ nodes, other.key = occ.key ∧ other.selections = occ.selections := by
  obtain ⟨occ', hocc', hof, hisA⟩ := h.exists_occurs hc hnode
  obtain ⟨hfield, hsame⟩ := hsteady occ occ' hocc hocc' (hof.key.trans hk) hne
  refine ⟨hof.field.symm.trans hfield, ?_⟩
  rcases hsame with ⟨hparent, hselections⟩ | ⟨-, hcond⟩
  · rw [hparent] at hisA
    exact ⟨hisA, node, hnode, hk, hof.selections.symm.trans hselections⟩
  · obtain ⟨other, hother, hof', hisA'⟩ := h.exists_node hs hc hocc hcond
    exact ⟨hisA', other, hother, hof'.key.symm, hof'.selections.symm⟩

theorem Mirrors.agree (hs : cx.schema.Distinct) (h : Mirrors cx values N t ss)
    (hsteady : N.SteadyLevel cx) (hc : Collects (cx.execution values) t [] ss nodes seen) :
    Agree k nodes := by
  rintro node hnode rfl hne other hother hk
  obtain ⟨occ, hocc, hof, -⟩ := h.exists_occurs hc hnode
  have hshared := h.shared hs hsteady hc hother hocc (hk.trans hof.key.symm)
    (by rw [hof.selections]; exact hne)
  exact hshared.1.trans hof.field

theorem Mirrors.mem_below (hs : cx.schema.Distinct) (h : Mirrors cx values N t ss)
    (hsteady : N.SteadyLevel cx) (hc : Collects (cx.execution values) t [] ss nodes seen)
    (hnode : node ∈ nodes) (hB : N.branches.lookup node.key = some B) :
    ∀ sel ∈ B.selections, sel ∈ below node.key nodes := by
  intro sel hsel
  obtain ⟨e, hk, hbears, hmerges⟩ := h.grown.branch hB
  rw [hbears.selections, hmerges.mem_selections_iff] at hsel
  obtain ⟨occ, hocc, hkey, hsel⟩ := hsel
  obtain ⟨-, -, other, hother, hk', hselections⟩ :=
    h.shared hs hsteady hc hnode hocc (hk.symm.trans hkey.symm) (List.ne_nil_of_mem hsel)
  rw [← hselections] at hsel
  exact mem_below_iff.2 ⟨other, hother, hk'.trans (hkey.trans hk), hsel⟩

/-- The first occurrence of a key with selections below it is on a type that the object has. -/
theorem Mirrors.isA_first (hs : cx.schema.Distinct) (h : Mirrors cx values N t ss)
    (hsteady : N.SteadyLevel cx) (hc : Collects (cx.execution values) t [] ss nodes seen)
    (hnode : node ∈ nodes) {e : Entry} (hk : e.key = node.key)
    (hmerges : Level.Merges cx.schema cx.fragments N.parent N.selections e)
    (hne : e.selections ≠ []) :
    node.head.name = e.field ∧ e.parent ∈ cx.schema.types ∧
      cx.schema.isA t e.parent = true := by
  obtain ⟨sel, hsel⟩ := List.exists_mem_of_ne_nil _ hne
  obtain ⟨occ, hocc, hkey, hsel⟩ := (hmerges.mem_selections_iff sel).1 hsel
  obtain ⟨first, hfirst, hkey', hfield, hparent⟩ := hmerges.first
  have hocc' := List.ne_nil_of_mem hsel
  obtain ⟨hname, hisA, -⟩ := h.shared hs hsteady hc hnode hocc (hk.symm.trans hkey.symm) hocc'
  obtain ⟨hfield', hsame⟩ := hsteady occ first hocc hfirst (hkey'.trans hkey.symm) hocc'
  rw [← hfield, ← hparent]
  refine ⟨hname.trans hfield'.symm, hfirst.mem_types h.mem, ?_⟩
  rcases hsame with ⟨hsame, -⟩ | ⟨hcond, -⟩
  · rw [hsame]
    exact hisA
  · obtain ⟨-, -, -, hisA'⟩ := h.exists_node hs hc hfirst hcond
    exact hisA'

theorem Mirrors.isA_branch (hE : (cx.execution values).Fit) (h : Mirrors cx values N t ss)
    (hsteady : N.SteadyLevel cx) (hc : Collects (cx.execution values) t [] ss nodes seen)
    (hnode : node ∈ nodes) {f : Field} (hf : cx.schema.fieldOf? t node.head.name = some f)
    {u t' : NamedType} (hu : cx.schema.composite? f.type.leaf = some u)
    (ht' : t' ∈ cx.schema.possibleTypes u) (hB : N.branches.lookup node.key = some B)
    (hne : B.selections ≠ []) : cx.schema.isA t' B.parent = true := by
  have hs : cx.schema.Distinct := hE.distinct
  have hsound : cx.schema.complaints = [] := hE.sound
  obtain ⟨e, hk, hbears, hmerges⟩ := h.grown.branch hB
  rw [hbears.selections] at hne
  obtain ⟨hname, hmem, hisA⟩ := h.isA_first hs hsteady hc hnode hk hmerges hne
  obtain ⟨type, description, hselectable, hparent⟩ := hbears.parent
  have hcomposite : e.parent.isComposite = true :=
    isComposite_of_isA hE h.stands.mem h.stands.object hmem hisA
  obtain ⟨d, hd, rfl⟩ := NamedType.field_of_selectable hcomposite hselectable
  have hd' := Schema.fieldOf?_of_field? hsound hmem hd
  obtain ⟨own, hown, hsub⟩ :=
    Schema.field_of_isA hs hsound h.stands.mem h.stands.object hmem hisA hd'
  rw [← hname, hf] at hown
  obtain rfl := Option.some.inj hown
  obtain ⟨w, hw, ha⟩ := Schema.isA_of_isSubtype hs hsound hsub hu ht'
  rw [hparent] at hw
  obtain rfl := Option.some.inj hw
  exact ha

theorem Mirrors.step (hE : (cx.execution values).Fit) (h : Mirrors cx values N t ss)
    (hsteady : N.SteadyLevel cx) (hc : Collects (cx.execution values) t [] ss nodes seen)
    {f : Field} (hf : (cx.execution values).asked? t k nodes = some f) {u t' : NamedType}
    (hu : cx.schema.composite? f.type.leaf = some u) (ht' : t' ∈ cx.schema.possibleTypes u)
    (hB : N.branches.lookup k = some B) : Mirrors cx values B t' (below k nodes) := by
  obtain ⟨node, hnode, rfl, -, hfirst⟩ := exists_of_asked hf
  obtain ⟨e, hk, hbears, -⟩ := h.grown.branch hB
  obtain ⟨type, description, -, hparent⟩ := hbears.parent
  refine ⟨hbears.grown, h.stands.below hE hc (h.agree hE.distinct hsteady hc) hf hu ht', ?_, ?_,
    Schema.mem_of_composite? hparent, h.isA_branch hE hsteady hc hnode hfirst hu ht' hB⟩
  · refine Plain.of_mem fun sel hsel => ?_
    obtain ⟨other, hother, -, hsel⟩ := mem_below_iff.1 hsel
    exact ⟨_, hsel, h.plain.of_reaches (hc.mem_iff.1 hother)⟩
  · intro sel
    constructor
    · exact h.grown.below_subset (fun sel hsel => (h.mem_selections_iff sel).1 hsel) hc hB sel
    · exact h.mem_below hE.distinct hsteady hc hnode hB sel

theorem Mirrors.mem_keys (hE : (cx.execution values).Fit) (h : Mirrors cx values N t ss)
    {ms : List (String × Reply)} (ha : Answers (cx.execution values) t ss ms) {p : Property}
    (hp : p ∈ N.properties) (hrequired : p.optional = false) : p.name ∈ ms.map Prod.fst := by
  rw [h.stands.mem_keys_iff hE ha]
  obtain ⟨hcollects, -, -, -⟩ := ha
  obtain ⟨es, hes⟩ := h.grown.levelled
  obtain ⟨e, he, hdeclares⟩ := hes.property p hp
  have hmerges := (Level.merges_of_entries hes.entries).1 e he
  rw [hdeclares.optional] at hrequired
  obtain ⟨occ, hocc, hk, hcond⟩ := hmerges.conditional_iff.1 hrequired
  obtain ⟨node, hnode, hof, -⟩ := h.exists_node hE.distinct hcollects hocc hcond
  refine ⟨node, ?_, hcollects.mem_iff.1 hnode⟩
  rw [← hof.key, hk, hdeclares.name]

theorem Mirrors.fulfilled (hE : (cx.execution values).Fit) {a : Answer}
    (h : Mirrors cx values N a.1 ss) (hsteady : N.Steady cx)
    (ha : Answers (cx.execution values) a.1 ss a.2) : N.Fulfilled a := by
  intro types path c M hholds hM p hp hrequired
  induction hholds generalizing N ss with
  | here =>
    obtain rfl := Option.some.inj hM
    exact h.mem_keys hE ha hp hrequired
  | @inside a b c k v types path hmem hb _ ih =>
    rw [ShapeTree.at?, Option.bind_eq_some_iff] at hM
    obtain ⟨B, hB, hM⟩ := hM
    obtain ⟨hcollects, hkeys, hvalues, -⟩ := ha
    obtain ⟨f, hf⟩ := (mem_keys_iff hkeys).1 (List.mem_map_of_mem hmem)
    obtain ⟨u, hu, ht', hb'⟩ := Completes.answers_of_mem_outer v (hvalues k v f hmem hf) hb
    have hB' : Mirrors cx values B b.1 _ := h.step hE (hsteady [] N rfl) hcollects hf hu ht' hB
    refine ih hB' (fun path M hM => hsteady (k :: path) M ?_) hb' hM
    rw [ShapeTree.at?, hB, Option.bind_some, hM]

/-- Where fields with one key have one name, exactly the keys of fields that live are there. -/
theorem fulfilled_iff (hE : (cx.execution values).Fit) {a : Answer}
    (h : Stands (cx.execution values) a.1 ss) (ha : Answers (cx.execution values) a.1 ss a.2)
    (huniform : Uniform (cx.execution values) ss) :
    N.Fulfilled a ↔ N.Backed (cx.execution values) ss a := by
  have hkeys : ∀ types path c k, a.Holds types path c → (k ∈ c.keys ↔ ∃ node, node.key = k ∧
      Lives (cx.execution values) (types ++ [c.1]) (path ++ [node.key]) ss node) := by
    intro types path c k hholds
    obtain ⟨ss', hc, hstands, hreach⟩ := h.of_holds hE hholds ha huniform
    rw [Answer.keys, hstands.mem_keys_iff hE hc]
    simp only [hreach]
  constructor
  · intro hfulfilled types path c M hholds hM p hp hrequired
    exact (hkeys types path c p.name hholds).1 (hfulfilled types path c M hholds hM p hp hrequired)
  · intro hbacked types path c M hholds hM p hp hrequired
    exact (hkeys types path c p.name hholds).2 (hbacked types path c M hholds hM p hp hrequired)

end ShapeContext

namespace Generation

open Execution ShapeContext

/-- What the shapes of a generation depend on. -/
def context (g : Generation) : ShapeContext :=
  ⟨g.schema, g.preparedDocument.fragmentTable, ScalarMap.ofOptions g.options⟩

variable {g : Generation} {files : List ClientFile} {values : String → Bool}

theorem preparedDocument_known (hdocument : g.document = ClientFiles.document files)
    (hvalid : ClientFiles.validity (some g.schema) files = .ok ()) :
    g.preparedDocument.Known g.schema := by
  have hknown := known_of_complaints (Validation.validity_eq_ok_iff.1 hvalid).2.2
  rw [← hdocument] at hknown
  rw [preparedDocument]
  by_cases htypename : g.options.addTypename = true
  · rw [if_pos htypename]
    exact hknown.addTypename
  · rw [if_neg htypename]
    exact hknown

theorem fit_context (hdistinct : g.schema.Distinct)
    (hdocument : g.document = ClientFiles.document files)
    (hvalid : ClientFiles.validity (some g.schema) files = .ok ()) :
    (g.context.execution values).Fit where
  distinct := hdistinct
  sound := (Validation.validity_eq_ok_iff.1 hvalid).2.1
  fragments _ f hf :=
    (preparedDocument_known hdocument hvalid).fragments f (fragment_of_get? hf).1

/-- Which required keys a response has, for an operation of a valid document that uses neither
`@skip` nor `@include`. As long as the fields with one key have one name wherever they live, an
object lacks a required key exactly if no field with the key lives where the object is. Nothing is
missing in any response if each level is steady. -/
theorem presence_sound (g : Generation) (files : List ClientFile) (o : Operation) (m : ModuleShape)
    (hdistinct : g.schema.Distinct) (hdocument : g.document = ClientFiles.document files)
    (hvalid : ClientFiles.validity (some g.schema) files = .ok ())
    (ho : o ∈ g.preparedDocument.operations) (hm : g.context.operation o = .ok m)
    (hplain : Plain g.context.fragments o.selections) :
    ∃ root N, g.schema.rootType? o.kind = some root ∧ g.context.operationTree root o = .ok N ∧
      m.objects = N.flatten ∧ ∀ values ms,
        Answers (g.context.execution values) root o.selections ms →
          (Uniform (g.context.execution values) o.selections →
            (N.Fulfilled (root, ms) ↔
              N.Backed (g.context.execution values) o.selections (root, ms))) ∧
          (N.Steady g.context → N.Fulfilled (root, ms)) := by
  obtain ⟨root, N, hroot, hN, hobjects⟩ := exists_of_operation hm
  obtain ⟨rfl, hselections, hgrown⟩ := grown_of_grow hN
  have hsound := (Validation.validity_eq_ok_iff.1 hvalid).2.1
  have hmem := Schema.mem_of_rootType? hroot
  have hobject := Schema.isObject_of_rootType? hsound hroot
  have hknown := (preparedDocument_known hdocument hvalid).operations o ho _ hroot hobject
  refine ⟨N.parent, N, hroot, hN, hobjects, fun values ms ha => ?_⟩
  have hE : (g.context.execution values).Fit := fit_context hdistinct hdocument hvalid
  have hstands : Stands (g.context.execution values) N.parent o.selections :=
    .of_known hmem hobject hmem Schema.isA_self hknown
  constructor
  · exact fulfilled_iff hE hstands ha
  · intro hsteady
    have hmirrors : Mirrors g.context values N N.parent o.selections :=
      ⟨hgrown, hstands, hplain, by simp [hselections], hmem, fun _ => Schema.isA_self⟩
    exact hmirrors.fulfilled hE hsteady ha

/-- A union whose members give a field one type, with different selections below it. -/
def partedSchema : Schema :=
  ⟨[plainType "Query" [("it", "It")], ⟨"It", none, .union ["A", "B"]⟩, plainType "A" [("x", "X")],
    plainType "B" [("x", "X")], plainType "X" [("a", "String"), ("b", "String")],
    ⟨"String", none, .scalar⟩], some "Query", none, none, []⟩

def partedOperation : Operation where
  kind := .query
  name := some ⟨"Q", none⟩
  variableDefs := []
  directives := []
  selections := [plainField "it" [onType "A" [plainField "x" [plainField "a" []]],
    onType "B" [plainField "x" [plainField "b" []]]]]
  origin := none

def partedFile : ClientFile := ⟨["q.graphql"], [.operation partedOperation], []⟩

def parted : Generation where
  document := ClientFiles.document [partedFile]
  schema := partedSchema
  output := ""
  only := none
  target := .typescript
  beside := false
  templateTag := defaultTag
  options := { Options.standard with addTypename := false }

theorem parted_valid : ClientFiles.validity (some parted.schema) [partedFile] = .ok () :=
  Validation.validity_of_findings rfl (by decide +kernel) (by decide +kernel)

theorem parted_fragments (n : String) : parted.context.fragments.get? n = none := rfl

theorem parted_check {check : Selection → Bool} {sel : Selection}
    (h : deepAll check partedOperation.selections = true)
    (hsel : Met parted.context.fragments partedOperation.selections sel) : check sel = true := by
  refine hsel.check h fun n f hf => ?_
  rw [parted_fragments] at hf
  simp at hf

theorem parted_plain : Plain parted.context.fragments partedOperation.selections := by
  intro sel hsel d hd
  have hcheck : deepAll (fun sel => sel.directives.isEmpty) partedOperation.selections = true := rfl
  have hnone := parted_check hcheck hsel
  rw [List.isEmpty_iff.1 hnone] at hd
  simp at hd

def isUnaliased : Selection → Bool
  | .field f _ _ => f.aliasName.isNone
  | _ => true

theorem parted_uniform :
    Uniform (parted.context.execution fun _ => true) partedOperation.selections := by
  have hcheck : deepAll isUnaliased partedOperation.selections = true := rfl
  refine uniform_of_unaliased fun f b below hmet => ?_
  exact Option.isNone_iff_eq_none.1 (parted_check hcheck hmet)

def partedReply : List (String × Reply) :=
  [("it", .object (plainType "A" [("x", "X")])
    [("x", .object (plainType "X" [("a", "String"), ("b", "String")]) [("a", .leaf "v")])])]

theorem parted_answers : Answers (parted.context.execution fun _ => true)
    (plainType "Query" [("it", "It")]) partedOperation.selections partedReply := by
  have ha : Answers (parted.context.execution fun _ => true)
      (plainType "X" [("a", "String"), ("b", "String")]) [plainField "a" []] [("a", .leaf "v")] :=
    answers_of_single (.field rfl .nil) rfl (by decide) (.leaf rfl)
  have hx : Answers (parted.context.execution fun _ => true) (plainType "A" [("x", "X")])
      [onType "A" [plainField "x" [plainField "a" []]],
        onType "B" [plainField "x" [plainField "b" []]]]
      [("x", .object (plainType "X" [("a", "String"), ("b", "String")]) [("a", .leaf "v")])] :=
    answers_of_single (.inline rfl rfl (.field rfl .nil) (.inlineUnmet rfl rfl .nil)) rfl
      (by decide) (.object rfl List.mem_cons_self ha)
  exact answers_of_single (.field rfl .nil) rfl (by decide) (.object rfl List.mem_cons_self hx)

theorem presence_sound_parted :
    ∃ N, parted.context.operationTree (plainType "Query" [("it", "It")]) partedOperation = .ok N ∧
      ¬ N.Fulfilled (plainType "Query" [("it", "It")], partedReply) ∧
      ¬ N.Backed (parted.context.execution fun _ => true) partedOperation.selections
        (plainType "Query" [("it", "It")], partedReply) := by
  obtain ⟨m, hm⟩ : ∃ m, parted.context.operation partedOperation = .ok m := ⟨_, rfl⟩
  obtain ⟨root, N, hroot, hN, -, hall⟩ := presence_sound parted [partedFile] partedOperation m
    (by decide) rfl parted_valid List.mem_cons_self hm parted_plain
  obtain rfl : plainType "Query" [("it", "It")] = root := Option.some.inj hroot
  have hrequired : ((parted.context.operationTree (plainType "Query" [("it", "It")])
      partedOperation).toOption.bind fun N => N.at? ["it", "x"]).map (fun M =>
        M.properties.map fun p => (p.name, p.optional)) = some [("a", false), ("b", false)] := rfl
  rw [hN, Except.toOption, Option.bind_some, Option.map_eq_some_iff] at hrequired
  obtain ⟨M, hM, hproperties⟩ := hrequired
  have hb : ("b", false) ∈ M.properties.map fun p => (p.name, p.optional) := by
    rw [hproperties]
    simp
  obtain ⟨p, hp, hpb⟩ := List.mem_map.1 hb
  obtain ⟨hname, hoptional⟩ := Prod.mk.inj hpb
  have hunfulfilled : ¬ N.Fulfilled (plainType "Query" [("it", "It")], partedReply) := by
    intro hfulfilled
    have hkey := hfulfilled _ _ _ M (.inside List.mem_cons_self List.mem_cons_self
      (.inside List.mem_cons_self List.mem_cons_self .here)) hM p hp hoptional
    rw [hname] at hkey
    exact absurd hkey (by decide)
  refine ⟨N, hN, hunfulfilled, fun hbacked => hunfulfilled ?_⟩
  exact ((hall _ _ parted_answers).1 parted_uniform).2 hbacked

end Generation
end QueryTypes
