import QueryTypes.Proofs.Document.Inserted
import QueryTypes.Proofs.Output.Validated
import QueryTypes.Proofs.Shape.Excerpt

/-!
# Object types that can be told apart

With the names of types added, each block but that of an operation asks for the name of the type
itself, on no condition. This survives the merging of blocks: an object type requires `__typename`
as soon as anything is selected for it. Only where fields of two types share a key can there be an
object type that nothing is selected for.
-/

namespace QueryTypes

open Execution (deepAll deep_of_mem)
open Selection (allNamed)

/-- The name of the type is declared, and it is in every object. -/
def ObjectShape.RequiresTypename (o : ObjectShape) : Prop :=
  (∃ p ∈ o.properties, p.name = "__typename") ∧
    ∀ p ∈ o.properties, p.name = "__typename" → p.optional = false

def Document.Defines (d : Document) : Operation ⊕ Fragment → Prop :=
  Sum.elim (· ∈ d.operations) (· ∈ d.fragments)

namespace Level

variable {s : Schema} {table : Table Fragment} {parent : NamedType} {ss : List Selection}
  {es : List Entry} {e : Entry}

theorem exists_occurs_of_any (hss : ss.any Selection.isTypename = true) :
    ∃ occ, Occurs s table [] parent false ss occ ∧ occ.key = "__typename" ∧
      occ.conditional = false := by
  obtain ⟨sel, hsel, htypename⟩ := List.any_eq_true.1 hss
  cases sel with
  | spread | inline => cases htypename
  | field h b below =>
    rw [Selection.isTypename, Bool.and_eq_true, beq_iff_eq, Option.isNone_iff_eq_none] at htypename
    have hkey : h.key = "__typename" := by
      rw [FieldHead.key, htypename.2, Option.getD_none, htypename.1]
    exact ⟨_, .field hsel, hkey, rfl⟩

/-- Blocks that ask for the name of the type are merged to selections that do. -/
theorem Merges.any_isTypename (h : Merges s table parent ss e)
    (htable : ∀ n f, table.get? n = some f → allNamed f.selections = true)
    (hss : allNamed ss = true) (hne : e.selections ≠ []) :
    e.selections.any Selection.isTypename = true := by
  obtain ⟨sel, hsel⟩ := List.exists_mem_of_ne_nil _ hne
  obtain ⟨occ, hocc, hkey, hsel⟩ := (h.mem_selections_iff sel).1 hsel
  obtain ⟨⟨head, b, -, -, hblock⟩, -⟩ := hocc.check htable hss
  have hlacks : Selection.lacksTypename occ.selections = false := by
    simpa [Selection.block] using hblock
  have hany := Selection.any_isTypename_of_not_lacks hlacks (List.ne_nil_of_mem hsel)
  obtain ⟨asked, hasked, htypename⟩ := List.any_eq_true.1 hany
  have hmem : asked ∈ e.selections := (h.mem_selections_iff asked).2 ⟨occ, hocc, hkey, hasked⟩
  exact List.any_eq_true.2 ⟨asked, hmem, htypename⟩

end Level

namespace ShapeContext

variable {cx : ShapeContext} {N M : ShapeTree} {path : List String} {root q t : NamedType}
  {all tt : List Selection} {es : List Entry} {e : Entry}

theorem Grown.requiresTypename (h : Grown cx M)
    (hany : M.selections.any Selection.isTypename = true) : M.shape.RequiresTypename := by
  obtain ⟨es, hes⟩ := h.levelled
  obtain ⟨hmerges, hentry⟩ := Level.merges_of_entries hes.entries
  obtain ⟨occ, hocc, hkey, hconditional⟩ : ∃ occ, Level.Occurs cx.schema cx.fragments [] M.parent
      false M.selections occ ∧ occ.key = "__typename" ∧ occ.conditional = false :=
    Level.exists_occurs_of_any hany
  constructor
  · obtain ⟨e, he, hsame⟩ := hentry occ hocc
    obtain ⟨p, hp, hdeclares⟩ := hes.declared e he
    exact ⟨p, hp, hdeclares.name.trans (hsame.trans hkey)⟩
  · intro p hp hname
    obtain ⟨e, he, hdeclares⟩ := hes.property p hp
    rw [hdeclares.optional]
    refine (hmerges e he).conditional_iff.2 ⟨occ, hocc, ?_, hconditional⟩
    rw [hkey, ← hdeclares.name, hname]

theorem Grown.properties_eq_nil (h : Grown cx M) (hnil : M.selections = []) :
    M.shape.properties = [] := by
  obtain ⟨es, hes⟩ := h.levelled
  have hnone : Level.entries cx.schema cx.fragments M.parent [] = .ok [] := rfl
  have hentries := hes.entries
  rw [hnil, hnone] at hentries
  obtain rfl := Except.ok.inj hentries
  refine List.eq_nil_iff_forall_not_mem.2 fun p hp => ?_
  obtain ⟨e, he, -⟩ := hes.property p hp
  cases he

theorem Grown.requiresTypename_iff (h : Grown cx M)
    (hany : M.selections ≠ [] → M.selections.any Selection.isTypename = true) :
    M.shape.RequiresTypename ↔ M.selections ≠ [] := by
  constructor
  · intro hrequires hnil
    obtain ⟨⟨p, hp, -⟩, -⟩ := hrequires
    rw [h.properties_eq_nil hnil] at hp
    cases hp
  · exact fun hne => h.requiresTypename (hany hne)

/-- An object type inside another one is built for an entry of some level. -/
theorem Grown.exists_entry (h : Grown cx N) (hM : N.at? path = some M) (hne : path ≠ []) :
    ∃ q tt es e, Nested cx N.parent N.selections q tt ∧
      Level.entries cx.schema cx.fragments q tt = .ok es ∧ e ∈ es ∧ cx.Opens e M.parent ∧
      M.selections = e.selections := by
  induction path generalizing N with
  | nil => exact absurd rfl hne
  | cons k path ih =>
    rw [ShapeTree.at?, Option.bind_eq_some_iff] at hM
    obtain ⟨B, hB, hM⟩ := hM
    obtain ⟨es, hes⟩ := h.levelled
    obtain ⟨e, he, -, hbears⟩ := hes.branch k B (Table.mem_of_lookup hB)
    have hopens : cx.Opens e B.parent := ⟨hbears.field, hbears.parent⟩
    by_cases hlast : path = []
    · rw [hlast] at hM
      obtain rfl := Option.some.inj hM
      exact ⟨_, _, es, e, .here, hes.entries, he, hopens, hbears.selections⟩
    · obtain ⟨q, tt, es', e', hnested, hrest⟩ := ih hbears.grown hM hlast
      rw [hbears.selections] at hnested
      exact ⟨q, tt, es', e', (Nested.inside .here hes.entries he hopens).trans hnested, hrest⟩

theorem Built.starts {d : Document} {x : Operation ⊕ Fragment} (h : Built cx N x)
    (hx : d.Defines x) : Starts cx d N.parent N.selections ∧
      N.selections = Document.selectionsOf x ∧ N.parent ∈ cx.schema.types ∧ Grown cx N := by
  cases h with
  | operation hroot hN =>
    obtain ⟨rfl, hselections, hgrown⟩ := grown_of_grow hN
    exact ⟨hselections ▸ .operation hx hroot, hselections, Schema.mem_of_rootType? hroot, hgrown⟩
  | fragment ht hN =>
    obtain ⟨rfl, hselections, hgrown⟩ := grown_of_grow hN
    exact ⟨hselections ▸ .fragment hx ht, hselections, Schema.mem_of_composite? ht, hgrown⟩

/-! ### Blocks for all objects -/

/-- Where keys have one type, a field with a block is needed for an object type, and has one. -/
theorem Nested.blocks (h : Nested cx root all q tt) (hfragments : cx.FragmentsStand)
    (hall : cx.Standing root all) (hone : OneTyped cx root all)
    (htable : FaultlessTable (Visit.isBlockless cx.schema) cx.schema cx.fragments)
    (hblocks : ∀ sel ∈ all, Faultless (Visit.isBlockless cx.schema) cx.schema root [sel]) :
    ∀ sel ∈ tt, Faultless (Visit.isBlockless cx.schema) cx.schema q [sel] := by
  induction h with
  | here => exact hblocks
  | inside hnested hes he hopens ih =>
    have hstanding := hnested.standing hfragments hall hone
    refine hstanding.faultless_inside hfragments (fun r uu hinner => ?_) htable ih hes he hopens
    exact hone r uu (hnested.trans hinner)

theorem Standing.selections_ne_nil (hfragments : cx.FragmentsStand) (h : cx.Standing q tt)
    (htable : FaultlessTable (Visit.isBlockless cx.schema) cx.schema cx.fragments)
    (hblocks : ∀ sel ∈ tt, Faultless (Visit.isBlockless cx.schema) cx.schema q [sel])
    (hes : Level.entries cx.schema cx.fragments q tt = .ok es) (he : e ∈ es)
    (hopens : cx.Opens e t) : e.selections ≠ [] := by
  have hmerges := (Level.merges_of_entries hes).1 e he
  obtain ⟨first, hfirst, hkey, hfield, hparent⟩ := hmerges.first
  obtain ⟨f, hf, hselectable, -⟩ := h.exists_field hfragments hfirst
  obtain ⟨hne, type, description, hok, ht⟩ := hopens
  -- the object type is that of the first field, so it is this one that needs a block
  rw [← hfield] at hne
  rw [← hparent, ← hfield, hselectable hne] at hok
  obtain ⟨rfl, -⟩ := Prod.mk.inj (Except.ok.inj hok)
  obtain ⟨⟨head, b, hname, hblock⟩, -⟩ := hfirst.faultless htable hblocks
  have hfull : first.selections ≠ [] := by
    intro hnil
    rw [hnil, hf] at hblock
    simp [Visit.isBlockless, hname, hne, ht] at hblock
  obtain ⟨sel, hsel⟩ := List.exists_mem_of_ne_nil _ hfull
  exact List.ne_nil_of_mem ((hmerges.mem_selections_iff sel).2 ⟨first, hfirst, hkey, hsel⟩)

end ShapeContext

namespace Generation

open ShapeContext

variable {g : Generation} {files : List ClientFile} {x : Operation ⊕ Fragment}
  {N M : ShapeTree} {path : List String}

theorem preparedDocument_blocks (hdocument : g.document = ClientFiles.document files)
    (hvalid : ClientFiles.validity (some g.schema) files = .ok ()) :
    g.preparedDocument.Faultless (Visit.isBlockless g.schema) g.schema := by
  have hblocks := blocks_of_complaints (Validation.validity_eq_ok_iff.1 hvalid).2.2
  rw [← hdocument] at hblocks
  rw [preparedDocument]
  split
  · exact hblocks.addTypename (overlooks_isBlockless g.schema)
  · exact hblocks

theorem blocks_of_starts {t : NamedType} {ss : List Selection}
    (hdocument : g.document = ClientFiles.document files)
    (hvalid : ClientFiles.validity (some g.schema) files = .ok ())
    (hstart : g.context.Starts g.preparedDocument t ss) :
    ∀ sel ∈ ss, Faultless (Visit.isBlockless g.schema) g.schema t [sel] := by
  have hblocks := preparedDocument_blocks hdocument hvalid
  intro sel hsel
  cases hstart with
  | operation ho hroot =>
    have hsound := (Validation.validity_eq_ok_iff.1 hvalid).2.1
    have hobject := Schema.isObject_of_rootType? hsound hroot
    exact (hblocks.operations _ ho t hroot hobject).of_mem hsel
  | fragment hf ht => exact (hblocks.fragments _ hf t ht).of_mem hsel

theorem allNamed_selections (hadd : g.options.addTypename = true)
    (hx : g.preparedDocument.Defines x) : allNamed (Document.selectionsOf x) = true := by
  rw [preparedDocument, if_pos hadd] at hx
  cases x with
  | inl o =>
    obtain ⟨o, -, rfl⟩ := List.mem_map.1 hx
    exact Selection.allNamed_addTypenames o.selections
  | inr f =>
    obtain ⟨f, -, rfl⟩ := List.mem_map.1 hx
    exact Selection.allNamed_withTypename f.selections

theorem lacksTypename_fragment {f : Fragment} (hadd : g.options.addTypename = true)
    (hf : f ∈ g.preparedDocument.fragments) : Selection.lacksTypename f.selections = false := by
  rw [preparedDocument, if_pos hadd] at hf
  obtain ⟨f, -, rfl⟩ := List.mem_map.1 hf
  exact Selection.lacksTypename_withTypename _

/-- Whatever is selected for an object type, the name of the type is asked for, except for the root
of an operation. -/
theorem any_isTypename_at (hadd : g.options.addTypename = true) (hx : g.preparedDocument.Defines x)
    (hbuilt : Built g.context N x) (hM : N.at? path = some M)
    (hinner : path ≠ [] ∨ x.isRight = true) (hne : M.selections ≠ []) :
    M.selections.any Selection.isTypename = true := by
  obtain ⟨-, hselections, hparent, hgrown⟩ := hbuilt.starts hx
  have htable : ∀ n f, g.context.fragments.get? n = some f → allNamed f.selections = true :=
    fun n f hf => allNamed_selections (x := .inr f) hadd (fragment_of_get? hf).1
  by_cases hroot : path = []
  · rw [hroot] at hM hinner
    obtain rfl := Option.some.inj hM
    cases x with
    | inl o => simp at hinner
    | inr f =>
      rw [hselections] at hne ⊢
      exact Selection.any_isTypename_of_not_lacks (lacksTypename_fragment hadd hx) hne
  · obtain ⟨q, tt, es, e, hnested, hes, he, -, hbelow⟩ := hgrown.exists_entry hM hroot
    have hall : allNamed N.selections = true := hselections ▸ allNamed_selections hadd hx
    rw [hbelow] at hne ⊢
    exact ((Level.merges_of_entries hes).1 e he).any_isTypename htable
      (hnested.check htable hparent hall).2 hne

/-- In a valid document that asks for data only, with one type for each key, something is selected
for every object type inside another one. -/
theorem selections_ne_nil_at (hdocument : g.document = ClientFiles.document files)
    (hvalid : ClientFiles.validity (some g.schema) files = .ok ()) (hdata : g.document.AsksData)
    (hone : ∀ t ss, g.context.Starts g.preparedDocument t ss → g.context.OneTyped t ss)
    (hx : g.preparedDocument.Defines x) (hbuilt : Built g.context N x) (hM : N.at? path = some M)
    (hinner : path ≠ []) : M.selections ≠ [] := by
  obtain ⟨hstarts, -, -, hgrown⟩ := hbuilt.starts hx
  obtain ⟨q, tt, es, e, hnested, hes, he, hopens, hbelow⟩ := hgrown.exists_entry hM hinner
  have hfragments := fragmentsStand_context hdocument hvalid hdata
  have hall := standing_of_starts hdocument hvalid hdata hstarts
  have hblocks := preparedDocument_blocks hdocument hvalid
  have htable : FaultlessTable (Visit.isBlockless g.schema) g.schema g.context.fragments :=
    fun n f hf => hblocks.fragments f (fragment_of_get? hf).1
  have hstart := blocks_of_starts hdocument hvalid hstarts
  rw [hbelow]
  exact (hnested.standing hfragments hall (hone _ _ hstarts)).selections_ne_nil hfragments htable
    (hnested.blocks hfragments hall (hone _ _ hstarts) htable hstart) hes he hopens

/-- Which object types require the name of the type, with the names of types added. Among the object
types that are generated for a definition, the root of an operation aside, these are exactly those
that anything is selected for; the others declare nothing at all. There are no others if the
document is valid, asks for data only and has one type for each key. -/
theorem requires_typename_iff (g : Generation) (x : Operation ⊕ Fragment) (m : ModuleShape)
    (hadd : g.options.addTypename = true) (hx : g.preparedDocument.Defines x)
    (hm : g.context.moduleOf x = .ok m) :
    ∃ N, Built g.context N x ∧
      (∀ o, o ∈ m.objects ↔ ∃ path M, N.at? path = some M ∧ M.shape = o) ∧
      (∀ path M, N.at? path = some M → path ≠ [] ∨ x.isRight = true →
        (M.shape.RequiresTypename ↔ M.selections ≠ []) ∧
        (M.selections = [] → M.shape.properties = [])) ∧
      ∀ files, g.document = ClientFiles.document files →
        ClientFiles.validity (some g.schema) files = .ok () → g.document.AsksData →
        (∀ t ss, g.context.Starts g.preparedDocument t ss → g.context.OneTyped t ss) →
          ∀ path M, N.at? path = some M →
            path ≠ [] ∨ x.isRight = true ∧ Document.selectionsOf x ≠ [] →
              M.shape.RequiresTypename := by
  obtain ⟨N, t, n, ss, hbuilt, hobjects, hgrow⟩ := exists_built hm
  obtain ⟨-, hselections, -, hgrown⟩ := hbuilt.starts hx
  have hiff : ∀ path M, N.at? path = some M → path ≠ [] ∨ x.isRight = true →
      (M.shape.RequiresTypename ↔ M.selections ≠ []) := by
    intro path M hM hinner
    exact (hgrown.at? hM).requiresTypename_iff (any_isTypename_at hadd hx hbuilt hM hinner)
  refine ⟨N, hbuilt, fun o => ?_, fun path M hM hinner => ⟨hiff path M hM hinner, ?_⟩, ?_⟩
  · rw [hobjects, (named_of_grow hgrow).mem_flatten_iff]
  · exact (hgrown.at? hM).properties_eq_nil
  · intro files hdocument hvalid hdata hone path M hM hinner
    by_cases hroot : path = []
    · rw [hroot] at hM hinner
      obtain rfl := Option.some.inj hM
      obtain ⟨hfragment, hne⟩ := hinner.resolve_left (by simp)
      rw [← hselections] at hne
      exact (hiff [] N rfl (.inr hfragment)).2 hne
    · exact (hiff path M hM (.inl hroot)).2
        (selections_ne_nil_at hdocument hvalid hdata hone hx hbuilt hM hroot)

/-- A union whose members give a field two types, of which the first has an object and the second
a scalar under one name. -/
def shadowedSchema : Schema :=
  ⟨[plainType "Query" [("it", "It")], ⟨"It", none, .union ["A", "B"]⟩, plainType "A" [("x", "Foo")],
    plainType "B" [("x", "Bar")], plainType "Foo" [("c", "String"), ("b", "Obj")],
    plainType "Bar" [("b", "String")], plainType "Obj" [("d", "String")],
    ⟨"String", none, .scalar⟩], some "Query", none, none, []⟩

def shadowedOperation : Operation :=
  { partedOperation with
    selections := [plainField "it" [onType "A" [plainField "x" [plainField "c" []]],
      onType "B" [plainField "x" [plainField "b" []]]]] }

def shadowedFile : ClientFile := ⟨["q.graphql"], [.operation shadowedOperation], []⟩

def shadowed : Generation :=
  { parted with
    document := ClientFiles.document [shadowedFile]
    schema := shadowedSchema
    options := { Options.standard with addTypename := true } }

theorem shadowed_valid : ClientFiles.validity (some shadowed.schema) [shadowedFile] = .ok () :=
  Validation.validity_of_findings rfl (by decide +kernel) (by decide +kernel)

/-- The document with one type for each key, with the names of types added. -/
def named : Generation :=
  { parted with options := { Options.standard with addTypename := true } }

theorem named_oneTyped {t : NamedType} {ss : List Selection}
    (h : named.context.Starts named.preparedDocument t ss) : named.context.OneTyped t ss := by
  cases h with
  | @operation o root ho hroot =>
    obtain rfl : o = partedOperation.addTypename := List.mem_singleton.1 ho
    obtain rfl : plainType "Query" [("it", "It")] = t := Option.some.inj hroot
    refine oneTyped_of_unaliased (by decide) (fun n f hf => ?_) List.mem_cons_self rfl
    have hnone : named.context.fragments.get? n = none := rfl
    rw [hnone] at hf
    cases hf
  | fragment hf => exact absurd hf List.not_mem_nil

/-- The first document is valid, and an object type is generated that declares nothing. In the
second one every object type below the root requires the name of the type. -/
theorem requires_typename_iff_shadowed :
    (ClientFiles.validity (some shadowed.schema) [shadowedFile] = .ok () ∧
      ∃ N M, Built shadowed.context N (.inl shadowedOperation.addTypename) ∧
        N.at? ["it", "x", "b"] = some M ∧ M.shape.properties = [] ∧
        ¬ M.shape.RequiresTypename) ∧
    ∃ N, Built named.context N (.inl partedOperation.addTypename) ∧
      ∀ path M, N.at? path = some M → path ≠ [] → M.shape.RequiresTypename := by
  constructor
  · refine ⟨shadowed_valid, ?_⟩
    obtain ⟨m, hm⟩ : ∃ m, shadowed.context.moduleOf (.inl shadowedOperation.addTypename) = .ok m :=
      ⟨_, rfl⟩
    obtain ⟨N, hbuilt, -, hlevels, -⟩ := requires_typename_iff shadowed
      (.inl shadowedOperation.addTypename) m rfl List.mem_cons_self hm
    cases hbuilt with
    | @operation o root hroot hN =>
      obtain rfl : plainType "Query" [("it", "It")] = root := Option.some.inj hroot
      have hempty : ((shadowed.context.operationTree (plainType "Query" [("it", "It")])
          shadowedOperation.addTypename).toOption.bind fun N => N.at? ["it", "x", "b"]).map
            (fun M => M.selections.length) = some 0 := rfl
      rw [hN, Except.toOption, Option.bind_some, Option.map_eq_some_iff] at hempty
      obtain ⟨M, hM, hlength⟩ := hempty
      have hnil : M.selections = [] := List.length_eq_zero_iff.1 hlength
      obtain ⟨hiff, hnothing⟩ := hlevels _ M hM (.inl (by simp))
      exact ⟨N, M, .operation hroot hN, hM, hnothing hnil, fun h => hiff.1 h hnil⟩
  · obtain ⟨m, hm⟩ : ∃ m, named.context.moduleOf (.inl partedOperation.addTypename) = .ok m :=
      ⟨_, rfl⟩
    obtain ⟨N, hbuilt, -, -, hall⟩ := requires_typename_iff named
      (.inl partedOperation.addTypename) m rfl List.mem_cons_self hm
    have hdata : named.document.AsksData := by
      refine ⟨fun o ho => ?_, fun f hf => absurd hf List.not_mem_nil⟩
      obtain rfl : o = partedOperation := List.mem_singleton.1 ho
      rfl
    have hone : ∀ t ss, named.context.Starts named.preparedDocument t ss →
        named.context.OneTyped t ss := fun _ _ => named_oneTyped
    exact ⟨N, hbuilt, fun path M hM hinner =>
      hall [partedFile] rfl parted_valid hdata hone path M hM (.inl hinner)⟩

end Generation
end QueryTypes
