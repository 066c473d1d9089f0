import QueryTypes.Proofs.Output.Validated
import QueryTypes.Proofs.Shape.Headed

/-!
# Type names in responses

The literals that are generated for `__typename` are the names of the object types that the first
selection of the key stands for. Other selections of the key, on other types, add none. Main
statement: which names in responses to the operations of a valid document are among the literals,
and two conditions under which all of them are.
-/

namespace QueryTypes

variable {s : Schema} {d : Document} {o : Operation} {root t u : NamedType} {sel : Selection}

theorem Schema.isA_of_overlaps (ht : t.isObject = true) (h : s.overlaps u t = true) :
    s.isA t u = true := by
  have hconcrete := not_isAbstract_of_isObject ht
  rw [overlaps] at h
  rw [isA_iff]
  by_cases hname : u.name = t.name
  · exact .inl hname
  · rw [if_neg (by simpa using hname)] at h
    by_cases habstract : u.isAbstract = true
    · rw [if_pos habstract, hconcrete, if_neg (by simp)] at h
      exact .inr ⟨habstract, h⟩
    · rw [if_neg habstract, hconcrete, if_neg (by simp)] at h
      cases h

namespace Validation

theorem overlaps_of_neverMet {who : String} {origin : Option Origin}
    (h : neverMet s who root (some t) origin = []) : s.overlaps t root = true := by
  rw [neverMet] at h
  split at h
  · assumption
  · cases h

/-- What a selection at the top of an operation leads to has objects of the root type. -/
theorem overlaps_of_complaints (hc : complaints s d = .ok []) (ho : o ∈ d.operations)
    (hroot : s.rootType? o.kind = some root) (hobject : root.isObject = true)
    (hsel : sel ∈ o.selections) (ht : sel.target? s d.fragmentTable = some t) :
    s.overlaps t root = true := by
  obtain ⟨found, hfound, hnil⟩ := complaints_eq_nil_iff.1 hc
  rw [findings] at hfound
  obtain ⟨first, -, hfound⟩ := Outcome.bind_eq_ok_iff.1 hfound
  obtain rfl := Except.ok.inj hfound
  have hrule : ∀ v ∈ s.documentVisits d, spreadsPossible s d.fragmentTable v = [] :=
    fun v hv => rule_eq_nil (hnil _ (by simp)) hv
  have hvisits : ∀ v ∈ sel.visits s ⟨some root, none⟩, v ∈ s.documentVisits d := by
    refine fun v hv => mem_documentVisits_of_operation ho ?_
    have hscope : (s.rootType? o.kind).filter NamedType.isObject = some root := by
      rw [hroot, Option.filter_some, if_pos hobject]
    simp only [Schema.operationVisits, hscope]
    simp [mem_allVisits hsel hv]
  cases sel with
  | field h b ss => cases ht
  | spread n ds origin =>
    have hmet := hrule _ (hvisits (.spread (some root) n ds origin) (by simp [Selection.visits]))
    rw [Selection.target?] at ht
    rw [spreadsPossible, ht] at hmet
    exact overlaps_of_neverMet hmet
  | inline c ds ss origin =>
    cases c with
    | none => cases ht
    | some c =>
      have hmet := hrule _ (hvisits (.inline (some root) (some c) ds origin) (by
        simp [Selection.visits]))
      rw [Selection.target?] at ht
      rw [spreadsPossible, ht] at hmet
      exact overlaps_of_neverMet hmet

end Validation

namespace Generation

open Execution ShapeContext

variable {g : Generation} {files : List ClientFile}

/-- Adding the names of types leaves alone where the selections of an operation lead to. -/
theorem overlaps_of_prepared (hvalid : Validation.complaints g.schema g.document = .ok [])
    (ho : o ∈ g.preparedDocument.operations) (hroot : g.schema.rootType? o.kind = some root)
    (hobject : root.isObject = true) (hsel : sel ∈ o.selections)
    (ht : sel.target? g.schema g.context.fragments = some t) : g.schema.overlaps t root = true := by
  rw [context, preparedDocument] at ht
  rw [preparedDocument] at ho
  split at ho
  · rename_i hadd
    rw [if_pos hadd] at ht
    obtain ⟨o', ho', rfl⟩ := List.mem_map.1 ho
    rw [Operation.addTypename, Selection.addTypenames_eq_map] at hsel
    obtain ⟨sel', hsel', rfl⟩ := List.mem_map.1 hsel
    rw [Selection.target?_addTypename] at ht
    have hroot' : g.schema.rootType? o'.kind = some root := hroot
    exact Validation.overlaps_of_complaints hvalid ho' hroot' hobject hsel' ht
  · rename_i hadd
    rw [if_neg hadd] at ht
    exact Validation.overlaps_of_complaints hvalid ho hroot hobject hsel ht

/-- With the names of types added, the first selection of them speaks for all if the document asks
for them first, wherever it does. -/
theorem telling_of_orderly (hvalid : Validation.complaints g.schema g.document = .ok [])
    (hadd : g.options.addTypename = true) (horderly : g.document.HasBlocks Selection.isOrderly)
    (ho : o ∈ g.preparedDocument.operations) (hroot : g.schema.rootType? o.kind = some root)
    (hobject : root.isObject = true) : g.context.Telling root o.selections := by
  have hheaded : g.preparedDocument.HasBlocks Selection.isHeaded := by
    rw [preparedDocument, if_pos hadd]
    exact horderly.addTypename
  refine telling_of_headed hobject (fun n f hf => ?_) (hheaded.operations o ho)
    fun sel hsel t ht => ?_
  · exact hheaded.fragments f (fragment_of_get? hf).1
  · exact Schema.isA_of_overlaps hobject (overlaps_of_prepared hvalid ho hroot hobject hsel ht)

/-- Which type names in responses are among the generated literals, for an operation of a valid
document with or without the names of types added. Where fields with one key have one name, an
object has the name of its type under each key that asks for it. All of these names are literals
for their keys exactly if the first selection of each key is on a type that the object has. So it is
in every response if keys have one type each and the first selection of each key speaks for all, as
it does with the names of types added to a document that asks for them first, wherever it does. -/
theorem typenames_sound (g : Generation) (files : List ClientFile) (o : Operation) (m : ModuleShape)
    (hdistinct : g.schema.Distinct) (hdocument : g.document = ClientFiles.document files)
    (hvalid : ClientFiles.validity (some g.schema) files = .ok ())
    (ho : o ∈ g.preparedDocument.operations) (hm : g.context.operation o = .ok m) :
    ∃ root N, g.schema.rootType? o.kind = some root ∧ g.context.operationTree root o = .ok N ∧
      m.objects = N.flatten ∧ ∀ values ms,
        Answers (g.context.execution values) root o.selections ms →
          (Uniform (g.context.execution values) o.selections →
            Answer.Tells (root, ms) (g.context.execution values) o.selections) ∧
          (N.Truthful ShapeTree.Names (g.context.execution values) o.selections (root, ms) ↔
            N.Truthful (ShapeTree.Heads g.context) (g.context.execution values) o.selections
              (root, ms)) ∧
          (g.document.AsksData → g.context.OneTyped root o.selections →
            (g.context.Telling root o.selections ∨
              g.options.addTypename = true ∧ g.document.HasBlocks Selection.isOrderly) →
            N.Truthful ShapeTree.Names (g.context.execution values) o.selections (root, ms) ∧
              Answer.Tells (root, ms) (g.context.execution values) o.selections) := by
  obtain ⟨root, N, hroot, hN, hobjects⟩ := exists_of_operation hm
  obtain ⟨rfl, hselections, hgrown⟩ := grown_of_grow hN
  obtain ⟨-, hsound, hcomplaints⟩ := Validation.validity_eq_ok_iff.1 hvalid
  rw [← hdocument] at hcomplaints
  have hmem := Schema.mem_of_rootType? hroot
  have hobject := Schema.isObject_of_rootType? hsound hroot
  have hknown := (preparedDocument_known hdocument hvalid).operations o ho _ hroot hobject
  refine ⟨N.parent, N, hroot, hN, hobjects, fun values ms ha => ?_⟩
  have hE : (g.context.execution values).Fit := fit_context hdistinct hdocument hvalid
  refine ⟨?_, truthful_iff hE hgrown hmem hmem hobject ha, fun hdata hone htelling => ?_⟩
  · exact Stands.tells hE (.of_known hmem hobject hmem Schema.isA_self hknown) ha
  · have hcareful : g.context.Careful N.parent o.selections := {
      root_mem := hmem
      fragments := fragmentsStand_context hdocument hvalid hdata
      standing := standing_of_starts hdocument hvalid hdata (.operation ho hroot)
      oneTyped := hone
      telling := htelling.elim id fun ⟨hadd, horderly⟩ =>
        telling_of_orderly hcomplaints hadd horderly ho hroot hobject }
    have hhosts : Hosts g.context N.parent o.selections N N.parent o.selections :=
      ⟨hgrown, hselections ▸ .here, by simp [hselections], hmem, hobject, Schema.isA_self⟩
    exact hhosts.truthful hE hcareful ha

/-- A union and an operation that asks each of its members for its name. -/
def askedSchema : Schema :=
  ⟨[plainType "Query" [("it", "It")], ⟨"It", none, .union ["A", "B"]⟩,
    plainType "A" [("a", "String")], plainType "B" [("b", "String")],
    ⟨"String", none, .scalar⟩], some "Query", none, none, []⟩

def askedOperation : Operation :=
  { partedOperation with
    selections := [plainField "it" [onType "A" [typenameField], onType "B" [typenameField]]] }

def askedFile : ClientFile := ⟨["q.graphql"], [.operation askedOperation], []⟩

/-- The same document, with or without the names of types added. -/
def asked (added : Bool) : Generation :=
  { parted with
    document := ClientFiles.document [askedFile]
    schema := askedSchema
    options := { Options.standard with addTypename := added } }

theorem asked_valid : ClientFiles.validity (some askedSchema) [askedFile] = .ok () :=
  Validation.validity_of_findings rfl (by decide +kernel) (by decide +kernel)

def askedReply : List (String × Reply) :=
  [("it", .object (plainType "B" [("b", "String")]) [("__typename", .leaf "B")])]

theorem askedReply_typename {E : Execution} {ss : List Selection} {nodes : List FieldNode}
    {seen : List String} (hc : Collects E (plainType "B" [("b", "String")]) [] ss nodes seen)
    (hkeys : (nodes.map FieldNode.key).eraseDups = ["__typename"])
    (hname : ∀ node ∈ nodes, node.head.name = "__typename")
    (hscalar : E.schema.composite? "String" = none) :
    Answers E (plainType "B" [("b", "String")]) ss [("__typename", .leaf "B")] := by
  have hasked : E.asked? (plainType "B" [("b", "String")]) "__typename" nodes =
      some Builtin.typenameField := by
    have hmem : "__typename" ∈ (nodes.map FieldNode.key).eraseDups := by
      rw [hkeys]
      exact List.mem_cons_self
    obtain ⟨node, hnode, hkey⟩ := List.mem_map.1 (List.mem_eraseDups.1 hmem)
    obtain ⟨first, hfirst, hhead⟩ := exists_first hnode
    rw [hkey] at hhead
    rw [asked?, hhead, Option.bind_some, hname first hfirst]
    exact Schema.fieldOf?_typename
  refine .mk hc ?_ ?_ ?_
  · simp [hkeys, hasked]
  · intro k v f hmember hf
    obtain ⟨rfl, rfl⟩ := Prod.mk.inj (List.mem_singleton.1 hmember)
    obtain rfl := Option.some.inj (hasked.symm.trans hf)
    exact .leaf hscalar
  · intro k v node hmember _ _
    exact (Prod.mk.inj (List.mem_singleton.1 hmember)).2

theorem asked_off_answers : Answers ((asked false).context.execution fun _ => true)
    (plainType "Query" [("it", "It")]) askedOperation.selections askedReply := by
  have hb : Answers ((asked false).context.execution fun _ => true)
      (plainType "B" [("b", "String")]) [onType "A" [typenameField], onType "B" [typenameField]]
      [("__typename", .leaf "B")] :=
    askedReply_typename (.inlineUnmet rfl rfl (.inline rfl rfl (.field rfl .nil) .nil)) rfl
      (by decide) rfl
  exact answers_of_single (.field rfl .nil) rfl (by decide)
    (.object rfl (List.mem_cons_of_mem _ List.mem_cons_self) hb)

def askedNode : FieldNode := ⟨⟨none, "__typename", [], [], none⟩, []⟩

theorem asked_off_lives : Lives ((asked false).context.execution fun _ => true)
    [plainType "Query" [("it", "It")], plainType "B" [("b", "String")]] ["it", "__typename"]
    askedOperation.selections askedNode := by
  have hit : Reaches ((asked false).context.execution fun _ => true)
      (plainType "Query" [("it", "It")]) askedOperation.selections
      ⟨⟨none, "it", [], [], none⟩, [onType "A" [typenameField], onType "B" [typenameField]]⟩ :=
    .field List.mem_cons_self rfl
  have hname : Reaches ((asked false).context.execution fun _ => true)
      (plainType "B" [("b", "String")]) [onType "A" [typenameField], onType "B" [typenameField]]
      askedNode :=
    .inline (List.mem_cons_of_mem _ List.mem_cons_self) rfl rfl (.field List.mem_cons_self rfl)
  exact .step hit (.last hname)

theorem asked_off_uniform :
    Uniform ((asked false).context.execution fun _ => true) askedOperation.selections := by
  have hcheck : deepAll isUnaliased askedOperation.selections = true := rfl
  refine uniform_of_unaliased fun f b below hmet => ?_
  exact Option.isNone_iff_eq_none.1 (hmet.check hcheck fun n f hf => by cases hf)

theorem asked_off_literals : (((asked false).context.operationTree
    (plainType "Query" [("it", "It")]) askedOperation).toOption.bind fun N => N.at? ["it"]).map
      (fun M => M.properties.map fun p => p.type.literals) = some [["A"]] := rfl

theorem asked_on_answers : Answers ((asked true).context.execution fun _ => true)
    (plainType "Query" [("it", "It")]) askedOperation.addTypename.selections askedReply := by
  have hb : Answers ((asked true).context.execution fun _ => true)
      (plainType "B" [("b", "String")])
      [typenameField, onType "A" [typenameField], onType "B" [typenameField]]
      [("__typename", .leaf "B")] :=
    askedReply_typename (.field rfl (.inlineUnmet rfl rfl (.inline rfl rfl (.field rfl .nil) .nil)))
      rfl (by decide) rfl
  exact answers_of_single (.field rfl .nil) rfl (by decide)
    (.object rfl (List.mem_cons_of_mem _ List.mem_cons_self) hb)

theorem asked_oneTyped (added : Bool) {ss : List Selection}
    (hss : deepAll asksPlainly ss = true) :
    (asked added).context.OneTyped (plainType "Query" [("it", "It")]) ss := by
  have hnone : ∀ n, (asked added).context.fragments.get? n = none := by
    cases added <;> exact fun _ => rfl
  refine oneTyped_of_unaliased (by cases added <;> decide) (fun n f hf => ?_) List.mem_cons_self hss
  rw [hnone] at hf
  cases hf

/-- Without the names of types added, the name of the second member is missing; with them it is
not. -/
theorem typenames_sound_asked :
    (∃ N, (asked false).context.operationTree (plainType "Query" [("it", "It")]) askedOperation =
        .ok N ∧
      Answer.Tells (plainType "Query" [("it", "It")], askedReply)
        ((asked false).context.execution fun _ => true) askedOperation.selections ∧
      ¬ N.Truthful ShapeTree.Names ((asked false).context.execution fun _ => true)
        askedOperation.selections (plainType "Query" [("it", "It")], askedReply) ∧
      ¬ N.Truthful (ShapeTree.Heads (asked false).context)
        ((asked false).context.execution fun _ => true) askedOperation.selections
        (plainType "Query" [("it", "It")], askedReply)) ∧
    ∃ N, (asked true).context.operationTree (plainType "Query" [("it", "It")])
        askedOperation.addTypename = .ok N ∧
      N.Truthful ShapeTree.Names ((asked true).context.execution fun _ => true)
        askedOperation.addTypename.selections (plainType "Query" [("it", "It")], askedReply) := by
  constructor
  · obtain ⟨m, hm⟩ : ∃ m, (asked false).context.operation askedOperation = .ok m := ⟨_, rfl⟩
    obtain ⟨root, N, hroot, hN, -, hall⟩ := typenames_sound (asked false) [askedFile]
      askedOperation m (by decide) rfl asked_valid List.mem_cons_self hm
    obtain rfl : plainType "Query" [("it", "It")] = root := Option.some.inj hroot
    obtain ⟨htells, hiff, -⟩ := hall _ _ asked_off_answers
    have hliterals := asked_off_literals
    rw [hN, Except.toOption, Option.bind_some] at hliterals
    have hmissing : ¬ N.Truthful ShapeTree.Names ((asked false).context.execution fun _ => true)
        askedOperation.selections (plainType "Query" [("it", "It")], askedReply) := by
      intro htruthful
      obtain ⟨M, hM, p, hp, -, hliteral⟩ := htruthful _ _ _
        (.inside List.mem_cons_self List.mem_cons_self .here) askedNode asked_off_lives rfl
      rw [hM, Option.map_some, Option.some_inj] at hliterals
      have hmem : p.type.literals ∈ M.properties.map fun p => p.type.literals :=
        List.mem_map_of_mem hp
      rw [hliterals] at hmem
      rw [List.mem_singleton.1 hmem] at hliteral
      exact absurd hliteral (by decide)
    exact ⟨N, hN, htells asked_off_uniform, hmissing, mt hiff.2 hmissing⟩
  · obtain ⟨m, hm⟩ : ∃ m, (asked true).context.operation askedOperation.addTypename = .ok m :=
      ⟨_, rfl⟩
    obtain ⟨root, N, hroot, hN, -, hall⟩ := typenames_sound (asked true) [askedFile]
      askedOperation.addTypename m (by decide) rfl asked_valid List.mem_cons_self hm
    obtain rfl : plainType "Query" [("it", "It")] = root := Option.some.inj hroot
    obtain ⟨-, -, htruthful⟩ := hall _ _ asked_on_answers
    have hdata : (asked true).document.AsksData := by
      refine ⟨fun o ho => ?_, fun f hf => absurd hf List.not_mem_nil⟩
      obtain rfl : o = askedOperation := List.mem_singleton.1 ho
      rfl
    have horderly : (asked true).document.HasBlocks Selection.isOrderly := by
      refine ⟨fun o ho => ?_, fun f hf => absurd hf List.not_mem_nil⟩
      obtain rfl : o = askedOperation := List.mem_singleton.1 ho
      rfl
    exact ⟨N, hN, (htruthful hdata (asked_oneTyped true rfl) (.inr ⟨rfl, horderly⟩)).1⟩

end Generation
end QueryTypes
