import QueryTypes.Json.Access
import QueryTypes.Output.Generate
import QueryTypes.Proofs.Document.Uses
import QueryTypes.Proofs.Output.Modules
import QueryTypes.Proofs.Output.Written

/-!
# The manifest and the map of operation ids

Three lists are made of a document: the entries of the operations, the entries of the fragments and
the map of operation ids. They agree with each other. And the id of an operation depends on nothing
but how the operation and the fragments that it leads to are written.
-/

namespace QueryTypes

namespace Manifest

variable {s : Schema} {d : Document} {table : Table Fragment} {o : Operation} {v e : Json}

/-! ### Entries -/

/-- What the entry of an operation says about it. -/
structure Describes (table : Table Fragment) (o : Operation) (e : Json) : Prop where
  named : e.text? "operationName" = o.name.map Name.text
  source : e.text? "source" = some (Printer.operation o)
  whole : e.text? "sourceWithFragments" = some (o.fullText table)
  referenced : e.texts "fragmentsReferenced" = o.uses table
  id : e.text? "operationId" = some (operationId (o.fullText table))

theorem asTexts_texts (xs : List String) : (texts xs).asTexts = xs := by
  rw [texts, Json.asTexts, Json.asItems, List.filterMap_map]
  exact List.filterMap_some

theorem describes_of_operation (h : operation s table o = .ok e) : Describes table o e := by
  unfold operation at h
  split at h
  · cases h
  · cases h
  · rename_i name root hname hroot
    obtain rfl := Except.ok.inj h
    exact ⟨by rw [hname]; rfl, rfl, rfl, asTexts_texts _, rfl⟩

theorem forall₂_of_ofDocument (h : ofDocument s d = .ok v) :
    List.Forall₂ (Describes d.fragmentTable) d.operations (v.items "operations") ∧
      v.items "fragments" = d.fragmentTable.values.map (fragment d.fragmentTable) := by
  obtain ⟨operations, hoperations, h⟩ := Outcome.bind_eq_ok_iff.1 h
  obtain rfl := Except.ok.inj h
  exact ⟨(Outcome.forall₂_of_mapM hoperations).imp fun _ _ => describes_of_operation, rfl⟩

/-- What the map of ids holds for an operation. -/
def idEntry (table : Table Fragment) (o : Operation) : String × Json :=
  (operationId (o.fullText table),
    .obj [("name", textOrNull (o.name.map Name.text)), ("source", .str (o.fullText table))])

theorem eq_of_operationIds (h : operationIds d = .ok v) :
    v = .obj (Table.ofList (d.operations.map (idEntry d.fragmentTable))) := by
  obtain ⟨entries, hentries, h⟩ := Outcome.bind_eq_ok_iff.1 h
  obtain rfl := Except.ok.inj h
  have hmap : entries.map id = d.operations.map (idEntry d.fragmentTable) := by
    refine Outcome.map_of_mapM ?_ hentries
    intro o entry ho
    cases hname : o.name with
    | none =>
      rw [hname] at ho
      cases ho
    | some name =>
      rw [hname] at ho
      obtain rfl := Except.ok.inj ho
      rw [idEntry, hname]
      rfl
  rw [List.map_id] at hmap
  rw [hmap]

end Manifest

/-! ### Ids are local -/

namespace Generation

open ShapeContext (plainField plainType)

variable {g g' : Generation} {o o' : Operation} {i j : Nat} {id : String}

/-- The manifest and the map of ids, whenever they are made, have the id for the operation in a
place of the document. -/
structure Identifies (g : Generation) (i : Nat) (id : String) : Prop where
  manifest {v : Json} : Manifest.ofDocument g.schema g.preparedDocument = .ok v →
    (v.items "operations")[i]?.bind (·.text? "operationId") = some id
  map {v : Json} : Manifest.operationIds g.preparedDocument = .ok v →
    ∃ w, v.field? id = some w ∧ (w.text? "source").map Manifest.operationId = some id

theorem identifies_of_getElem? (ho : g.preparedDocument.operations[i]? = some o) :
    g.Identifies i (Manifest.operationId (o.fullText g.preparedDocument.fragmentTable)) where
  manifest hv := by
    obtain ⟨hentries, -⟩ := Manifest.forall₂_of_ofDocument hv
    obtain ⟨hi, rfl⟩ := List.getElem?_eq_some_iff.1 ho
    have hi' := hentries.length_eq ▸ hi
    rw [List.getElem?_eq_getElem hi', Option.bind_some]
    exact (hentries.get hi hi').id
  map hv := by
    rw [Manifest.eq_of_operationIds hv]
    have hkey := Table.mem_keys_ofList_iff.2 (List.mem_map_of_mem (f := Prod.fst)
      (List.mem_map_of_mem (f := Manifest.idEntry g.preparedDocument.fragmentTable)
        (List.mem_of_getElem? ho)))
    obtain ⟨w, hw⟩ := Option.isSome_iff_exists.1 (Table.has_iff.2 hkey)
    obtain ⟨o', -, heq⟩ := List.mem_map.1 (Table.mem_of_mem_ofList (Table.mem_of_lookup hw))
    obtain ⟨hid, rfl⟩ := Prod.mk.inj heq
    exact ⟨_, hw, congrArg some hid⟩

/-- The whole text of an operation of the document, with the type names that are added. -/
def wholeText (g : Generation) (o : Operation) : String :=
  if g.options.addTypename then o.addTypename.fullText g.document.addTypename.fragmentTable
  else o.fullText g.document.fragmentTable

theorem identifies_wholeText (ho : g.document.operations[i]? = some o) :
    g.Identifies i (Manifest.operationId (g.wholeText o)) := by
  rw [wholeText]
  cases hadd : g.options.addTypename with
  | false =>
    have hdocument : g.preparedDocument = g.document := by
      rw [preparedDocument, hadd, if_neg Bool.false_ne_true]
    rw [if_neg Bool.false_ne_true, ← hdocument]
    exact identifies_of_getElem? (hdocument ▸ ho)
  | true =>
    have hdocument : g.preparedDocument = g.document.addTypename := by
      rw [preparedDocument, hadd, if_pos rfl]
    have hadded : g.preparedDocument.operations[i]? = some o.addTypename := by
      rw [hdocument, Document.addTypename, List.getElem?_map, ho, Option.map_some]
    rw [if_pos rfl, ← hdocument]
    exact identifies_of_getElem? hadded

theorem wholeText_of_bare (hoptions : g.options.addTypename = g'.options.addTypename)
    (hsame : o.bare = o'.bare)
    (hbelow : ∀ n, Leads g.document.fragmentTable (Selection.allSpreads o.selections) n →
      (g.document.fragmentTable.get? n).map Fragment.bare =
        (g'.document.fragmentTable.get? n).map Fragment.bare) :
    g.wholeText o = g'.wholeText o' := by
  rw [wholeText, wholeText, ← hoptions, fullText_of_bare hsame hbelow,
    fullText_addTypename_of_bare hsame hbelow]

/-- The id of an operation is local. Two documents may hold whatever else they do, in any order and
from any files: if an operation of one is written like an operation of the other, and each fragment
that it leads to is written in one document as it is in the other, then it has one id in both, with
added type names or without. -/
theorem operation_id_local (hoptions : g.options.addTypename = g'.options.addTypename)
    (ho : g.document.operations[i]? = some o) (ho' : g'.document.operations[j]? = some o')
    (hsame : o.bare = o'.bare)
    (hbelow : ∀ n, Leads g.document.fragmentTable (Selection.allSpreads o.selections) n →
      (g.document.fragmentTable.get? n).map Fragment.bare =
        (g'.document.fragmentTable.get? n).map Fragment.bare) :
    ∃ id, g.Identifies i id ∧ g'.Identifies j id := by
  have hid := identifies_wholeText ho
  have hid' := identifies_wholeText ho'
  rw [wholeText_of_bare hoptions hsame hbelow] at hid
  exact ⟨_, hid, hid'⟩

def plainFragment (name : String) (selections : List Selection) : Fragment :=
  ⟨⟨name, none⟩, ⟨"T", none⟩, [], selections, none⟩

def plainSpread (name : String) : Selection := .spread ⟨name, none⟩ [] none

def namedQuery (name : String) (selections : List Selection) : Operation :=
  ⟨.query, some ⟨name, none⟩, [], [], selections, none⟩

def query : Operation := namedQuery "Q" [plainField "t" [plainSpread "Outer"]]

def first : Operation := namedQuery "First" [plainField "t" [plainSpread "Unrelated"]]

def somewhere : Option Origin := some ⟨⟨"src/q.graphql", []⟩, 40⟩

def queryElsewhere : Operation := { query with origin := somewhere }

/-- A query that leads to two fragments, one of them through the other. -/
def alone : Generation where
  document := ⟨[query],
    [plainFragment "Outer" [plainSpread "Inner"], plainFragment "Inner" [plainField "a" []]]⟩
  schema := ⟨[plainType "Query" [("t", "T")], plainType "T" [("a", "String"), ("b", "String")],
    ⟨"String", none, .scalar⟩], some "Query", none, none, []⟩
  output := "out.json"
  only := none
  target := .json
  beside := false
  templateTag := "gql"
  options := { Options.standard with operationIdsPath := some "ids.json", writeOperationIds := true }

/-- The same query and fragments from some file, among others and in another order. -/
def among : Generation :=
  { alone with document :=
    ⟨[first, queryElsewhere],
    [{ plainFragment "Inner" [plainField "a" []] with origin := somewhere },
      plainFragment "Unrelated" [plainField "b" [], plainSpread "Outer"],
      { plainFragment "Outer" [plainSpread "Inner"] with origin := somewhere }]⟩ }

theorem mem_of_leads_alone {n : String} (h : Leads alone.document.fragmentTable ["Outer"] n) :
    n = "Outer" ∨ n = "Inner" := by
  induction h with
  | spread hn => exact .inl (List.mem_singleton.1 hn)
  | through _ hn ih =>
    rcases ih with rfl | rfl
    · exact .inr (List.mem_singleton.1 hn)
    · cases hn

theorem operation_id_local_among : ∃ id v ids v' ids',
    Manifest.ofDocument alone.schema alone.preparedDocument = .ok v ∧
      Manifest.operationIds alone.preparedDocument = .ok ids ∧
      Manifest.ofDocument among.schema among.preparedDocument = .ok v' ∧
      Manifest.operationIds among.preparedDocument = .ok ids' ∧
      (v.items "operations")[0]?.bind (·.text? "operationId") = some id ∧
      (v'.items "operations")[1]?.bind (·.text? "operationId") = some id ∧
      (ids.field? id).isSome = true ∧ (ids'.field? id).isSome = true := by
  have hlocal : ∃ id, alone.Identifies 0 id ∧ among.Identifies 1 id := by
    have hoptions : alone.options.addTypename = among.options.addTypename := rfl
    have hfirst : alone.document.operations[0]? = some query := rfl
    have hsecond : among.document.operations[1]? = some queryElsewhere := rfl
    apply operation_id_local hoptions hfirst hsecond (by rfl)
    intro n hn
    rcases mem_of_leads_alone hn with rfl | rfl
    · rfl
    · rfl
  obtain ⟨id, hid, hid'⟩ := hlocal
  obtain ⟨v, hv⟩ := Outcome.exists_of_isSome
    (x := Manifest.ofDocument alone.schema alone.preparedDocument) (by decide +kernel)
  obtain ⟨ids, hids⟩ := Outcome.exists_of_isSome
    (x := Manifest.operationIds alone.preparedDocument) (by decide +kernel)
  obtain ⟨v', hv'⟩ := Outcome.exists_of_isSome
    (x := Manifest.ofDocument among.schema among.preparedDocument) (by decide +kernel)
  obtain ⟨ids', hids'⟩ := Outcome.exists_of_isSome
    (x := Manifest.operationIds among.preparedDocument) (by decide +kernel)
  obtain ⟨w, hw, -⟩ := hid.map hids
  obtain ⟨w', hw', -⟩ := hid'.map hids'
  refine ⟨id, v, ids, v', ids', hv, hids, hv', hids', hid.manifest hv, hid'.manifest hv', ?_, ?_⟩
  · rw [hw, Option.isSome_some]
  · rw [hw', Option.isSome_some]

/-! ### The lists agree -/

theorem congr_preparedDocument {α : Type} {f : Document → α} (h : ∀ d, f d.addTypename = f d)
    (g : Generation) : f g.preparedDocument = f g.document := by
  rw [preparedDocument]
  split
  · exact h _
  · rfl

theorem preparedDocument_wellNamed (h : g.document.WellNamed) : g.preparedDocument.WellNamed := by
  rw [preparedDocument]
  split
  · exact h.addTypename
  · exact h

end Generation

namespace Manifest

variable {s : Schema} {d : Document} {table : Table Fragment} {o : Operation} {v e : Json}

/-- The whole text in the entry of an operation is its text and, in order, the texts in the entries
of the fragments that it refers to. -/
def Composed (v e : Json) : Prop :=
  ∃ below, List.Forall₂ (fun n w => w ∈ v.items "fragments" ∧ w.text? "fragmentName" = some n)
      (e.texts "fragmentsReferenced") below ∧
    e.text? "sourceWithFragments" =
      some (Text.joinWith "\n" (e.text "source" :: below.map (·.text "source")))

/-- The whole text in the entry of an operation has the fragments that the operation leads to. Each
fragment that is spread there is defined there once, if the document has all fragments that are
spread in it. -/
def Covers (d : Document) (o : Operation) (e : Json) : Prop :=
  ∃ fs : List Fragment, e.texts "fragmentsReferenced" = fs.map (fun f => f.name.text) ∧
    e.text? "sourceWithFragments" =
      some (Text.joinWith "\n" (Printer.operation o :: fs.map Printer.fragment)) ∧
    (∀ f ∈ fs, f ∈ d.fragments ∧
      Leads d.fragmentTable (Selection.allSpreads o.selections) f.name.text) ∧
    ((∀ n ∈ d.spreads, n ∈ d.fragmentNames) → ∀ n,
      (n ∈ Selection.allSpreads o.selections ∨ ∃ f ∈ fs, n ∈ Selection.allSpreads f.selections) →
        (fs.map fun f => f.name.text).count n = 1)

/-- The entry of an operation and what the map has under a key say the same. -/
def Corresponds (e : Json) (p : String × Json) : Prop :=
  e.text? "operationId" = some p.1 ∧ p.2.text? "name" = e.text? "operationName" ∧
    p.2.text? "source" = e.text? "sourceWithFragments"

/-- Operations with different whole texts have different ids. -/
def Apart (d : Document) : Prop :=
  ∀ o ∈ d.operations, ∀ o' ∈ d.operations,
    operationId (o.fullText d.fragmentTable) = operationId (o'.fullText d.fragmentTable) →
      o.fullText d.fragmentTable = o'.fullText d.fragmentTable

/-- A manifest and a map of ids agree with each other and with a document. -/
structure Agrees (d : Document) (v : Json) (ids : List (String × Json)) : Prop where
  operations : (v.items "operations").map (·.text? "operationName") = d.operationNames
  fragments : (v.items "fragments").map (·.text? "fragmentName") = d.fragmentNames.map some
  composed : ∀ e ∈ v.items "operations", Composed v e
  covers : List.Forall₂ (Covers d) d.operations (v.items "operations")
  corresponds : Apart d → List.Forall₂ Corresponds (v.items "operations") ids
  nodup : (ids.map Prod.fst).Nodup

theorem Describes.covers (he : Describes d.fragmentTable o e) (ho : o ∈ d.operations) :
    Covers d o e := by
  refine ⟨o.usedFragments d.fragmentTable, ?_, ?_, ?_, ?_⟩
  · rw [he.referenced, Document.map_name_usedFragments]
  · rw [he.whole, fullText_eq]
  · exact fun f => Document.leads_of_mem_usedFragments
  · exact fun hknown n => Document.count_usedFragments hknown ho

theorem Describes.composed (he : Describes d.fragmentTable o e)
    (hv : v.items "fragments" = d.fragments.map (fragment d.fragmentTable)) : Composed v e := by
  refine ⟨(o.usedFragments d.fragmentTable).map (fragment d.fragmentTable), ?_, ?_⟩
  · rw [he.referenced, ← Document.map_name_usedFragments, List.forall₂_map_left_iff,
      List.forall₂_map_right_iff, List.forall₂_same, hv]
    intro f hf
    exact ⟨List.mem_map_of_mem (Document.leads_of_mem_usedFragments hf).1, rfl⟩
  · have hsource : e.text "source" = Printer.operation o := by rw [Json.text, he.source]; rfl
    rw [he.whole, fullText_eq, hsource, List.map_map]
    rfl

theorem Describes.corresponds (he : Describes table o e) : Corresponds e (idEntry table o) := by
  refine ⟨he.id, ?_, he.whole.symm⟩
  rw [he.named, idEntry]
  cases o.name <;> rfl

theorem nodup_idEntries (hnamed : d.WellNamed) (hapart : Apart d) :
    ((d.operations.map (idEntry d.fragmentTable)).map Prod.fst).Nodup := by
  rw [List.map_map, List.Nodup, List.pairwise_map]
  refine (List.pairwise_map.1 hnamed.operations).imp_of_mem ?_
  intro o o' ho ho' hne hid
  obtain ⟨n, hn, hident⟩ := hnamed.named o ho
  obtain ⟨n', hn', hident'⟩ := hnamed.named o' ho'
  have hnames := Operation.eq_of_fullText hn hn' hident hident' (hapart o ho o' ho' hid)
  rw [hn, hn', Option.map_some, Option.map_some, hnames] at hne
  exact hne rfl

theorem agrees_of_ofDocument {ids : Json} (hnamed : d.WellNamed) (hv : ofDocument s d = .ok v)
    (hids : operationIds d = .ok ids) : ∃ entries, ids = .obj entries ∧ Agrees d v entries := by
  obtain ⟨hentries, hfragments⟩ := forall₂_of_ofDocument hv
  have hvalues : v.items "fragments" = d.fragments.map (fragment d.fragmentTable) := by
    rw [hfragments, Document.values_fragmentTable hnamed.fragments]
  have hback : List.Forall₂ (fun e o => Describes d.fragmentTable o e) (v.items "operations")
      d.operations := hentries.flip
  refine ⟨_, eq_of_operationIds hids, ?_, ?_, ?_, ?_, ?_, Table.nodup_keys_ofList _⟩
  · rw [Document.operationNames, ← List.forall₂_eq_eq_eq, List.forall₂_map_left_iff,
      List.forall₂_map_right_iff]
    exact hback.imp fun e o he => he.named
  · rw [hvalues, List.map_map, Document.fragmentNames, List.map_map]
    rfl
  · have hboth := hback.imp fun e o he => And.intro (he.composed hvalues) he
    exact ((List.forall₂_and_left _ _).1 hboth).1
  · have hboth := (List.forall₂_and_left _ _).2 ⟨fun o ho => ho, hentries⟩
    exact hboth.imp fun o e he => he.2.covers he.1
  · intro hapart
    rw [Table.ofList_of_nodup (nodup_idEntries hnamed hapart), List.forall₂_map_right_iff]
    exact hback.imp fun e o he => he.corresponds

end Manifest

namespace Generation

open ShapeContext (plainField plainType)

variable {g : Generation} {cwd : Location} {written : List GeneratedFile} {path : String}

theorem isWanted_of_shared {f : GeneratedFile} (h : f.source = none) (only : Option String) :
    isWanted cwd only f = true := by
  rw [isWanted, h]
  cases given only <;> rfl

/-- The manifest is written whatever source is asked for, and the map of ids after it. -/
theorem manifest_and_ids_of_files (htarget : g.target = .json)
    (hpath : given g.options.operationIdsPath = some path)
    (hwrite : g.options.writeOperationIds = true)
    (h : g.files Emitters.builtin cwd = .ok written) :
    ∃ v ids, Manifest.ofDocument g.schema g.preparedDocument = .ok v ∧
      Manifest.operationIds g.preparedDocument = .ok ids ∧
      written = [⟨Path.ofText g.output, Manifest.fileText v, none⟩,
        ⟨Path.ofText path, Manifest.fileText ids, none⟩] := by
  have hemitter : Emitters.builtin.get? g.target = some Manifest.emitter := by rw [htarget]; rfl
  obtain ⟨emitted, idFile, hemitted, hidFile, rfl⟩ := exists_of_files hemitter h
  simp only [IdFile, hpath, hwrite] at hidFile
  obtain ⟨ids, hids, rfl⟩ := hidFile
  obtain ⟨v, hv, hemitted⟩ := Outcome.bind_eq_ok_iff.1 hemitted
  obtain rfl := Except.ok.inj hemitted
  refine ⟨v, ids, Outcome.ok_of_mapError hv, hids, ?_⟩
  rw [List.filter_singleton, isWanted_of_shared rfl]
  rfl

/-- The manifest, the map of operation ids and the fragments that operations lead to agree, for
every generation of a manifest with a map of ids, whatever source it is for. -/
theorem manifest_agrees (htarget : g.target = .json)
    (hpath : given g.options.operationIdsPath = some path)
    (hwrite : g.options.writeOperationIds = true) (hnamed : g.document.WellNamed)
    (h : g.files Emitters.builtin cwd = .ok written) :
    ∃ v ids, written = [⟨Path.ofText g.output, Manifest.fileText v, none⟩,
        ⟨Path.ofText path, Manifest.fileText (.obj ids), none⟩] ∧
      Manifest.Agrees g.preparedDocument v ids ∧
      g.preparedDocument.operationNames = g.document.operationNames ∧
      g.preparedDocument.fragmentNames = g.document.fragmentNames ∧
      g.preparedDocument.spreads = g.document.spreads := by
  obtain ⟨v, ids, hv, hids, rfl⟩ := manifest_and_ids_of_files htarget hpath hwrite h
  obtain ⟨entries, rfl, hagrees⟩ :=
    Manifest.agrees_of_ofDocument (preparedDocument_wellNamed hnamed) hv hids
  exact ⟨v, entries, rfl, hagrees, congr_preparedDocument Document.operationNames_addTypename g,
    congr_preparedDocument Document.fragmentNames_addTypename g,
    congr_preparedDocument Document.spreads_addTypename g⟩

/-- Two queries that share a fragment, and a fragment that no query leads to. -/
def sharing : Generation :=
  { alone with
    document := ⟨[namedQuery "A" [plainSpread "F"], namedQuery "B" [plainSpread "F"]],
      [plainFragment "G" [plainSpread "F"], plainFragment "F" [plainField "a" []]]⟩
    schema := ⟨[plainType "T" [("a", "String")], ⟨"String", none, .scalar⟩], some "T", none, none, []⟩
    only := some "src/other.graphql"
    options := { alone.options with addTypename := false } }

theorem sharing_wellNamed : sharing.document.WellNamed where
  named := by
    intro o ho
    rcases List.mem_pair.1 ho with rfl | rfl
    · exact ⟨_, rfl, by decide⟩
    · exact ⟨_, rfl, by decide⟩
  operations := by decide
  fragments := by decide

theorem sharing_apart : Manifest.Apart sharing.preparedDocument := by
  have huses (name : String) : (namedQuery name [plainSpread "F"]).uses
      sharing.preparedDocument.fragmentTable = ["F"] := by
    have hreached : reached sharing.preparedDocument.fragmentTable [plainSpread "F"] = ["F"] := by
      decide +kernel
    exact Operation.uses_of_reached (by decide) (by rw [namedQuery, hreached])
  have hne : Manifest.operationId ((namedQuery "A" [plainSpread "F"]).fullText
        sharing.preparedDocument.fragmentTable) ≠
      Manifest.operationId ((namedQuery "B" [plainSpread "F"]).fullText
        sharing.preparedDocument.fragmentTable) := by
    rw [Operation.fullText, Operation.fullText, huses, huses]
    decide +kernel
  intro o ho o' ho' hid
  rcases List.mem_pair.1 ho with rfl | rfl <;> rcases List.mem_pair.1 ho' with rfl | rfl
  · rfl
  · exact absurd hid hne
  · exact absurd hid.symm hne
  · rfl

theorem manifest_agrees_sharing : ∃ v ids, sharing.files Emitters.builtin ["p"] =
      .ok [⟨Path.ofText "out.json", Manifest.fileText v, none⟩,
        ⟨Path.ofText "ids.json", Manifest.fileText (.obj ids), none⟩] ∧
      (v.items "operations").map (·.text? "operationName") = [some "A", some "B"] ∧
      (v.items "fragments").map (·.text? "fragmentName") = [some "G", some "F"] ∧
      (∀ n ∈ sharing.document.spreads, n ∈ sharing.document.fragmentNames) ∧
      Manifest.Apart sharing.preparedDocument ∧
      List.Forall₂ Manifest.Corresponds (v.items "operations") ids := by
  obtain ⟨files, hfiles⟩ : ∃ files, sharing.files Emitters.builtin ["p"] = .ok files :=
    Outcome.exists_of_isSome (by decide +kernel)
  obtain ⟨v, ids, rfl, hagrees, -⟩ := manifest_agrees rfl rfl rfl sharing_wellNamed hfiles
  exact ⟨v, ids, hfiles, hagrees.operations, hagrees.fragments, by decide, sharing_apart,
    hagrees.corresponds sharing_apart⟩

end Generation
end QueryTypes
