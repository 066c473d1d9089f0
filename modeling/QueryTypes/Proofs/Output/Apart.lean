import QueryTypes.Pipeline.Dispatch
import QueryTypes.Proofs.Document.Parsed
import QueryTypes.Proofs.Document.Uses
import QueryTypes.Proofs.Output.Manifest
import QueryTypes.Proofs.Output.Places
import QueryTypes.Proofs.Project.Assembled

/-!
# Modules with places of their own

Validation keeps the names of operations apart, and the names of fragments, but neither from the
other, nor from the name of the shared module. Main statement: the modules of an assembled document
have different places exactly if no operation has the name and the directory of a fragment and
nothing is placed where the shared module is, and then all of them are there when a generation has
ended. Else the last one written to a place is there, and the number that is given is too large.
-/

namespace QueryTypes

/-! ### Names of assembled documents -/

/-- What is read from some file. -/
def ClientFile.IsRead (f : ClientFile) : Prop := ∃ tag t l, ClientFile.read tag t l = .ok f

theorem ClientFile.wellSpelled_of_ofBodies {l : Location} {bs : List (List Char)} {f : ClientFile}
    (h : ofBodies l bs = .ok f) : ∀ d ∈ f.definitions, d.WellSpelled := by
  induction bs generalizing f with
  | nil =>
    obtain rfl := Except.ok.inj h
    simp
  | cons b bs ih =>
    unfold ofBodies at h
    split at h
    · rename_i ds hds
      obtain ⟨rest, hrest, h⟩ := Outcome.bind_eq_ok_iff.1 h
      obtain rfl := Except.ok.inj h
      intro d hd
      rcases List.mem_append.1 hd with hd | hd
      · exact wellSpelled_of_parseDefinitions hds d hd
      · exact ih hrest d hd
    · obtain ⟨rest, hrest, h⟩ := Outcome.bind_eq_ok_iff.1 h
      obtain rfl := Except.ok.inj h
      exact fun d hd => ih hrest d hd
    · cases h

theorem ClientFile.isRead_of_mem_singleton {tag : String} {t : FileTree} {l : Location}
    {f : ClientFile} (h : ClientFile.read tag t l = .ok f) : ∀ g ∈ [f], g.IsRead := by
  intro g hg
  rw [List.mem_singleton.1 hg]
  exact ⟨tag, t, l, h⟩

theorem ClientFile.IsRead.wellSpelled {f : ClientFile} (h : f.IsRead) :
    ∀ d ∈ f.definitions, d.WellSpelled := by
  obtain ⟨tag, t, l, h⟩ := h
  unfold ClientFile.read at h
  split at h
  · obtain rfl := Except.ok.inj h
    intro d hd
    exact absurd hd List.not_mem_nil
  · exact ClientFile.wellSpelled_of_ofBodies h

namespace ClientFiles

variable {s : Option Schema} {files : List ClientFile} {d : Document}

theorem exists_distinct_of_assembled (h : assembled s files = .ok d) :
    Distinct (definitions files) ∧ d = Document.ofDefinitions (definitions files) := by
  obtain ⟨hreport, -, -, rfl⟩ := assembled_eq_ok_iff.1 h
  exact ⟨(report_eq_nil_iff.1 hreport).2, rfl⟩

theorem wellSpelled_definitions (hread : ∀ f ∈ files, f.IsRead) :
    ∀ d ∈ definitions files, d.WellSpelled := by
  intro d hd
  obtain ⟨f, hf, hd⟩ := List.mem_flatMap.1 hd
  exact (hread f hf).wellSpelled d hd

theorem wellNamed_of_assembled (hread : ∀ f ∈ files, f.IsRead) (h : assembled s files = .ok d) :
    d.WellNamed := by
  obtain ⟨hdistinct, rfl⟩ := exists_distinct_of_assembled h
  obtain ⟨hnamed, hoperations, hfragments⟩ := hdistinct.names
  refine ⟨?_, hoperations, hfragments⟩
  intro o ho
  obtain ⟨n, hn⟩ := hnamed o ho
  obtain ⟨d, hd, hdo⟩ := List.mem_filterMap.1 ho
  exact ⟨n, hn, (wellSpelled_definitions hread d hd).operation o hdo n hn⟩

end ClientFiles

/-! ### What places depend on -/

namespace Document

def operationTitles (d : Document) : List (Option Path × String) :=
  d.operations.map fun o => (sourcePath o.origin, (o.name.map Name.text).getD "")

def fragmentTitles (d : Document) : List (Option Path × String) :=
  d.fragments.map fun f => (sourcePath f.origin, f.name.text)

/-- Where each definition was read, and its name. -/
def titles (d : Document) : List (Option Path × String) := d.operationTitles ++ d.fragmentTitles

theorem operationTitles_addTypename (d : Document) :
    d.addTypename.operationTitles = d.operationTitles := by
  rw [operationTitles, addTypename, List.map_map]
  rfl

theorem fragmentTitles_addTypename (d : Document) :
    d.addTypename.fragmentTitles = d.fragmentTitles := by
  rw [fragmentTitles, addTypename, List.map_map]
  rfl

theorem titles_addTypename (d : Document) : d.addTypename.titles = d.titles := by
  rw [titles, operationTitles_addTypename, fragmentTitles_addTypename, titles]

variable {d : Document}

theorem nodup_operationTitles (hd : d.WellNamed) : (d.operationTitles.map Prod.snd).Nodup := by
  have hnames : (d.operationTitles.map Prod.snd).map some = d.operationNames := by
    rw [operationTitles, operationNames, List.map_map, List.map_map]
    apply List.map_congr_left
    intro o ho
    obtain ⟨n, hn, -⟩ := hd.named o ho
    simp [hn]
  apply List.Nodup.of_map some
  rw [hnames]
  exact hd.operations

theorem nodup_fragmentTitles (hd : d.WellNamed) : (d.fragmentTitles.map Prod.snd).Nodup := by
  rw [fragmentTitles, List.map_map]
  exact hd.fragments

theorem isIdentifier_of_mem_titles {s : Option Schema} {files : List ClientFile}
    (hread : ∀ f ∈ files, f.IsRead) (h : ClientFiles.assembled s files = .ok d)
    {t : Option Path × String} (ht : t ∈ d.titles) : IsIdentifier t.2 := by
  have hnamed := (ClientFiles.wellNamed_of_assembled hread h).named
  obtain ⟨-, rfl⟩ := ClientFiles.exists_distinct_of_assembled h
  rcases List.mem_append.1 ht with ht | ht
  · obtain ⟨o, ho, rfl⟩ := List.mem_map.1 ht
    obtain ⟨n, hn, hword⟩ := hnamed o ho
    rw [hn]
    exact hword
  · obtain ⟨f, hf, rfl⟩ := List.mem_map.1 ht
    obtain ⟨d, hd, hdf⟩ := List.mem_filterMap.1 hf
    exact (ClientFiles.wellSpelled_definitions hread d hd).fragment f hdf

end Document

namespace ShapeContext

variable {cx : ShapeContext} {m : ModuleShape}

theorem file_of_operation {o : Operation} (h : cx.operation o = .ok m) :
    m.file = sourceFile o.origin := by
  unfold operation at h
  split at h
  · cases h
  · cases h
  · obtain ⟨objects, -, h⟩ := Outcome.bind_eq_ok_iff.1 h
    obtain ⟨arguments, -, h⟩ := Outcome.bind_eq_ok_iff.1 h
    obtain rfl := Except.ok.inj h
    rfl

theorem file_of_fragment {f : Fragment} (h : cx.fragment f = .ok m) :
    m.file = sourceFile f.origin := by
  unfold fragment at h
  split at h
  · cases h
  · obtain ⟨objects, -, h⟩ := Outcome.bind_eq_ok_iff.1 h
    obtain rfl := Except.ok.inj h
    rfl

end ShapeContext

/-- Where the definition of a module was read, and its name. -/
def ModuleShape.title (m : ModuleShape) : Option Path × String := (m.file.map Path.ofText, m.name)

theorem Types.titles_of_modules {cx : ShapeContext} {d : Document} {ms : List ModuleShape}
    (hcx : cx.fragments = d.fragmentTable) (hd : d.fragmentNames.Nodup)
    (h : modules cx d = .ok ms) : ms.map ModuleShape.title = d.titles := by
  obtain ⟨operations, hoperations, h⟩ := Outcome.bind_eq_ok_iff.1 h
  obtain ⟨fragments, hfragments, h⟩ := Outcome.bind_eq_ok_iff.1 h
  obtain rfl := Except.ok.inj h
  rw [hcx, Document.values_fragmentTable hd] at hfragments
  rw [List.map_append, Document.titles]
  congr 1
  · refine Outcome.map_of_mapM (fun o m ho => ?_) hoperations
    rw [ModuleShape.title, ShapeContext.file_of_operation ho, ← ShapeContext.name_of_operation ho]
    rfl
  · refine Outcome.map_of_mapM (fun f m hf => ?_) hfragments
    rw [ModuleShape.title, ShapeContext.file_of_fragment hf, ShapeContext.name_of_fragment hf]
    rfl

/-! ### Places of modules -/

namespace Placement

variable {p : Placement} {d : Document}

/-- No operation has the name and the directory of a fragment. -/
def PartsKinds (p : Placement) (d : Document) : Prop :=
  ∀ o ∈ d.operationTitles, ∀ f ∈ d.fragmentTitles, o.2 = f.2 → p.folder o.1 ≠ p.folder f.1

/-- No module stands where the shared module goes: at the file it is given, or else in its directory
and under its name. -/
def LeavesShared (p : Placement) (d : Document) : Prop :=
  ∀ t ∈ d.titles, match given p.sharedFile with
    | some f => p.spot t.1 t.2 ≠ Path.resolve p.cwd (Path.ofText f)
    | none => ¬ (p.folder t.1 = p.sharedFolder (d.titles.filterMap Prod.fst) ∧ t.2 = "globalTypes")

theorem nodup_spots_of_names {ts : List (Option Path × String)} (hts : ∀ t ∈ ts, IsIdentifier t.2)
    (h : (ts.map Prod.snd).Nodup) : (ts.map fun t => p.spot t.1 t.2).Nodup := by
  -- the names alone keep the places apart, whatever the directories are
  refine List.Nodup.map_on ?_ (List.Nodup.of_map _ h)
  intro t ht t' ht' heq
  exact List.inj_on_of_nodup_map h ht ht' ((spot_eq_iff (hts t ht) (hts t' ht')).1 heq).2

theorem nodup_spots_iff (hd : d.WellNamed) (hwords : ∀ t ∈ d.titles, IsIdentifier t.2) :
    (d.titles.map fun t => p.spot t.1 t.2).Nodup ↔ p.PartsKinds d := by
  have hoperations : ∀ t ∈ d.operationTitles, IsIdentifier t.2 :=
    fun t ht => hwords t (List.mem_append_left _ ht)
  have hfragments : ∀ t ∈ d.fragmentTitles, IsIdentifier t.2 :=
    fun t ht => hwords t (List.mem_append_right _ ht)
  rw [Document.titles, List.map_append, List.nodup_append]
  constructor
  · rintro ⟨-, -, hapart⟩ o ho f hf hname hfolder
    exact hapart _ (List.mem_map_of_mem ho) _ (List.mem_map_of_mem hf)
      ((spot_eq_iff (hoperations o ho) (hfragments f hf)).2 ⟨hfolder, hname⟩)
  · intro hparts
    refine ⟨nodup_spots_of_names hoperations (Document.nodup_operationTitles hd),
      nodup_spots_of_names hfragments (Document.nodup_fragmentTitles hd), ?_⟩
    intro a ha b hb heq
    obtain ⟨o, ho, rfl⟩ := List.mem_map.1 ha
    obtain ⟨f, hf, rfl⟩ := List.mem_map.1 hb
    obtain ⟨hfolder, hname⟩ := (spot_eq_iff (hoperations o ho) (hfragments f hf)).1 heq
    exact hparts o ho f hf hname hfolder

theorem leavesShared_iff (hext : ".." ∉ Text.split '/' p.extension)
    (hwords : ∀ t ∈ d.titles, IsIdentifier t.2) : p.LeavesShared d ↔
      Path.resolve p.cwd (p.shared (d.titles.filterMap Prod.fst)) ∉
        d.titles.map fun t => p.spot t.1 t.2 := by
  have hone : ∀ t ∈ d.titles, (match given p.sharedFile with
      | some f => p.spot t.1 t.2 ≠ Path.resolve p.cwd (Path.ofText f)
      | none => ¬ (p.folder t.1 = p.sharedFolder (d.titles.filterMap Prod.fst) ∧
          t.2 = "globalTypes")) ↔
      p.spot t.1 t.2 ≠ Path.resolve p.cwd (p.shared (d.titles.filterMap Prod.fst)) := by
    intro t ht
    cases hfile : given p.sharedFile with
    | some f =>
      have hshared : p.shared (d.titles.filterMap Prod.fst) = Path.ofText f := by rw [shared, hfile]
      rw [hshared]
    | none => exact not_congr (spot_eq_shared_iff hfile hext (hwords t ht) _).symm
  rw [LeavesShared, forall₂_congr hone, List.mem_map, not_exists]
  simp only [not_and, ne_eq]

end Placement

namespace Types

variable {l : Language} {e : Emission} {ms : List ModuleShape} {written : List GeneratedFile}

theorem sharedPath_eq (l : Language) (h : ms.map ModuleShape.title = e.document.titles) :
    sharedPath l e ms = (placement l e).shared (e.document.titles.filterMap Prod.fst) := by
  rw [sharedPath, ← h, List.filterMap_map]
  rfl

theorem map_place_eq (hext : ".." ∉ Text.split '/' (Placement.bareExtension l e.options))
    (hwords : ∀ m ∈ ms, IsIdentifier m.name)
    (h : List.Forall₂ (IsPlacedFor (placement l e)) ms written) :
    written.map (GeneratedFile.place e.cwd) =
      ms.map fun m => (placement l e).spot m.title.1 m.title.2 := by
  induction h with
  | nil => rfl
  | cons hm _ ih =>
    rw [List.map_cons, List.map_cons, ih fun m hmem => hwords m (List.mem_cons_of_mem _ hmem),
      GeneratedFile.place, hm.1]
    exact congrArg (· :: _) (Placement.resolve_module hext (hwords _ List.mem_cons_self))

theorem length_of_bundle {files : List GeneratedFile} (h : emit l Overrides.none e = .ok files)
    (hb : (placement l e).bundle? ≠ none) : files.length = 1 := by
  obtain ⟨path, hpath⟩ := Option.ne_none_iff_exists'.1 hb
  obtain ⟨ms, -, rfl⟩ := exists_of_emit_bundle h hpath
  rfl

theorem nodup_places_iff (hb : (placement l e).bundle? = none)
    (hext : ".." ∉ Text.split '/' (Placement.bareExtension l e.options))
    (hd : e.document.WellNamed) (hwords : ∀ t ∈ e.document.titles, IsIdentifier t.2)
    {files : List GeneratedFile} (h : emit l Overrides.none e = .ok files) :
    ∃ ms written, modules e.context e.document = .ok ms ∧
      ms.map ModuleShape.title = e.document.titles ∧
      List.Forall₂ (fun m f => IsFileOf l e (sharedPath l e ms) m f ∧
        IsPlacedFor (placement l e) m f) ms written ∧
      let shared := e.context.shared e.options.omitDeprecated ms
      (files = written ++ if shared.isEmpty then [] else [⟨sharedPath l e ms,
        textOfLines ((Style.ofOptions l e.options).sharedLines shared), none⟩]) ∧
      ((files.map (GeneratedFile.place e.cwd)).Nodup ↔ (placement l e).PartsKinds e.document ∧
        (shared.isEmpty = false → (placement l e).LeavesShared e.document)) := by
  obtain ⟨ms, written, hms, hwritten, hfiles⟩ := exists_placed_of_emit h hb
  have htitles := titles_of_modules rfl hd.fragments hms
  refine ⟨ms, written, hms, htitles, hwritten, hfiles, ?_⟩
  have hplaces : written.map (GeneratedFile.place e.cwd) =
      e.document.titles.map fun t => (placement l e).spot t.1 t.2 := by
    rw [map_place_eq hext ?_ (hwritten.imp fun _ _ h => h.2), ← htitles, List.map_map]
    · rfl
    · intro m hm
      apply hwords m.title
      rw [← htitles]
      exact List.mem_map_of_mem hm
  have hapart := Placement.nodup_spots_iff (p := placement l e) hd hwords
  rw [hfiles, List.map_append, hplaces]
  by_cases hempty : (e.context.shared e.options.omitDeprecated ms).isEmpty = true
  · rw [if_pos hempty, List.map_nil, List.append_nil, hapart, hempty]
    simp
  · have hshared : GeneratedFile.place e.cwd ⟨sharedPath l e ms, textOfLines
        ((Style.ofOptions l e.options).sharedLines
          (e.context.shared e.options.omitDeprecated ms)), none⟩ =
        Path.resolve (placement l e).cwd
          ((placement l e).shared (e.document.titles.filterMap Prod.fst)) := by
      change Path.resolve e.cwd (sharedPath l e ms) = _
      rw [sharedPath_eq l htitles]
      rfl
    rw [if_neg hempty, List.map_singleton, hshared, ← List.concat_eq_append, List.nodup_concat,
      hapart, ← Placement.leavesShared_iff (p := placement l e) hext hwords, and_comm]
    simp [hempty]

end Types

namespace Generation

open ShapeContext (plainType)

variable {g : Generation} {l : Language} {s : Option Schema} {clients : List ClientFile}

theorem IdFile.length_le {ids : List GeneratedFile} (h : g.IdFile ids) : ids.length ≤ 1 := by
  unfold IdFile at h
  split at h
  · obtain ⟨v, -, rfl⟩ := h
    exact Nat.le_refl _
  · rw [h]
    exact Nat.zero_le _

/-- Operation ids with a place of their own make no difference. -/
theorem nodup_wanted_append {cwd : Location} {only : Option String} {files ids : List GeneratedFile}
    (hids : g.IdFile ids) (hfiles : (files.map (GeneratedFile.place cwd)).Nodup)
    (hapart : ∀ i ∈ ids, i.place cwd ∉ files.map (GeneratedFile.place cwd)) :
    ((files.filter (isWanted cwd only) ++ ids).map (GeneratedFile.place cwd)).Nodup := by
  have hwanted : ((files.filter (isWanted cwd only)).map (GeneratedFile.place cwd)).Sublist
      (files.map (GeneratedFile.place cwd)) := (List.filter_sublist).map _
  -- leaving files out makes no two places one
  match ids, hids.length_le with
  | [], _ => simpa using hfiles.sublist hwanted
  | [i], _ =>
    rw [List.map_append, List.map_singleton, ← List.concat_eq_append, List.nodup_concat]
    exact ⟨fun hi => hapart i (by simp) (hwanted.subset hi), hfiles.sublist hwanted⟩

theorem preparedDocument_titles (g : Generation) : g.preparedDocument.titles = g.document.titles :=
  congr_preparedDocument Document.titles_addTypename g

theorem partsKinds_preparedDocument (p : Placement) (g : Generation) :
    p.PartsKinds g.preparedDocument ↔ p.PartsKinds g.document := by
  rw [Placement.PartsKinds, congr_preparedDocument Document.operationTitles_addTypename,
    congr_preparedDocument Document.fragmentTitles_addTypename, Placement.PartsKinds]

theorem leavesShared_preparedDocument (p : Placement) (g : Generation) :
    p.LeavesShared g.preparedDocument ↔ p.LeavesShared g.document := by
  rw [Placement.LeavesShared, preparedDocument_titles, Placement.LeavesShared]

theorem get?_builtin (h : Language.ofTarget? g.target = some l) :
    Emitters.builtin.get? g.target = some (Types.emitter l Overrides.none) := by
  cases htarget : g.target with
  | typescript =>
    rw [htarget] at h
    obtain rfl := Option.some.inj h
    rfl
  | flow =>
    rw [htarget] at h
    obtain rfl := Option.some.inj h
    rfl
  | json | swift | scala =>
    rw [htarget] at h
    cases h

theorem preparedDocument_isIdentifier (hread : ∀ f ∈ clients, f.IsRead)
    (hd : ClientFiles.assembled s clients = .ok g.document) :
    ∀ t ∈ g.preparedDocument.titles, IsIdentifier t.2 := by
  rw [preparedDocument_titles]
  exact fun t => Document.isIdentifier_of_mem_titles hread hd

/-- When modules have places of their own. For every schema, document assembled from files that were
read, and request for type declarations, with an extension that leads to no other directory: unless
everything goes to a single file, there is one file for each definition, with its module, and the
shared one behind them if it declares anything. Their places are different exactly if no operation
has the name and the directory of a fragment and no module stands where the shared one goes. Whenever
the generation ends well, the files that are wanted are delivered, with the operation ids behind
them. -/
theorem modules_apart_iff {r : Request} {d : Document} {files : List GeneratedFile}
    (schema : Schema) (w : World)
    (hl : Language.ofTarget? r.target = some l) (hread : ∀ f ∈ clients, f.IsRead)
    (hd : ClientFiles.assembled s clients = .ok d)
    (hext : ".." ∉ Text.split '/' (Placement.bareExtension l r.options))
    (h : Types.emit l Overrides.none ((r.generation d schema).emission w.cwd) = .ok files) :
    let g := r.generation d schema
    let e := g.emission w.cwd
    let p := Types.placement l e
    (p.bundle? ≠ none → files.length = 1) ∧
    (p.bundle? = none → ∃ ms written, Types.modules e.context e.document = .ok ms ∧
      ms.map ModuleShape.title = d.titles ∧
      List.Forall₂ (fun m f => Types.IsFileOf l e (Types.sharedPath l e ms) m f ∧
        Types.IsPlacedFor p m f) ms written ∧
      let shared := e.context.shared e.options.omitDeprecated ms
      (files = written ++ if shared.isEmpty then [] else [⟨Types.sharedPath l e ms,
        textOfLines ((Style.ofOptions l e.options).sharedLines shared), none⟩]) ∧
      ((files.map (GeneratedFile.place w.cwd)).Nodup ↔
        p.PartsKinds d ∧ (shared.isEmpty = false → p.LeavesShared d))) ∧
    ∀ refuses w' n, w.Standing → (g.run Emitters.builtin refuses).perform w = (.ok n, w') →
      ∃ ids, g.IdFile ids ∧ Delivered w w' (files.filter (isWanted w.cwd r.only) ++ ids) n ∧
        ((files.map (GeneratedFile.place w.cwd)).Nodup →
          (∀ i ∈ ids, i.place w.cwd ∉ files.map (GeneratedFile.place w.cwd)) →
          ((files.filter (isWanted w.cwd r.only) ++ ids).map (GeneratedFile.place w.cwd)).Nodup) := by
  intro g e p
  refine ⟨?_, ?_, ?_⟩
  · intro hb
    exact Types.length_of_bundle h hb
  · intro hb
    obtain ⟨ms, written, hms, htitles, hwritten, hfiles, hnodup⟩ :=
      Types.nodup_places_iff hb hext
        (preparedDocument_wellNamed (g := g) (ClientFiles.wellNamed_of_assembled hread hd))
        (preparedDocument_isIdentifier (g := g) hread hd) h
    refine ⟨ms, written, hms, ?_, hwritten, hfiles, ?_⟩
    · exact htitles.trans (preparedDocument_titles g)
    · exact hnodup.trans (and_congr (partsKinds_preparedDocument p g)
        (imp_congr_right fun _ => leavesShared_preparedDocument p g))
  · intro refuses w' n hw hrun
    obtain ⟨all, hall, hdelivered⟩ := delivered_of_run hw hrun
    obtain ⟨emitted, ids, hemitted, hids, rfl⟩ := exists_of_files (get?_builtin (g := g) hl) hall
    obtain rfl : files = emitted := Except.ok.inj (h.symm.trans hemitted)
    exact ⟨ids, hids, hdelivered, nodup_wanted_append hids⟩

/-- A file with an operation and a fragment of one name. -/
def clashWorld : World := ⟨⟨[(["p"], .dir), (["p", "src"], .dir), (["p", "src", "q.graphql"],
  .file (Text.encode "query A { ...A } fragment A on Query { a }"))]⟩, ["p"], []⟩

def clashSchema : Schema :=
  ⟨[plainType "Query" [("a", "String")], ⟨"String", none, .scalar⟩], some "Query", none, none, []⟩

def clashFile : ClientFile :=
  (ClientFile.read "gql" clashWorld.tree ["p", "src", "q.graphql"]).toOption.getD default

def clashDocument : Document :=
  (ClientFiles.assembled (some clashSchema) [clashFile]).toOption.getD default

def clashRequest : Request where
  target := .typescript
  output := none
  flat := false
  only := none
  options := { Options.standard with addTypename := false }
  schemaTag := none
  templateTag := defaultTag

def clash : Generation := clashRequest.generation clashDocument clashSchema

theorem standing_clashWorld : clashWorld.Standing where
  grounded := FileTree.Sound.grounded (by decide)
  cwd := by decide
  names := by decide

/-- Both go to one place. Two files are counted where one is left. -/
theorem modules_apart_iff_clash :
    Request.ofFlags { Flags.standard "typescript" with addTypename := false } = .ok clashRequest ∧
      clashFile.IsRead ∧
      ClientFiles.assembled (some clashSchema) [clashFile] = .ok clashDocument ∧
      ∃ files w', Types.emit .typescript Overrides.none (clash.emission clashWorld.cwd) = .ok files ∧
        ¬ (files.map (GeneratedFile.place clashWorld.cwd)).Nodup ∧
        (clash.run Emitters.builtin Refusals.none).perform clashWorld = (.ok 2, w') ∧
        2 ≠ (files.map (GeneratedFile.place clashWorld.cwd)).toFinset.card := by
  have hread : ClientFile.read "gql" clashWorld.tree ["p", "src", "q.graphql"] = .ok clashFile :=
    Outcome.eq_ok_of_isSome _ (by decide +kernel)
  have hd : ClientFiles.assembled (some clashSchema) [clashFile] = .ok clashDocument :=
    Outcome.eq_ok_of_isSome _ (by decide +kernel)
  have hread' : ∀ f ∈ [clashFile], f.IsRead := ClientFile.isRead_of_mem_singleton hread
  obtain ⟨files, hfiles⟩ : ∃ files,
      Types.emit .typescript Overrides.none (clash.emission clashWorld.cwd) = .ok files :=
    Outcome.exists_of_isSome (by decide +kernel)
  have hrun : ((clash.run Emitters.builtin Refusals.none).perform clashWorld).1 = .ok 2 := by
    decide +kernel
  obtain ⟨-, hapart, hdelivered⟩ := modules_apart_iff (r := clashRequest) clashSchema clashWorld
    (l := .typescript) rfl hread' hd (by decide) hfiles
  obtain ⟨ms, written, -, -, -, -, hnodup⟩ := hapart (by decide +kernel)
  obtain ⟨ids, hids, hdelivered, -⟩ :=
    hdelivered Refusals.none _ 2 standing_clashWorld (Prod.ext hrun rfl)
  obtain rfl : ids = [] := hids
  have hall : files.filter (isWanted clashWorld.cwd clashRequest.only) = files :=
    List.filter_eq_self.2 fun f _ => rfl
  rw [List.append_nil, hall] at hdelivered
  have hsame : ¬ (files.map (GeneratedFile.place clashWorld.cwd)).Nodup := by
    intro h
    have hmem : (some (Path.ofText "/p/src/q.graphql"), "A") ∈ clashDocument.operationTitles ∧
        (some (Path.ofText "/p/src/q.graphql"), "A") ∈ clashDocument.fragmentTitles := by
      decide +kernel
    exact (hnodup.1 h).1 _ hmem.1 _ hmem.2 rfl rfl
  exact ⟨by decide, hread' _ List.mem_cons_self, hd, files, _, hfiles, hsame, Prod.ext hrun rfl,
    mt hdelivered.places.1 hsame⟩
end Generation

end QueryTypes
