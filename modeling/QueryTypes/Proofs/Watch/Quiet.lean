import QueryTypes.Proofs.Output.Apart
import QueryTypes.Proofs.Output.Bundle
import QueryTypes.Proofs.Output.Places
import QueryTypes.Proofs.Watch.Markers
import QueryTypes.Watch.Subscription

/-!
# Generated files and further generations

A change of a generated file is not to lead to a generation. The files that go where the output says
have the text of the output in their places, and are left alone for it. A file with a path of its own
need not have it.
-/

namespace QueryTypes

namespace Placement

variable {p : Placement}

theorem leads_folder (hp : (Path.ofText p.output).IsPlain) (s : Option Path) :
    (Path.ofText p.output).Leads (p.folder s) [] := by
  unfold folder base
  split
  · exact Path.leads_resolve_child hp
  · exact Path.leads_resolve hp

theorem leads_sharedFolder (hp : (Path.ofText p.output).IsPlain) (sources : List Path) :
    (Path.ofText p.output).Leads (p.sharedFolder sources) [] := by
  rw [sharedFolder]
  split
  · exact Path.leads_resolve_child hp
  · exact Path.leads_resolve hp

theorem leads_shared (hp : (Path.ofText p.output).IsPlain)
    (hext : ".." ∉ Text.split '/' p.extension) (hfile : given p.sharedFile = none)
    (sources : List Path) :
    (Path.ofText p.output).Leads (Path.resolve p.cwd (p.shared sources)) (p.leaf "globalTypes") := by
  rw [resolve_shared hfile hext]
  exact (leads_sharedFolder hp sources).append _

theorem leaf_ne_nil {n : String} (hn : IsIdentifier n) : p.leaf n ≠ [] := by
  obtain ⟨first, more, hext⟩ := Text.exists_split '/' p.extension
  rw [leaf_eq hext hn]
  exact List.cons_ne_nil _ _

end Placement

namespace Types

variable {l : Language} {e : Emission} {files : List GeneratedFile} {f : GeneratedFile}

theorem leads_of_bundle {path : Path} (hb : (placement l e).bundle? = some path)
    (hp : (Path.ofText e.output).IsPlain) : (Path.ofText e.output).Leads (Path.resolve e.cwd path) [] := by
  unfold Placement.bundle? at hb
  split at hb
  · obtain rfl := Option.some.inj hb
    exact Path.leads_resolve hp
  · cases hb

/-- Each file goes where the output leads, apart from the shared types with a path of their own. -/
theorem own_or_leads_of_emit (h : emit l Overrides.none e = .ok files)
    (hp : (Path.ofText e.output).IsPlain)
    (hext : ".." ∉ Text.split '/' (Placement.bareExtension l e.options))
    (hd : e.document.WellNamed) (hwords : ∀ t ∈ e.document.titles, IsIdentifier t.2) (hf : f ∈ files) :
    (∃ q, given e.options.sharedTypesFile = some q ∧ f.path = Path.ofText q) ∨
      ∃ rest, (Path.ofText e.output).Leads (f.place e.cwd) rest ∧
        ((placement l e).bundle? = none → rest ≠ []) := by
  cases hb : (placement l e).bundle? with
  | some path =>
    obtain ⟨ms, -, rfl⟩ := exists_of_emit_bundle h hb
    obtain rfl := List.mem_singleton.1 hf
    exact .inr ⟨[], leads_of_bundle hb hp, fun h => by cases h⟩
  | none =>
    obtain ⟨ms, written, hms, hwritten, rfl⟩ := exists_placed_of_emit h hb
    have htitles := titles_of_modules rfl hd.fragments hms
    have hnames : ∀ m ∈ ms, IsIdentifier m.name := fun m hm =>
      hwords m.title (htitles ▸ List.mem_map_of_mem hm)
    rcases List.mem_append.1 hf with hf | hf
    · have hplace := List.mem_map_of_mem (f := GeneratedFile.place e.cwd) hf
      rw [map_place_eq hext hnames (hwritten.imp fun _ _ h => h.2)] at hplace
      obtain ⟨m, hm, hplace⟩ := List.mem_map.1 hplace
      rw [← hplace]
      exact .inr ⟨_, (Placement.leads_folder (p := placement l e) hp _).append _,
        fun _ => Placement.leaf_ne_nil (hnames m hm)⟩
    · split at hf
      · exact absurd hf List.not_mem_nil
      · obtain rfl := List.mem_singleton.1 hf
        cases hfile : given e.options.sharedTypesFile with
        | some q => exact .inl ⟨q, rfl, by rw [sharedPath, Placement.shared]; simp [placement, hfile]⟩
        | none =>
          have hleads := Placement.leads_shared (p := placement l e) hp hext hfile
            (ms.filterMap fun m => m.file.map Path.ofText)
          exact .inr ⟨_, hleads, fun _ => Placement.leaf_ne_nil Placement.isIdentifier_globalTypes⟩

end Types

/-! ### Outputs whose text marks what is put there -/

namespace Request

/-- The output stands for a directory, for each document. -/
def FillsDirectory (r : Request) : Prop :=
  ∃ l, Language.ofTarget? r.target = some l ∧
    ∀ d s cwd, (Types.placement l ((r.generation d s).emission cwd)).bundle? = none

/-- The text of the output is that of a path with names, none of which leads up; a directory may end
in a slash. -/
structure SpellsOutput (r : Request) : Prop where
  path : (Path.ofText r.outputPath).IsPlain
  text : (Path.ofText r.outputPath).text = r.outputPath ∨
    (Path.ofText r.outputPath).text ++ "/" = r.outputPath ∧ r.FillsDirectory

/-- The output leads to itself, and so does the extension. Next to sources any name will do. -/
structure IsPlain (r : Request) : Prop where
  moves : r.outputPath ≠ "." ∧ r.outputPath ≠ ".."
  spelled : r.PutsBeside = false → r.SpellsOutput
  extension : ∀ l, Language.ofTarget? r.target = some l →
    ".." ∉ Text.split '/' (Placement.bareExtension l r.options)

/-- The paths that are given for single files. -/
def ownPaths (r : Request) : List Path :=
  ([r.options.sharedTypesFile, r.options.operationIdsPath].filterMap given).map Path.ofText

variable {flags : Flags} {r : Request}

theorem mem_ownPaths {p : Path} : p ∈ r.ownPaths ↔ ∃ q, (given r.options.sharedTypesFile = some q ∨
    given r.options.operationIdsPath = some q) ∧ p = Path.ofText q := by
  simp only [ownPaths, List.mem_map, List.mem_filterMap, List.mem_cons, List.not_mem_nil, or_false,
    exists_eq_or_imp, exists_eq_left, eq_comm]

/-- A single name is a path with itself as its text. -/
theorem spellsOutput_of_putsBeside (hr : Request.ofFlags flags = .ok r) (hbeside : r.PutsBeside = true)
    (hmoves : r.outputPath ≠ "." ∧ r.outputPath ≠ "..") : r.SpellsOutput := by
  have hsegments := segments_outputPath hr hbeside
  rw [if_neg hmoves.1] at hsegments
  have hroot := root_outputPath hr hbeside
  refine ⟨⟨?_, ?_, ?_⟩, .inl ?_⟩
  · rw [hroot]
    decide
  · rw [hsegments]
    exact List.cons_ne_nil _ _
  · rw [hsegments, List.mem_singleton]
    exact hmoves.2.symm
  · rw [Path.text, if_neg (by simp [hsegments]), hroot, hsegments]
    simp [Path.PathRoot.text, Text.joinWith]

theorem IsPlain.spellsOutput (hr : Request.ofFlags flags = .ok r) (h : r.IsPlain) : r.SpellsOutput := by
  cases hbeside : r.PutsBeside with
  | true => exact spellsOutput_of_putsBeside hr hbeside h.moves
  | false => exact h.spelled hbeside

end Request

/-- What is watched, besides what a request says. -/
structure Watched where
  patterns : List String
  excludes : List String
  terminal : Bool
  root : Location

namespace Watched

def state (v : Watched) (r : Request) : WatchState := WatchState.ofRequest r v.patterns v.terminal

/-- A change of the place, reported by its absolute path, is of interest. -/
def Delivers (v : Watched) (r : Request) (cwd : Location) (kind : String) (l : Location) : Prop :=
  (Subscription.ofState (v.state r) v.excludes v.root).accepts cwd ⟨kind, Location.text l⟩ = true

/-- A change of the place is of interest and leads to a generation. -/
def Regenerates (v : Watched) (r : Request) (cwd : Location) (kind : String) (l : Location) : Prop :=
  v.Delivers r cwd kind l ∧ (v.state r).triggers (Location.text l) = true

end Watched

theorem Request.SpellsOutput.triggers_eq_false {r : Request} (h : r.SpellsOutput) (v : Watched)
    {l rest : Location} (hleads : (Path.ofText r.outputPath).Leads l rest)
    (hrest : r.FillsDirectory → rest ≠ []) : (v.state r).triggers (Location.text l) = false := by
  rw [← Bool.not_eq_true, WatchState.triggers_eq_true_iff]
  intro hfree
  refine hfree _ (WatchState.outputPath_mem_markers r v.patterns v.terminal) ?_
  rcases h.text with htext | ⟨htext, hfills⟩
  · rw [← htext]
    exact hleads.text_infix h.path
  · rw [← htext]
    exact hleads.text_slash_infix h.path (hrest hfills)

namespace Generation

open ShapeContext (plainType)

variable {r : Request} {flags : Flags} {d : Document} {schema : Schema} {s : Option Schema}
  {clients : List ClientFile} {cwd : Location} {files : List GeneratedFile} {f : GeneratedFile}

theorem exists_of_mem_idFile {g : Generation} {ids : List GeneratedFile} (h : g.IdFile ids)
    (hf : f ∈ ids) : ∃ q, given g.options.operationIdsPath = some q ∧ f.path = Path.ofText q := by
  unfold IdFile at h
  split at h
  · rename_i q hq _
    obtain ⟨v, -, rfl⟩ := h
    obtain rfl := List.mem_singleton.1 hf
    exact ⟨q, hq, rfl⟩
  · rw [h] at hf
    cases hf

theorem ofTarget?_or_json_of_files {g : Generation} (h : g.files Emitters.builtin cwd = .ok files) :
    (∃ l, Language.ofTarget? g.target = some l) ∨ g.target = .json := by
  have hinstalled : ∀ t, g.target = t → Emitters.builtin.get? t ≠ none := by
    rintro t rfl hget
    unfold Generation.files at h
    rw [hget] at h
    cases h
  cases htarget : g.target with
  | typescript => exact .inl ⟨_, rfl⟩
  | flow => exact .inl ⟨_, rfl⟩
  | json => exact .inr rfl
  | swift | scala => exact absurd rfl (hinstalled _ htarget)

/-- Each file that is emitted goes where the output leads, apart from the shared types with a path of
their own. -/
theorem own_or_leads_of_files (hread : ∀ f ∈ clients, f.IsRead)
    (hd : ClientFiles.assembled s clients = .ok d) (hplain : r.IsPlain)
    (hp : (Path.ofText r.outputPath).IsPlain)
    (h : (r.generation d schema).files Emitters.builtin cwd = .ok files) :
    ∃ emitted ids, (r.generation d schema).IdFile ids ∧ files = emitted ++ ids ∧ ∀ f ∈ emitted,
      (∃ q, given r.options.sharedTypesFile = some q ∧ f.path = Path.ofText q) ∨
        ∃ rest, (Path.ofText r.outputPath).Leads (f.place cwd) rest ∧ (r.FillsDirectory → rest ≠ []) := by
  let g := r.generation d schema
  rcases ofTarget?_or_json_of_files h with ⟨l, hl⟩ | hjson
  · obtain ⟨emitted, ids, hemitted, hids, rfl⟩ := exists_of_files (get?_builtin (g := g) hl) h
    refine ⟨_, ids, hids, rfl, fun f hf => ?_⟩
    refine (Types.own_or_leads_of_emit hemitted hp (hplain.extension l hl)
      (preparedDocument_wellNamed (g := g) (ClientFiles.wellNamed_of_assembled hread hd))
      (preparedDocument_isIdentifier (g := g) hread hd) (List.mem_filter.1 hf).1).imp_right ?_
    rintro ⟨rest, hleads, hrest⟩
    refine ⟨rest, hleads, ?_⟩
    rintro ⟨l', hl', hfills⟩
    obtain rfl := Option.some.inj (hl.symm.trans hl')
    exact hrest (hfills _ _ _)
  · have hget : Emitters.builtin.get? g.target = some Manifest.emitter := by
      rw [hjson]
      rfl
    obtain ⟨emitted, ids, hemitted, hids, rfl⟩ := exists_of_files hget h
    refine ⟨_, ids, hids, rfl, fun f hf => ?_⟩
    obtain ⟨v, -, hemitted⟩ := Outcome.bind_eq_ok_iff.1 hemitted
    obtain rfl := Except.ok.inj hemitted
    obtain rfl := List.mem_singleton.1 (List.mem_filter.1 hf).1
    refine .inr ⟨[], Path.leads_resolve hp, ?_⟩
    -- a manifest is a single file
    rintro ⟨l, hl, -⟩
    change Language.ofTarget? g.target = some l at hl
    rw [hjson] at hl
    cases hl

/-- Each file goes where the output leads, apart from those with a path of their own. -/
theorem mem_ownPaths_or_leads (hread : ∀ f ∈ clients, f.IsRead)
    (hd : ClientFiles.assembled s clients = .ok d) (hplain : r.IsPlain)
    (hp : (Path.ofText r.outputPath).IsPlain)
    (h : (r.generation d schema).files Emitters.builtin cwd = .ok files) (hf : f ∈ files) :
    f.path ∈ r.ownPaths ∨ ∃ rest, (Path.ofText r.outputPath).Leads (f.place cwd) rest ∧
      (r.FillsDirectory → rest ≠ []) := by
  obtain ⟨emitted, ids, hids, rfl, hemitted⟩ := own_or_leads_of_files hread hd hplain hp h
  rcases List.mem_append.1 hf with hf | hf
  · refine (hemitted f hf).imp_left ?_
    rintro ⟨q, hq, hpath⟩
    exact Request.mem_ownPaths.2 ⟨q, .inl hq, hpath⟩
  · obtain ⟨q, hq, hpath⟩ := exists_of_mem_idFile hids hf
    exact .inl (Request.mem_ownPaths.2 ⟨q, .inr hq, hpath⟩)

/-- Which generated files lead to a further generation. For every request that is accepted, whose
output is spelled as it is found in places, and every document assembled from files that were read:
the change of a file that is generated leads to a generation exactly if the file has a path of its
own, given for the shared types or for the operation ids, which is of interest and has neither the
name of the directory for generated files nor the output anywhere in its text. -/
theorem regenerates_iff (v : Watched) (kind : String) (hr : Request.ofFlags flags = .ok r)
    (hplain : r.IsPlain) (hread : ∀ f ∈ clients, f.IsRead)
    (hd : ClientFiles.assembled s clients = .ok d)
    (h : (r.generation d schema).files Emitters.builtin cwd = .ok files) (hf : f ∈ files) :
    v.Regenerates r cwd kind (f.place cwd) ↔
      f.path ∈ r.ownPaths ∧ v.Delivers r cwd kind (f.place cwd) ∧
        ∀ m ∈ generatedDirectory :: r.output.toList,
          ¬ m.toList <:+: (Location.text (f.place cwd)).toList := by
  have hspelled := hplain.spellsOutput hr
  have hmarkers : (v.state r).triggers (Location.text (f.place cwd)) = true ↔
      ∀ m ∈ generatedDirectory :: r.output.toList,
        ¬ m.toList <:+: (Location.text (f.place cwd)).toList := by
    rw [WatchState.triggers_eq_true_iff]
    refine forall_congr' fun m => imp_congr ?_ Iff.rfl
    rw [List.mem_cons, Option.mem_toList]
    exact WatchState.mem_markers_ofRequest
  rw [Watched.Regenerates, hmarkers]
  constructor
  · rintro ⟨hdelivers, hfree⟩
    refine ⟨?_, hdelivers, hfree⟩
    rcases mem_ownPaths_or_leads hread hd hplain hspelled.path h hf with hown | ⟨rest, hleads, hrest⟩
    · exact hown
    · have hquiet := hspelled.triggers_eq_false v hleads hrest
      rw [hmarkers.2 hfree] at hquiet
      cases hquiet
  · rintro ⟨-, hdelivers, hfree⟩
    exact ⟨hdelivers, hfree⟩

/-- A file with a query for a color. -/
def colorWorld : World := ⟨⟨[(["p"], .dir), (["p", "src"], .dir), (["p", "src", "q.graphql"],
  .file (Text.encode "query Q { a }"))]⟩, ["p"], []⟩

def colorSchema : Schema :=
  ⟨[plainType "Query" [("a", "Color")], ⟨"Color", none, .enum [⟨"RED", none, none⟩]⟩], some "Query",
    none, none, []⟩

def colorFile : ClientFile :=
  (ClientFile.read "gql" colorWorld.tree ["p", "src", "q.graphql"]).toOption.getD default

def colorDocument : Document :=
  (ClientFiles.assembled (some colorSchema) [colorFile]).toOption.getD default

/-- The shared types go among the sources. -/
def colorFlags : Flags :=
  { Flags.standard "typescript" with
    addTypename := false, sharedTypesFile := some "src/globalTypes.ts" }

def colorRequest : Request where
  target := .typescript
  output := none
  flat := false
  only := none
  options := Options.ofFlags colorFlags
  schemaTag := none
  templateTag := defaultTag

def colorWatched : Watched where
  patterns := ["src/**/*.\x7bts,tsx,js,jsx,graphql,gql\x7d"]
  excludes := ["**/node_modules", "**/__tests__"]
  terminal := false
  root := ["p"]

theorem isPlain_colorRequest : colorRequest.IsPlain where
  moves := by decide
  spelled := fun h => absurd h (by decide)
  extension := by
    intro l hl
    obtain rfl := Option.some.inj hl
    decide

/-- The shared types lead to a generation, which writes them again. -/
theorem regenerates_iff_color :
    Request.ofFlags colorFlags = .ok colorRequest ∧ colorFile.IsRead ∧
      ClientFiles.assembled (some colorSchema) [colorFile] = .ok colorDocument ∧
      ∃ files, (colorRequest.generation colorDocument colorSchema).files Emitters.builtin ["p"] =
          .ok files ∧
        ∃ f ∈ files, f.path = Path.ofText "src/globalTypes.ts" ∧
          colorWatched.Regenerates colorRequest ["p"] "change" (f.place ["p"]) := by
  have hread : ClientFile.read "gql" colorWorld.tree ["p", "src", "q.graphql"] = .ok colorFile :=
    Outcome.eq_ok_of_isSome _ (by decide +kernel)
  have hd : ClientFiles.assembled (some colorSchema) [colorFile] = .ok colorDocument :=
    Outcome.eq_ok_of_isSome _ (by decide +kernel)
  have hread' : ∀ f ∈ [colorFile], f.IsRead := ClientFile.isRead_of_mem_singleton hread
  have hr : Request.ofFlags colorFlags = .ok colorRequest := by decide
  have hseen : ((colorRequest.generation colorDocument colorSchema).files Emitters.builtin
      ["p"]).toOption.map (List.map GeneratedFile.path) =
        some [Path.ofText "/p/src/__generated__/Q.ts", Path.ofText "src/globalTypes.ts"] := by
    decide +kernel
  obtain ⟨files, hfiles⟩ : ∃ files,
      (colorRequest.generation colorDocument colorSchema).files Emitters.builtin ["p"] = .ok files :=
    Outcome.exists_of_isSome (by decide +kernel)
  rw [hfiles, Except.toOption, Option.map_some] at hseen
  have hmem : Path.ofText "src/globalTypes.ts" ∈ files.map GeneratedFile.path := by
    rw [Option.some.inj hseen]
    exact List.mem_cons_of_mem _ List.mem_cons_self
  obtain ⟨f, hf, hpath⟩ := List.mem_map.1 hmem
  refine ⟨hr, hread' _ List.mem_cons_self, hd, files, hfiles, f, hf, hpath, ?_⟩
  have hplace : f.place ["p"] = ["p", "src", "globalTypes.ts"] := by
    rw [GeneratedFile.place, hpath]
    decide
  refine (regenerates_iff colorWatched "change" hr isPlain_colorRequest hread' hd hfiles hf).2 ⟨?_, ?_, ?_⟩
  · rw [hpath]
    decide
  · rw [hplace]
    unfold Watched.Delivers
    decide +kernel
  · rw [hplace]
    decide

end Generation
end QueryTypes
