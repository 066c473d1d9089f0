import QueryTypes.Proofs.Output.Apart
import QueryTypes.Proofs.Output.Places
import QueryTypes.Proofs.Path.Reduced

/-!
# Modules beside their sources

Output beside sources is to stay in a directory of its own in the directory of each source. An
accepted output is a single segment, but it may be one that stays or leads up, and the extension is
not looked at. Main statement: the condition under which a module stays where it belongs.
-/

namespace QueryTypes

/-- A place in a directory that stands in another one. -/
def Location.InChildOf (home place : Location) : Prop := ∃ child name, place = home ++ [child, name]

/-- What is two directories below is no file of the directory above them. -/
theorem Location.InChildOf.ne_resolve {cwd home place : Location} (h : InChildOf home place)
    (hcwd : ∀ n ∈ cwd, n ≠ "..") {p : Path} (hp : Path.resolve cwd p.parent = home) :
    Path.resolve cwd p ≠ place := by
  rintro rfl
  obtain ⟨child, name, hplace⟩ := h
  have hlength := Path.length_resolve_le hcwd p
  rw [hp, hplace, List.length_append, List.length_cons, List.length_singleton] at hlength
  omega

namespace Placement

variable {p : Placement} {n : String}

/-- The way from the directory of a source to a module. -/
def way (p : Placement) (n : String) : List String := (Path.ofText p.output).segments ++ p.leaf n

theorem resolve_module_eq_climb (hcwd : ∀ n ∈ p.cwd, n ≠ "..") (hbeside : p.beside = true)
    (hout : (Path.ofText p.output).root = .here) (hn : IsIdentifier n) (s : Path) :
    Path.resolve p.cwd (p.module (some s) n) =
      FileTree.climb (Path.resolve p.cwd s.parent) (p.way n) := by
  obtain ⟨c, r, hr, hslash, -⟩ := p.head_fileName hn
  have hmodule : p.module (some s) n = (s.parent.child p.output).child (p.fileName n) := by
    unfold module
    rw [hbeside]
  rw [hmodule, Path.resolve_child_eq_climb hcwd (Path.rootOf_of_head hr hslash),
    Path.resolve_child_eq_climb hcwd hout, ← FileTree.climb_append]
  rfl

/-- An extension without a slash makes a single name. -/
theorem leaf_eq_fileName (hext : '/' ∉ p.extension.toList) (hn : IsIdentifier n) :
    p.leaf n = [p.fileName n] := by
  have hsplit : Text.split '/' p.extension = [p.extension] := by
    rw [Text.split, Text.splitOn_of_not_mem hext, List.map_singleton, String.ofList_toList]
  rw [leaf_eq hsplit hn]
  rfl

theorem fileName_ne_dots (hn : IsIdentifier n) : p.fileName n ≠ ".." := by
  obtain ⟨c, r, hr, -, hdot⟩ := p.head_fileName hn
  rintro heq
  rw [heq] at hr
  exact hdot (List.cons.inj hr).1.symm

/-- A module stays in a child exactly if its way leads up and down again through the same names, and
two names further. -/
theorem inChildOf_iff (home : Location) (ss : List String) :
    Location.InChildOf home (FileTree.climb home ss) ↔ ∃ child name,
      (Path.reduced ss).2 = home.drop (home.length - (Path.reduced ss).1) ++ [child, name] := by
  generalize hk : home.length - (Path.reduced ss).1 = k
  have hsplit : ∀ child name, home ++ [child, name] =
      home.take k ++ (home.drop k ++ [child, name]) := by
    intro child name
    rw [← List.append_assoc, List.take_append_drop]
  rw [Location.InChildOf, Path.climb_eq_reduced, hk]
  refine exists_congr fun child => exists_congr fun name => ?_
  rw [hsplit, List.append_cancel_left_eq]

end Placement

namespace Types

variable {l : Language} {e : Emission} {files : List GeneratedFile}

theorem map_source_path {ms : List ModuleShape} {written : List GeneratedFile}
    (h : List.Forall₂ (IsPlacedFor (placement l e)) ms written) :
    (ms.map ModuleShape.title).map (fun t => (t.1, (placement l e).module t.1 t.2)) =
      written.map fun f => (f.source, f.path) := by
  rw [List.map_map, ← List.forall₂_eq_eq_eq, List.forall₂_map_left_iff, List.forall₂_map_right_iff]
  exact h.imp fun m f hplaced => Prod.ext hplaced.2.symm hplaced.1.symm

/-- The files with a source are the modules of the definitions with that source. -/
theorem source_path_iff (hd : e.document.fragmentNames.Nodup)
    (h : emit l Overrides.none e = .ok files) (hbeside : e.beside = true) (s path : Path) :
    (∃ f ∈ files, f.source = some s ∧ f.path = path) ↔
      ∃ n, (some s, n) ∈ e.document.titles ∧ (placement l e).module (some s) n = path := by
  have hb : (placement l e).bundle? = none := by
    simp [Placement.bundle?, placement, hbeside]
  obtain ⟨ms, written, hms, hwritten, rfl⟩ := exists_placed_of_emit h hb
  have hmap := map_source_path (hwritten.imp fun _ _ hm => hm.2)
  rw [titles_of_modules rfl hd hms] at hmap
  constructor
  · rintro ⟨f, hf, hs, rfl⟩
    rcases List.mem_append.1 hf with hf | hf
    · have hmem := List.mem_map_of_mem (f := fun f => (f.source, f.path)) hf
      rw [← hmap, hs] at hmem
      obtain ⟨⟨source, n⟩, htitle, heq⟩ := List.mem_map.1 hmem
      obtain ⟨rfl, hpath⟩ := Prod.mk.inj heq
      exact ⟨n, htitle, hpath⟩
    · split at hf
      · exact absurd hf List.not_mem_nil
      · obtain rfl := List.mem_singleton.1 hf
        cases hs
  · rintro ⟨n, htitle, rfl⟩
    have hmem := List.mem_map_of_mem (f := fun t => (t.1, (placement l e).module t.1 t.2)) htitle
    rw [hmap] at hmem
    obtain ⟨f, hf, heq⟩ := List.mem_map.1 hmem
    exact ⟨f, List.mem_append_left _ hf, congrArg Prod.fst heq, congrArg Prod.snd heq⟩

end Types

namespace Placement

variable {p : Placement} {n : String} {home : Location}

/-- The places of modules whose extension has no slash, by the three kinds of outputs. -/
theorem climb_way
    (hout : (Path.ofText p.output).segments = if p.output = "." then [] else [p.output])
    (hext : '/' ∉ p.extension.toList) (hn : IsIdentifier n) :
    FileTree.climb home (p.way n) = (if p.output = "." then home
      else if p.output = ".." then home.dropLast else home ++ [p.output]) ++ [p.fileName n] := by
  rw [way, leaf_eq_fileName hext hn, hout, FileTree.climb_concat, if_neg (fileName_ne_dots hn)]
  split
  · rfl
  · rw [← List.nil_append [p.output], FileTree.climb_concat]
    rfl

theorem inChildOf_climb_way_iff
    (hout : (Path.ofText p.output).segments = if p.output = "." then [] else [p.output])
    (hext : '/' ∉ p.extension.toList) (hn : IsIdentifier n) :
    Location.InChildOf home (FileTree.climb home (p.way n)) ↔ p.output ≠ "." ∧ p.output ≠ ".." := by
  rw [climb_way hout hext hn]
  constructor
  · rintro ⟨child, name, hplace⟩
    have hlength := congrArg List.length hplace
    simp only [List.length_append, List.length_cons, List.length_nil] at hlength
    constructor
    · intro hdot
      rw [if_pos hdot] at hlength
      omega
    · intro hdots
      rw [if_neg (by rw [hdots]; decide), if_pos hdots, List.length_dropLast] at hlength
      omega
  · rintro ⟨hdot, hdots⟩
    refine ⟨p.output, p.fileName n, ?_⟩
    rw [if_neg hdot, if_neg hdots, List.append_assoc]
    rfl

end Placement

namespace Generation

open ShapeContext (plainType)

variable {flags : Flags} {r : Request} {l : Language} {d : Document} {clients : List ClientFile}
  {cwd : Location}

/-- Which modules stay in a directory of their own. For every accepted request for type declarations
beside their sources, and every document assembled from files that were read: the files with a
source are the modules of the definitions with that source. A module is in a child of the directory
of its source exactly if the way over the output and its name leads up and down again through the
same names and two names further; then it is over no file of that directory. With an extension that
has no slash this is so exactly for an output other than one and two dots; with these the module is
in the directory of its source, over whatever has its name there, or in the one above. -/
theorem stays_in_child_iff {found : Option Schema} (schema : Schema)
    (hr : Request.ofFlags flags = .ok r) (hl : Language.ofTarget? r.target = some l)
    (hflat : flags.flat = false) (hread : ∀ f ∈ clients, f.IsRead)
    (hd : ClientFiles.assembled found clients = .ok d) (hcwd : ∀ n ∈ cwd, n ≠ "..") :
    let p := Types.placement l ((r.generation d schema).emission cwd)
    (∀ files, Types.emit l Overrides.none ((r.generation d schema).emission cwd) = .ok files →
      ∀ s path, (∃ f ∈ files, f.source = some s ∧ f.path = path) ↔
        ∃ n, (some s, n) ∈ d.titles ∧ p.module (some s) n = path) ∧
    ∀ s n, (some s, n) ∈ d.titles →
      let home := Path.resolve cwd s.parent
      let place := Path.resolve cwd (p.module (some s) n)
      (home.InChildOf place ↔ ∃ child name, (Path.reduced (p.way n)).2 =
        home.drop (home.length - (Path.reduced (p.way n)).1) ++ [child, name]) ∧
      (home.InChildOf place →
        ∀ q : Path, Path.resolve cwd q.parent = home → Path.resolve cwd q ≠ place) ∧
      ('/' ∉ p.extension.toList →
        (home.InChildOf place ↔ r.outputPath ≠ "." ∧ r.outputPath ≠ "..") ∧
        place = (if r.outputPath = "." then home
          else if r.outputPath = ".." then home.dropLast else home ++ [r.outputPath]) ++
            [n ++ "." ++ p.extension]) := by
  intro p
  have hputs := Request.putsBeside_of_flags hr hl hflat
  have hbeside : r.besideSources = true := (Bool.and_eq_true_iff.1 hputs).2
  have htitles := preparedDocument_titles (r.generation d schema)
  constructor
  · intro files h s path
    have hwell := preparedDocument_wellNamed (g := r.generation d schema)
      (ClientFiles.wellNamed_of_assembled hread hd)
    have hfiles := Types.source_path_iff hwell.fragments h hbeside s path
    have hdocument : ((r.generation d schema).emission cwd).document.titles = d.titles := htitles
    rwa [hdocument] at hfiles
  · intro s n htitle home place
    have hn : IsIdentifier n := Document.isIdentifier_of_mem_titles hread hd htitle
    have hplace : place = FileTree.climb home (p.way n) :=
      Placement.resolve_module_eq_climb (p := p) hcwd hbeside (Request.root_outputPath hr hputs) hn
        s
    have hout := Request.segments_outputPath hr hputs
    refine ⟨?_, fun hchild q hq => hchild.ne_resolve hcwd hq, fun hext => ⟨?_, ?_⟩⟩
    · rw [hplace]
      exact Placement.inChildOf_iff home (p.way n)
    · rw [hplace]
      exact Placement.inChildOf_climb_way_iff (p := p) hout hext hn
    · rw [hplace]
      exact Placement.climb_way (p := p) hout hext hn

/-- A script with a query of its own name. -/
def scriptWorld : World := ⟨⟨[(["p"], .dir), (["p", "src"], .dir), (["p", "src", "Q.ts"],
  .file (Text.encode "gql`query Q { a }`"))]⟩, ["p"], []⟩

def scriptFile : ClientFile :=
  (ClientFile.read "gql" scriptWorld.tree ["p", "src", "Q.ts"]).toOption.getD default

def scriptDocument : Document :=
  (ClientFiles.assembled (some clashSchema) [scriptFile]).toOption.getD default

def dotRequest : Request where
  target := .typescript
  output := some "."
  flat := false
  only := none
  options := { Options.standard with addTypename := false }
  schemaTag := none
  templateTag := defaultTag

/-- With a dot for the output the module goes over the script it was made from. -/
theorem stays_in_child_iff_over_source :
    let g := dotRequest.generation scriptDocument clashSchema
    let source := Path.ofText "/p/src/Q.ts"
    let p := Types.placement .typescript (g.emission scriptWorld.cwd)
    let module := p.module (some source) "Q"
    Request.ofFlags { Flags.standard "typescript" with output := some ".", addTypename := false } =
        .ok dotRequest ∧
      scriptFile.IsRead ∧
      ClientFiles.assembled (some clashSchema) [scriptFile] = .ok scriptDocument ∧
      ∃ files, Types.emit .typescript Overrides.none (g.emission scriptWorld.cwd) = .ok files ∧
        (∃ f ∈ files, f.source = some source ∧ f.path = module) ∧
        ¬ Location.InChildOf (Path.resolve scriptWorld.cwd source.parent)
          (Path.resolve scriptWorld.cwd module) ∧
        Path.resolve scriptWorld.cwd module = Path.resolve scriptWorld.cwd source := by
  intro g source p module
  have hflags : Request.ofFlags { Flags.standard "typescript" with
      output := some ".", addTypename := false } = .ok dotRequest := by
    simp only [Request.ofFlags, String.contains_char_eq]
    decide
  have hread : ClientFile.read "gql" scriptWorld.tree ["p", "src", "Q.ts"] = .ok scriptFile :=
    Outcome.eq_ok_of_isSome _ (by decide +kernel)
  have hd : ClientFiles.assembled (some clashSchema) [scriptFile] = .ok scriptDocument :=
    Outcome.eq_ok_of_isSome _ (by decide +kernel)
  have hread' : ∀ f ∈ [scriptFile], f.IsRead := ClientFile.isRead_of_mem_singleton hread
  have htitle : (some source, "Q") ∈ scriptDocument.titles := by
    decide +kernel
  obtain ⟨files, hfiles⟩ : ∃ files,
      Types.emit .typescript Overrides.none (g.emission scriptWorld.cwd) = .ok files :=
    Outcome.exists_of_isSome (by decide +kernel)
  have hcwd : ∀ n ∈ scriptWorld.cwd, n ≠ ".." := by decide
  obtain ⟨hsources, hplaces⟩ :=
    stays_in_child_iff (l := .typescript) clashSchema hflags rfl rfl hread' hd hcwd
  obtain ⟨-, -, hdots⟩ := hplaces source "Q" htitle
  obtain ⟨hchild, hplace⟩ := hdots (by decide)
  refine ⟨hflags, hread' _ List.mem_cons_self, hd, files, hfiles, ?_, ?_, ?_⟩
  · exact (hsources files hfiles source module).2 ⟨"Q", htitle, rfl⟩
  · exact fun hin => (hchild.1 hin).1 rfl
  · exact hplace.trans (by decide)

end Generation
end QueryTypes
