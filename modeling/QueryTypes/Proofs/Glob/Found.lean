import Mathlib.Data.List.Basic
import QueryTypes.Proofs.Glob.Expansion
import QueryTypes.Proofs.Glob.Files
import QueryTypes.Proofs.Outcome

/-!
# Files found along any pattern

A walk drops empty segments and `.` from a pattern, finds nothing but directories when the pattern
ends in a slash or in `**`, and writes `..` into what it finds. So it finds the files that a plain
pattern matches, the pattern as it is walked, which need not match the same paths as the pattern
itself.
-/

namespace QueryTypes

theorem FileTree.isFile_eq_false_of_isDir {t : FileTree} {l : Location} (h : t.isDir l = true) :
    t.isFile l = false := by
  unfold FileTree.isDir at h
  split at h
  · rename_i hnode
    simp [FileTree.isFile, hnode]
  · simp at h

namespace Glob

variable {t : FileTree} {base : Location}

/-- The first step of a walk, and where it goes on. -/
theorem exists_of_mem_walk_cons (ht : t.Sound) {seg : String} {rest : List Step}
    {at_ p : List String} (hp : p ∈ walk t base (step seg :: rest) at_) :
    ∃ d, p ∈ walk t base rest (at_ ++ d) ∧
      (seg = doubleStar ∧ (d ≠ [] → t.isDir (Path.collapse (base ++ at_) ++ d) = true) ∨
        seg ≠ doubleStar ∧ ∃ n, d = [n] ∧ (IsName n ∨ n = seg) ∧ (seg = ".." → n = "..") ∧
          usable t rest (Path.collapse (base ++ (at_ ++ [n]))) = true) := by
  by_cases hd : seg = doubleStar
  · have hs : step seg = .dirs := by simp [step, hd, doubleStar]
    rw [hs, walk] at hp
    obtain ⟨d, hmem, hp⟩ := List.mem_flatMap.1 hp
    exact ⟨d, hp, .inl ⟨hd, fun hne => (FileTree.mem_dirsBelow_iff ht hne).1 hmem⟩⟩
  · have hstars : seg ≠ "**" := hd
    by_cases hw : isWild seg = true
    · have hs : step seg = .wild seg := by simp [step, hstars, hw]
      rw [hs, walk] at hp
      obtain ⟨n, hmem, hp⟩ := List.mem_flatMap.1 hp
      obtain ⟨hmem, hn⟩ := List.mem_filter.1 hmem
      rw [Bool.and_eq_true] at hn
      have hname := ht.isName ((FileTree.mem_children_iff ht).1 hmem) n (by simp)
      refine ⟨[n], hp, .inr ⟨hd, n, rfl, .inl hname, ?_, hn.2⟩⟩
      rintro rfl
      exact absurd hw (by decide)
    · have hs : step seg = .name seg := by simp [step, hstars, hw]
      rw [hs, walk] at hp
      change p ∈ (if usable t rest (Path.collapse (base ++ (at_ ++ [seg]))) = true then
        walk t base rest (at_ ++ [seg]) else []) at hp
      split at hp
      · rename_i hu
        exact ⟨[seg], hp, .inr ⟨hd, seg, rfl, .inr rfl, id, hu⟩⟩
      · simp at hp

/-- What a walk finds is spelled by names of the tree and by segments, each `..` among them. -/
theorem exists_of_mem_walk (ht : t.Sound) {segs : List String} {last : List Step}
    (hlast : last = [] ∨ last = [.stop]) {at_ p : List String}
    (hp : p ∈ walk t base (segs.map step ++ last) at_) :
    ∃ d, p = at_ ++ d ∧ (∀ n ∈ d, IsName n ∨ n ∈ segs) ∧ (".." ∈ segs → ".." ∈ d) := by
  induction segs generalizing at_ with
  | nil =>
    refine ⟨[], ?_, by simp, by simp⟩
    rcases hlast with rfl | rfl <;> simpa [walk] using hp
  | cons seg segs ih =>
    obtain ⟨d, hp, hstep⟩ := exists_of_mem_walk_cons ht hp
    obtain ⟨d', rfl, hnames, hdots⟩ := ih hp
    refine ⟨d ++ d', by simp, ?_, ?_⟩
    · intro n hn
      rcases List.mem_append.1 hn with hn | hn
      · rcases hstep with ⟨-, hdir⟩ | ⟨-, m, rfl, hm, -⟩
        · have hhas := FileTree.has_of_isDir (hdir (List.ne_nil_of_mem hn))
          exact .inl (ht.isName hhas n (List.mem_append_right _ hn))
        · obtain rfl := List.mem_singleton.1 hn
          exact hm.imp_right fun hseg => by simp [hseg]
      · exact (hnames n hn).imp_right (List.mem_cons_of_mem seg)
    · intro hmem
      rcases List.mem_cons.1 hmem with rfl | hmem
      · rcases hstep with ⟨hd, -⟩ | ⟨-, m, rfl, -, hm, -⟩
        · exact absurd hd (by decide)
        · simp [hm rfl]
      · exact List.mem_append_right _ (hdots hmem)

/-- Along a pattern that ends in a slash or in `**` only directories are found. -/
theorem isDir_of_mem_walk (ht : t.Sound) {segs : List String} {last : List Step}
    (hlast : last = [.stop] ∨ last = [] ∧ segs.getLast? = some doubleStar) {at_ p : List String}
    (hat : t.isDir (Path.collapse (base ++ at_)) = true)
    (hp : p ∈ walk t base (segs.map step ++ last) at_) :
    t.isDir (Path.collapse (base ++ p)) = true := by
  induction segs generalizing at_ with
  | nil =>
    rcases hlast with rfl | ⟨-, hnone⟩
    · obtain rfl : p = at_ := by simpa [walk] using hp
      exact hat
    · simp at hnone
  | cons seg segs ih =>
    obtain ⟨d, hp, hstep⟩ := exists_of_mem_walk_cons ht hp
    -- wherever more is to follow, a walk goes on in directories only
    have hat' : segs.map step ++ last ≠ [] ∨ seg = doubleStar →
        t.isDir (Path.collapse (base ++ (at_ ++ d))) = true := by
      intro h
      rcases hstep with ⟨-, hdir⟩ | ⟨hd, n, rfl, -, -, hu⟩
      · by_cases hne : d = []
        · simpa [hne] using hat
        · have hnames := ht.isName (FileTree.has_of_isDir (hdir hne))
          rw [← List.append_assoc, Path.collapse_append _ fun n hn =>
            (hnames n (List.mem_append_right _ hn)).ne_dots]
          exact hdir hne
      · have hne := h.resolve_right hd
        rw [usable, if_neg (by simpa using hne)] at hu
        exact hu
    by_cases hsegs : segs = []
    · subst hsegs
      rcases hlast with rfl | ⟨rfl, hd⟩
      · exact ih (.inl rfl) (hat' (.inl (by simp))) hp
      · obtain rfl : p = at_ ++ d := by simpa [walk] using hp
        exact hat' (.inr (by simpa using hd))
    · refine ih (hlast.imp_right fun h => ⟨h.1, ?_⟩) (hat' (.inl (by simp [hsegs]))) hp
      rw [← h.2, List.getLast?_cons_of_ne_nil hsegs]

/-- A pattern as it is walked: the plain pattern of its segments, when it leads to files. -/
def plain? (pattern : String) : Option String :=
  let segs := (Path.ofText pattern).segments
  if Leads segs ∧ pattern.toList.getLast? ≠ some '/' then some (Text.joinWith "/" segs) else none

theorem plain?_of_isPlain {pattern : String} (hp : IsPlain pattern) :
    plain? pattern = some pattern := by
  have hpath := ofText_of_segments hp.head_ne_slash fun seg hseg =>
    ⟨(hp.segment seg hseg).ne_empty, (hp.segment seg hseg).ne_dot⟩
  have hjoin : Text.joinWith "/" (Text.split '/' pattern) = pattern := by
    rw [← String.toList_inj, Text.toList_joinWith]
    exact text_split pattern
  rw [plain?, hpath, if_pos ⟨hp, hp.last_ne_slash⟩, hjoin]

theorem split_of_plain? {pattern p : String} (h : plain? pattern = some p) :
    Leads (Path.ofText pattern).segments ∧ pattern.toList.getLast? ≠ some '/' ∧
      Text.split '/' p = (Path.ofText pattern).segments := by
  unfold plain? at h
  dsimp only at h
  split at h
  · rename_i hleads
    obtain rfl := Option.some.inj h
    exact ⟨hleads.1, hleads.2, Text.split_joinWith hleads.1.ne_nil fun seg hseg =>
      (hleads.1.segment seg hseg).no_slash⟩
  · simp at h

theorem isPlain_of_plain? {pattern p : String} (h : plain? pattern = some p) : IsPlain p := by
  obtain ⟨hleads, -, hsplit⟩ := split_of_plain? h
  rwa [IsPlain, hsplit]

theorem steps_eq_ok {pattern : String} {ss : List Step} (h : steps pattern = .ok ss) :
    ss = (Path.ofText pattern).segments.map step ++
      (if pattern.toList.getLast? = some '/' then [.stop] else []) ∧
    ((Path.ofText pattern).segments = [] → pattern.toList.getLast? = some '/') ∧
    ∀ seg ∈ (Path.ofText pattern).segments, seg = doubleStar ∨ hasStars seg = false := by
  unfold steps at h
  generalize hlast : (if pattern.toList.getLast? = some '/' then [Step.stop] else []) = last at h ⊢
  split at h
  · simp at h
  · dsimp only at h
    split at h
    · simp at h
    · split at h
      · simp at h
      · rename_i hsegs
        split at h
        · simp at h
        · rename_i hstars
          refine ⟨(Except.ok.inj h).symm, ?_, ?_⟩
          · intro hnil
            by_contra hslash
            rw [if_neg hslash] at hlast
            simp [hnil, ← hlast] at hsegs
          · intro seg hseg
            by_contra hbad
            rw [not_or] at hbad
            apply hstars
            rw [List.any_eq_true]
            exact ⟨seg, hseg, by simpa [doubleStar] using hbad⟩

theorem stop_or_nil (b : Prop) [Decidable b] :
    (if b then [Step.stop] else []) = [] ∨ (if b then [Step.stop] else []) = [.stop] := by
  split
  · exact .inr rfl
  · exact .inl rfl

theorem isSegment_of_mem {pattern : String} (hclass : '[' ∉ pattern.toList) {seg : String}
    (hseg : seg ∈ (Path.ofText pattern).segments) (hdots : seg ≠ "..")
    (hstars : seg = doubleStar ∨ hasStars seg = false) : IsSegment seg := by
  obtain ⟨hmem, hne⟩ := List.mem_filter.1 hseg
  simp only [Bool.and_eq_true, bne_iff_ne] at hne
  refine ⟨hne.1, hne.2, hdots, Text.no_slash_of_mem_split hmem, ?_, hstars⟩
  obtain ⟨f, hf, rfl⟩ := List.mem_map.1 hmem
  rw [String.toList_ofList]
  exact fun h => hclass (Text.mem_of_mem_splitOn hf h).1

/-- Which files are found along a pattern: those that the pattern fits as it is walked. -/
theorem mem_find_iff (ht : t.Sound) {pattern : String} (hclass : '[' ∉ pattern.toList)
    {found : List (List String)} (h : find t base pattern = .ok found) {rel : List String}
    (hne : rel ≠ []) (hfile : t.isFile (base ++ rel) = true) :
    rel ∈ found ↔ ∃ p, plain? pattern = some p ∧ Fits (Text.split '/' p) rel := by
  have hnames := ht.isName (FileTree.has_of_isFile hfile)
  have hbase : t.isDir base = true := ht.grounded.isDir_of_has hne (FileTree.has_of_isFile hfile)
  have hcollapse : ∀ l, t.has l = true → Path.collapse l = l := fun l hl =>
    Path.collapse_of_names fun n hn => (ht.isName hl n hn).ne_dots
  obtain ⟨ss, hss, h⟩ := Outcome.bind_eq_ok_iff.1 h
  obtain ⟨hsteps, hnil, hstars⟩ := steps_eq_ok hss
  rw [if_pos hbase] at h
  obtain rfl := Except.ok.inj h
  have hat : t.isDir (Path.collapse (base ++ [])) = true := by
    rwa [List.append_nil, hcollapse base (FileTree.has_of_isDir hbase)]
  by_cases hplain : ∃ p, plain? pattern = some p
  · obtain ⟨p, hp⟩ := hplain
    obtain ⟨hleads, hslash, hsplit⟩ := split_of_plain? hp
    rw [hsteps, if_neg hslash, List.append_nil,
      mem_walk_iff ht hleads (by simpa using hbase) hfile]
    simp [hp, hsplit]
  · -- what is found shows every `..`, which no file does, and is a directory otherwise
    refine iff_of_false ?_ fun ⟨p, hp, _⟩ => hplain ⟨p, hp⟩
    intro hwalk
    rw [hsteps] at hwalk
    obtain ⟨d, hd, -, hdots⟩ := exists_of_mem_walk ht (stop_or_nil _) hwalk
    obtain rfl : rel = d := hd
    have hsegment : ∀ seg ∈ (Path.ofText pattern).segments, IsSegment seg := by
      intro seg hseg
      refine isSegment_of_mem hclass hseg ?_ (hstars seg hseg)
      rintro rfl
      exact (hnames _ (List.mem_append_right _ (hdots hseg))).ne_dots rfl
    have hdir : t.isDir (Path.collapse (base ++ rel)) = true := by
      refine isDir_of_mem_walk ht ?_ hat hwalk
      by_cases hslash : pattern.toList.getLast? = some '/'
      · exact .inl (if_pos hslash)
      · refine .inr ⟨if_neg hslash, ?_⟩
        by_contra hlast
        have hleads : Leads (Path.ofText pattern).segments :=
          ⟨fun hn => hslash (hnil hn), hsegment, hlast⟩
        exact hplain ⟨_, if_pos ⟨hleads, hslash⟩⟩
    rw [hcollapse _ (FileTree.has_of_isFile hfile)] at hdir
    rw [FileTree.isFile_eq_false_of_isDir hdir] at hfile
    simp at hfile

theorem exists_of_mem_find (ht : t.Sound) {pattern : String} {found : List (List String)}
    (h : find t base pattern = .ok found) {p : List String} (hp : p ∈ found) :
    t.isDir base = true ∧ ∀ n ∈ p, IsName n ∨ n ∈ (Path.ofText pattern).segments := by
  obtain ⟨ss, hss, h⟩ := Outcome.bind_eq_ok_iff.1 h
  obtain rfl := Except.ok.inj h
  split at hp
  · rename_i hbase
    rw [(steps_eq_ok hss).1] at hp
    refine ⟨hbase, ?_⟩
    obtain ⟨d, hd, hnames, -⟩ := exists_of_mem_walk ht (stop_or_nil _) hp
    obtain rfl : p = d := hd
    exact hnames
  · simp at hp

/-- What is found can be read back from its text. -/
theorem eq_of_relativeText_eq (ht : t.Sound) {pattern : String} {found : List (List String)}
    (h : find t base pattern = .ok found) {p rel : List String} (hp : p ∈ found)
    (hnames : ∀ n ∈ rel, IsName n) (hne : rel ≠ [])
    (heq : Path.relativeText p = Path.relativeText rel) : p = rel := by
  have hslash : ∀ n ∈ p, '/' ∉ n.toList := by
    intro n hn
    rcases (exists_of_mem_find ht h hp).2 n hn with hname | hseg
    · exact hname.no_slash
    · exact Text.no_slash_of_mem_split (List.mem_filter.1 hseg).1
  have hrel := Text.split_joinWith hne fun n hn => (hnames n hn).no_slash
  rw [GlobSet.relativeText_of_ne_nil hne] at heq
  by_cases hp0 : p = []
  · -- the place itself is written as a dot, which is no name
    subst hp0
    rw [← heq] at hrel
    have hdot : "." ∈ rel := by rw [← hrel]; decide
    exact absurd rfl (hnames _ hdot).ne_dot
  · rw [GlobSet.relativeText_of_ne_nil hp0] at heq
    rw [← Text.split_joinWith hp0 hslash, heq, hrel]

end Glob

namespace GlobSet

variable {g : GlobSet} {t : FileTree} {paths : List String}

/-- A glob set with its include patterns as they are walked. -/
def walked (g : GlobSet) : GlobSet := { g with includes := g.includes.filterMap Glob.plain? }

theorem walked_of_isPlain (hp : ∀ p ∈ g.includes, Glob.IsPlain p) : g.walked = g := by
  have hsome : g.includes.filterMap Glob.plain? = g.includes.filterMap some :=
    List.filterMap_congr fun p hmem => Glob.plain?_of_isPlain (hp p hmem)
  rw [walked, hsome, List.filterMap_some]

theorem mem_files_iff (h : g.files t = .ok paths) {path : String} :
    path ∈ paths ↔ g.isExcluded path = false ∧
      ∃ pattern ∈ g.includes, ∃ found, Glob.find t g.root pattern = .ok found ∧
        ∃ p ∈ found, t.isFile (Path.collapse (g.root ++ p)) = true ∧ path = Path.relativeText p := by
  obtain ⟨found, hfound, h⟩ := Outcome.bind_eq_ok_iff.1 h
  obtain rfl := Except.ok.inj h
  obtain ⟨hleft, hright⟩ := Outcome.mem_of_mapM hfound
  simp only [Text.mem_sorted, List.mem_eraseDups, List.mem_filter, List.mem_map]
  constructor
  · rintro ⟨⟨p, ⟨hp, hfile⟩, rfl⟩, hex⟩
    obtain ⟨ps, hps, hp⟩ := List.mem_flatten.1 hp
    obtain ⟨pattern, hpattern, hfind⟩ := hright ps hps
    exact ⟨by simpa using hex, pattern, hpattern, ps, hfind, p, hp, hfile, rfl⟩
  · rintro ⟨hex, pattern, hpattern, ps, hfind, p, hp, hfile, rfl⟩
    obtain ⟨ps', hps', hfind'⟩ := hleft pattern hpattern
    obtain rfl := Except.ok.inj (hfind.symm.trans hfind')
    exact ⟨⟨p, ⟨List.mem_flatten.2 ⟨ps, hps', hp⟩, hfile⟩, rfl⟩, by simpa using hex⟩

theorem find_of_files (h : g.files t = .ok paths) {pattern : String}
    (hp : pattern ∈ g.includes) : ∃ found, Glob.find t g.root pattern = .ok found := by
  obtain ⟨found, hfound, -⟩ := Outcome.bind_eq_ok_iff.1 h
  obtain ⟨ps, -, hps⟩ := (Outcome.mem_of_mapM hfound).1 pattern hp
  exact ⟨ps, hps⟩

/-- A file is listed exactly if it is matched by the patterns as they are walked. -/
theorem mem_files_iff_walked (ht : t.Sound) (hclass : ∀ p ∈ g.includes, '[' ∉ p.toList)
    (h : g.files t = .ok paths) {rel : List String} (hne : rel ≠ [])
    (hfile : t.isFile (g.root ++ rel) = true) :
    Path.relativeText rel ∈ paths ↔ g.walked.matchesLocation (g.root ++ rel) = true := by
  have hnames := ht.isName (FileTree.has_of_isFile hfile)
  have hrel := fun n hn => hnames n (List.mem_append_right g.root hn)
  have hplain : ∀ p ∈ g.walked.includes, Glob.IsPlain p := by
    intro p hp
    obtain ⟨pattern, -, hp⟩ := List.mem_filterMap.1 hp
    exact Glob.isPlain_of_plain? hp
  have hincluded : g.walked.isIncluded (Path.relativeText rel) = true ↔
      ∃ pattern ∈ g.includes, ∃ found, Glob.find t g.root pattern = .ok found ∧ rel ∈ found := by
    rw [relativeText_of_ne_nil hne, isIncluded_iff hplain hrel hne]
    constructor
    · rintro ⟨p, hp, hf⟩
      obtain ⟨pattern, hpattern, hp⟩ := List.mem_filterMap.1 hp
      obtain ⟨found, hfound⟩ := find_of_files h hpattern
      exact ⟨pattern, hpattern, found, hfound,
        (Glob.mem_find_iff ht (hclass pattern hpattern) hfound hne hfile).2 ⟨p, hp, hf⟩⟩
    · rintro ⟨pattern, hpattern, found, hfound, hmem⟩
      obtain ⟨p, hp, hf⟩ :=
        (Glob.mem_find_iff ht (hclass pattern hpattern) hfound hne hfile).1 hmem
      exact ⟨p, List.mem_filterMap.2 ⟨pattern, hpattern, hp⟩, hf⟩
  have hmatches : g.walked.matchesLocation (g.root ++ rel) =
      (g.walked.isIncluded (Path.relativeText rel) && !g.isExcluded (Path.relativeText rel)) := by
    rw [matchesLocation, show g.root = g.walked.root from rfl, relative?_append]
    rfl
  rw [hmatches, Bool.and_eq_true, hincluded, mem_files_iff h, Bool.not_eq_true', and_comm]
  apply and_congr_left
  intro _
  constructor
  · rintro ⟨pattern, hpattern, found, hfound, p, hp, -, heq⟩
    obtain rfl := Glob.eq_of_relativeText_eq ht hfound hp hrel hne heq.symm
    exact ⟨pattern, hpattern, found, hfound, hp⟩
  · rintro ⟨pattern, hpattern, found, hfound, hmem⟩
    refine ⟨pattern, hpattern, found, hfound, rel, hmem, ?_, rfl⟩
    rwa [Path.collapse_of_names fun n hn => (hnames n hn).ne_dots]

/-- Without `..` in a pattern, what is listed are the paths of files, as the tree spells them. -/
theorem exists_of_mem_files (ht : t.Sound)
    (hdots : ∀ p ∈ g.includes, ".." ∉ (Path.ofText p).segments) (h : g.files t = .ok paths)
    {path : String} (hpath : path ∈ paths) :
    ∃ rel, rel ≠ [] ∧ path = Path.relativeText rel ∧ t.isFile (g.root ++ rel) = true := by
  obtain ⟨-, pattern, hpattern, found, hfound, p, hp, hfile, rfl⟩ := (mem_files_iff h).1 hpath
  obtain ⟨hroot, hnames⟩ := Glob.exists_of_mem_find ht hfound hp
  have hcollapse : Path.collapse (g.root ++ p) = g.root ++ p := by
    apply Path.collapse_of_names
    intro n hn
    rcases List.mem_append.1 hn with hn | hn
    · exact (ht.isName (FileTree.has_of_isDir hroot) n hn).ne_dots
    · rcases hnames n hn with hname | hseg
      · exact hname.ne_dots
      · exact fun heq => hdots pattern hpattern (heq ▸ hseg)
  rw [hcollapse] at hfile
  refine ⟨p, ?_, rfl, hfile⟩
  rintro rfl
  rw [List.append_nil, FileTree.isFile_eq_false_of_isDir hroot] at hfile
  simp at hfile

/-- Listing files and matching paths agree as far as the patterns are walked as they are written.
Whenever files can be listed, each one is listed once, in increasing order of paths, exactly if the
patterns match it as they are walked: without empty segments and `.`, and without the patterns that
end in a slash or in `**` or go up. With plain patterns these are the files that the glob set itself
matches. -/
theorem files_are_walked_matches (root : Location) (includes excludes : List String)
    (ht : t.Sound) (hclass : ∀ p ∈ includes, '[' ∉ p.toList)
    (h : (ofPatterns root includes excludes).files t = .ok paths) :
    let g := ofPatterns root includes excludes
    paths.Pairwise (· < ·) ∧
    (∀ rel, rel ≠ [] → t.isFile (root ++ rel) = true →
      (Path.relativeText rel ∈ paths ↔ g.walked.matchesLocation (root ++ rel) = true)) ∧
    ((∀ p ∈ g.includes, Glob.IsPlain p) → ∀ rel, rel ≠ [] → t.isFile (root ++ rel) = true →
      (Path.relativeText rel ∈ paths ↔ g.matchesLocation (root ++ rel) = true)) ∧
    ((∀ p ∈ g.includes, ".." ∉ (Path.ofText p).segments) → ∀ path ∈ paths,
      ∃ rel, rel ≠ [] ∧ path = Path.relativeText rel ∧ t.isFile (root ++ rel) = true) := by
  intro g
  have hexpanded : ∀ p ∈ g.includes, '[' ∉ p.toList := by
    intro p hp hc
    rcases mem_of_mem_expandAll hp hc with hslash | ⟨pattern, hpattern, hc⟩
    · exact absurd hslash (by decide)
    · exact hclass pattern hpattern hc
  have hwalked : ∀ rel, rel ≠ [] → t.isFile (root ++ rel) = true →
      (Path.relativeText rel ∈ paths ↔ g.walked.matchesLocation (root ++ rel) = true) :=
    fun rel hne hfile => mem_files_iff_walked (g := g) ht hexpanded h hne hfile
  refine ⟨?_, hwalked, ?_, fun hdots path => exists_of_mem_files ht hdots h⟩
  · obtain ⟨found, -, h⟩ := Outcome.bind_eq_ok_iff.1 h
    obtain rfl := Except.ok.inj h
    exact Text.pairwise_sorted (Text.nodup_eraseDups _)
  · intro hplain rel hne hfile
    have hsame := hwalked rel hne hfile
    rwa [walked_of_isPlain hplain] at hsame

def twoFiles : FileTree :=
  ⟨[(["src"], .dir), (["src", "a.graphql"], .file .empty), (["lib"], .dir),
    (["lib", "b.graphql"], .file .empty)]⟩

/-- Of two files the one is matched and not listed, the other one listed and not matched. -/
theorem files_are_walked_matches_apart :
    let g := ofPatterns [] ["src/**", "lib//*.\x7bgraphql,gql\x7d"] []
    ∃ paths, g.files twoFiles = .ok paths ∧
      ("src/a.graphql" ∉ paths ∧ g.matchesLocation ["src", "a.graphql"] = true) ∧
      ("lib/b.graphql" ∈ paths ∧ g.matchesLocation ["lib", "b.graphql"] = false) := by
  intro g
  have hfiles : g.files twoFiles = .ok ["lib/b.graphql"] := by decide +kernel
  obtain ⟨-, hlisted, -, -⟩ := files_are_walked_matches [] ["src/**", "lib//*.\x7bgraphql,gql\x7d"] []
    (t := twoFiles) (by decide +kernel) (by decide) hfiles
  refine ⟨_, hfiles, ⟨?_, by decide +kernel⟩, ?_, by decide +kernel⟩
  · rw [show "src/a.graphql" = Path.relativeText ["src", "a.graphql"] from rfl,
      hlisted _ (by simp) (by decide +kernel)]
    decide +kernel
  · exact (hlisted ["lib", "b.graphql"] (by simp) (by decide +kernel)).2 (by decide +kernel)

end GlobSet
end QueryTypes
