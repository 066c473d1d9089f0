import QueryTypes.Glob.Set
import QueryTypes.Proofs.Glob.Segments
import QueryTypes.Proofs.Text.Sorted

/-!
# The files of a glob set

In a sound tree a walk finds a file exactly if the segments of the pattern fit its path. So with
plain include patterns a glob set can list its files, and it lists those that it matches, in the
order of their paths.
-/

namespace QueryTypes.Glob

variable {t : FileTree} {base : Location}

theorem matchName_namePieces_iff {cs : List Char}
    (h : (cs.any fun c => c == '*' || c == '?' || c == '[') = false) {ns : List Char} :
    matchName (namePieces cs.length cs) ns = true ↔ ns = cs := by
  induction cs generalizing ns with
  | nil => cases ns <;> simp [namePieces, matchName]
  | cons c cs ih =>
    simp only [List.any_cons, Bool.or_eq_false_iff, beq_eq_false_iff_ne, ne_eq] at h
    obtain ⟨⟨⟨h1, h2⟩, h3⟩, hcs⟩ := h
    cases ns with
    | nil => simp [namePieces, matchName, h1, h2, h3]
    | cons d ns =>
      simp [namePieces, matchName, NamePiece.accepts, h1, h2, h3, ih hcs]

theorem nameMatches_iff_eq {seg name : String} (h : isWild seg = false) :
    nameMatches seg name = true ↔ name = seg := by
  rw [nameMatches, ← String.length_toList, matchName_namePieces_iff h, String.toList_inj]

/-- What a walk needs of a place that it goes to: a directory, unless it ends there. -/
def usable (t : FileTree) (rest : List Step) (l : Location) : Bool :=
  if rest.isEmpty then t.has l else t.isDir l

theorem has_of_usable {rest : List Step} {l : Location} (h : usable t rest l = true) :
    t.has l = true := by
  rw [usable] at h
  split at h
  · exact h
  · exact FileTree.has_of_isDir h

/-- A step for one name goes to each usable place with such a name. -/
theorem mem_walk_step_iff (ht : t.Sound) {seg : String} (hd : seg ≠ doubleStar)
    (hseg : seg ≠ "..") {rest : List Step} {at_ p : List String}
    (hbase : ∀ n ∈ base ++ at_, n ≠ "..") :
    p ∈ walk t base (step seg :: rest) at_ ↔
      ∃ n, n ≠ ".." ∧ nameMatches seg n = true ∧ usable t rest (base ++ at_ ++ [n]) = true ∧
        p ∈ walk t base rest (at_ ++ [n]) := by
  have hstars : seg ≠ "**" := hd
  have hcollapse : ∀ n, n ≠ ".." →
      Path.collapse (base ++ (at_ ++ [n])) = base ++ at_ ++ [n] := by
    intro n hn
    rw [← List.append_assoc]
    apply Path.collapse_of_names
    intro m hm
    rcases List.mem_append.1 hm with hm | hm
    · exact hbase m hm
    · rwa [List.mem_singleton.1 hm]
  by_cases hw : isWild seg = true
  · have hs : step seg = .wild seg := by simp [step, hstars, hw]
    rw [hs, walk, Path.collapse_of_names hbase]
    simp only [List.mem_flatMap, List.mem_filter, Bool.and_eq_true, FileTree.mem_children_iff ht]
    constructor
    · rintro ⟨n, ⟨hmem, hn, hu⟩, hp⟩
      have hdots := (ht.isName hmem n (by simp)).ne_dots
      rw [hcollapse n hdots] at hu
      exact ⟨n, hdots, hn, hu, hp⟩
    · rintro ⟨n, hdots, hn, hu, hp⟩
      refine ⟨n, ⟨has_of_usable hu, hn, ?_⟩, hp⟩
      rw [hcollapse n hdots]
      exact hu
  · have hs : step seg = .name seg := by simp [step, hstars, hw]
    rw [hs, walk]
    simp only [hcollapse seg hseg]
    simp only [Bool.not_eq_true] at hw
    change p ∈ (if usable t rest (base ++ at_ ++ [seg]) = true then
      walk t base rest (at_ ++ [seg]) else []) ↔ _
    constructor
    · intro hp
      by_cases hu : usable t rest (base ++ at_ ++ [seg]) = true
      · rw [if_pos hu] at hp
        exact ⟨seg, hseg, (nameMatches_iff_eq hw).2 rfl, hu, hp⟩
      · rw [if_neg hu] at hp
        exact absurd hp (by simp)
    · rintro ⟨n, -, hn, hu, hp⟩
      obtain rfl := (nameMatches_iff_eq hw).1 hn
      rwa [if_pos hu]

theorem mem_walk_dirs_iff (ht : t.Sound) {rest : List Step} {at_ p : List String}
    (hbase : ∀ n ∈ base ++ at_, n ≠ "..") :
    p ∈ walk t base (step doubleStar :: rest) at_ ↔
      ∃ d, (d ≠ [] → t.isDir (base ++ at_ ++ d) = true) ∧ p ∈ walk t base rest (at_ ++ d) := by
  have hs : step doubleStar = .dirs := by simp [step, doubleStar]
  rw [hs, walk, Path.collapse_of_names hbase]
  simp only [List.mem_flatMap]
  apply exists_congr
  intro d
  by_cases hd : d = []
  · subst hd
    simp [FileTree.dirsBelow]
  · simp [FileTree.mem_dirsBelow_iff ht hd, hd]

theorem mem_walk_last_iff (ht : t.Sound) {seg : String} (hseg : Leads [seg]) {at_ p : List String}
    (hat : t.isDir (base ++ at_) = true) (hfile : t.isFile (base ++ p) = true) :
    p ∈ walk t base [step seg] at_ ↔ ∃ names, p = at_ ++ names ∧ Fits [seg] names := by
  have hd := hseg.ne_doubleStar
  have hbase : ∀ n ∈ base ++ at_, n ≠ ".." :=
    fun n hn => (ht.isName (FileTree.has_of_isDir hat) n hn).ne_dots
  rw [mem_walk_step_iff ht hd (hseg.segment seg (by simp)).ne_dots hbase]
  constructor
  · rintro ⟨n, -, hn, -, hp⟩
    obtain rfl : p = at_ ++ [n] := by simpa [walk] using hp
    exact ⟨[n], rfl, .name hd hn .nil⟩
  · rintro ⟨names, rfl, hf⟩
    cases hf with
    | stay => exact absurd rfl hd
    | descend => exact absurd rfl hd
    | @name _ n _ _ _ hn hf =>
      cases hf
      have hhas : t.has (base ++ at_ ++ [n]) = true := by
        simpa using FileTree.has_of_isFile hfile
      exact ⟨n, (ht.isName hhas n (by simp)).ne_dots, hn, by simpa [usable] using hhas,
        by simp [walk]⟩

section

variable {seg : String} {segs at_ p : List String} (ht : t.Sound) (hsegs : Leads segs)
  (hat : t.isDir (base ++ at_) = true) (hfile : t.isFile (base ++ p) = true)
  (hbelow : ∀ at_, t.isDir (base ++ at_) = true →
    (p ∈ walk t base (segs.map step) at_ ↔ ∃ names, p = at_ ++ names ∧ Fits segs names))
include ht hsegs hat hfile hbelow

theorem mem_walk_doubleStar_iff :
    p ∈ walk t base (step doubleStar :: segs.map step) at_ ↔
      ∃ names, p = at_ ++ names ∧ Fits (doubleStar :: segs) names := by
  have hbase : ∀ n ∈ base ++ at_, n ≠ ".." :=
    fun n hn => (ht.isName (FileTree.has_of_isDir hat) n hn).ne_dots
  rw [mem_walk_dirs_iff ht hbase]
  constructor
  · rintro ⟨d, hdir, hp⟩
    have hat' : t.isDir (base ++ (at_ ++ d)) = true := by
      by_cases hne : d = []
      · simpa [hne] using hat
      · simpa using hdir hne
    obtain ⟨names, rfl, hf⟩ := (hbelow _ hat').1 hp
    exact ⟨d ++ names, by simp, fits_doubleStar_split.2 ⟨d, names, rfl, hf⟩⟩
  · rintro ⟨names, rfl, hf⟩
    obtain ⟨d, rest, rfl, hr⟩ := fits_doubleStar_split.1 hf
    have hne : rest ≠ [] := by
      rintro rfl
      exact hsegs.not_fits_nil hr
    have hat' : t.isDir (base ++ (at_ ++ d)) = true :=
      ht.grounded.isDir_of_has hne (by simpa using FileTree.has_of_isFile hfile)
    exact ⟨d, fun _ => by simpa using hat', (hbelow _ hat').2 ⟨rest, by simp, hr⟩⟩

theorem mem_walk_name_iff (hd : seg ≠ doubleStar) (hdots : seg ≠ "..") :
    p ∈ walk t base (step seg :: segs.map step) at_ ↔
      ∃ names, p = at_ ++ names ∧ Fits (seg :: segs) names := by
  have hbase : ∀ n ∈ base ++ at_, n ≠ ".." :=
    fun n hn => (ht.isName (FileTree.has_of_isDir hat) n hn).ne_dots
  have hrest : (segs.map step).isEmpty = false := by simpa using hsegs.ne_nil
  rw [mem_walk_step_iff ht hd hdots hbase]
  constructor
  · rintro ⟨n, -, hn, hu, hp⟩
    have hat' : t.isDir (base ++ (at_ ++ [n])) = true := by simpa [usable, hrest] using hu
    obtain ⟨names, rfl, hf⟩ := (hbelow _ hat').1 hp
    exact ⟨n :: names, by simp, .name hd hn hf⟩
  · rintro ⟨names, rfl, hf⟩
    cases hf with
    | stay => exact absurd rfl hd
    | descend => exact absurd rfl hd
    | @name _ n _ rest _ hn hf =>
      have hne : rest ≠ [] := by
        rintro rfl
        exact hsegs.not_fits_nil hf
      have hat' : t.isDir (base ++ (at_ ++ [n])) = true :=
        ht.grounded.isDir_of_has hne (by simpa using FileTree.has_of_isFile hfile)
      refine ⟨n, (ht.isName (FileTree.has_of_isDir hat') n (by simp)).ne_dots, hn, ?_,
        (hbelow _ hat').2 ⟨rest, by simp, hf⟩⟩
      simpa [usable, hrest] using hat'

end

/-- A walk finds a file exactly if the segments fit the way to it. -/
theorem mem_walk_iff (ht : t.Sound) {segs : List String} (hsegs : Leads segs)
    {at_ p : List String} (hat : t.isDir (base ++ at_) = true)
    (hfile : t.isFile (base ++ p) = true) :
    p ∈ walk t base (segs.map step) at_ ↔ ∃ names, p = at_ ++ names ∧ Fits segs names := by
  induction segs generalizing at_ with
  | nil => exact absurd rfl hsegs.ne_nil
  | cons seg segs ih =>
    by_cases hlast : segs = []
    · subst hlast
      exact mem_walk_last_iff ht hsegs hat hfile
    · have htail := hsegs.tail hlast
      by_cases hd : seg = doubleStar
      · rw [hd]
        exact mem_walk_doubleStar_iff ht htail hat hfile fun _ hat' => ih htail hat'
      · have hdots := (hsegs.segment seg (by simp)).ne_dots
        exact mem_walk_name_iff ht htail hat hfile (fun _ hat' => ih htail hat') hd hdots

end QueryTypes.Glob

/-! ### Lists of files -/

namespace QueryTypes

namespace Glob

theorem IsPlain.head_ne_slash {pattern : String} (hp : IsPlain pattern) (r : List Char) :
    pattern.toList ≠ '/' :: r := by
  intro h
  have hs := hp.segment "" (by
    rw [Text.split, h]
    simp [Text.splitOn])
  exact hs.ne_empty rfl

theorem IsPlain.last_ne_slash {pattern : String} (hp : IsPlain pattern) :
    pattern.toList.getLast? ≠ some '/' := by
  rw [← text_split pattern]
  unfold IsPlain at hp
  generalize Text.split '/' pattern = segs at hp
  induction segs with
  | nil => simp [text, Text.joinOn]
  | cons seg segs ih =>
    have hseg := hp.segment seg (by simp)
    by_cases hlast : segs = []
    · subst hlast
      intro h
      have ht : text [seg] = seg.toList := by simp [text, Text.joinOn]
      rw [ht] at h
      exact hseg.no_slash (List.mem_of_getLast? h)
    · have htail := hp.tail hlast
      have hne : text segs ≠ [] := by
        obtain ⟨next, rest, rfl⟩ := List.exists_cons_of_ne_nil hlast
        have hnext := (htail.segment next (by simp)).ne_empty
        by_cases hrest : rest = []
        · subst hrest
          simpa [text, Text.joinOn] using hnext
        · rw [text_cons next hrest]
          simp
      rw [text_cons seg hlast, List.getLast?_append, List.getLast?_cons_of_ne_nil hne]
      obtain ⟨c, hc⟩ := Option.isSome_iff_exists.1 (List.getLast?_isSome.2 hne)
      have hrec := ih htail
      rw [hc] at hrec ⊢
      simpa using hrec

theorem ofText_of_segments {s : String} (hhead : ∀ r, s.toList ≠ '/' :: r)
    (hne : ∀ seg ∈ Text.split '/' s, seg ≠ "" ∧ seg ≠ ".") :
    Path.ofText s = ⟨.here, Text.split '/' s⟩ := by
  have hroot : Path.rootOf s.toList = .here := by
    unfold Path.rootOf
    split
    next h => exact absurd h (hhead _)
    next h => exact absurd h (hhead _)
    next h => exact absurd h (hhead _)
    · rfl
  rw [Path.ofText, hroot, List.filter_eq_self.2]
  intro seg hseg
  simpa using hne seg hseg

theorem steps_of_plain {pattern : String} (hp : IsPlain pattern) :
    steps pattern = .ok ((Text.split '/' pattern).map step) := by
  have hpath := ofText_of_segments hp.head_ne_slash fun seg hseg =>
    ⟨(hp.segment seg hseg).ne_empty, (hp.segment seg hseg).ne_dot⟩
  have hempty : pattern ≠ "" := by
    rintro rfl
    exact (hp.segment "" (by simp [Text.split, Text.splitOn])).ne_empty rfl
  have hsegs : (Text.split '/' pattern).isEmpty = false := by simpa using hp.ne_nil
  have hstars : ((Text.split '/' pattern).any fun s => s != "**" && hasStars s) = false := by
    rw [List.any_eq_false]
    intro seg hseg
    rcases (hp.segment seg hseg).stars with h | h
    · simp [h, doubleStar]
    · simp [h]
  simp [steps, hempty, hpath, Path.isAbsolute, hp.last_ne_slash, hsegs, hstars]

variable {t : FileTree} {base : Location}

theorem has_of_mem_walk (ht : t.Sound) {segs : List String} (hsegs : Leads segs)
    {at_ p : List String} (hat : t.isDir (base ++ at_) = true)
    (hp : p ∈ walk t base (segs.map step) at_) : t.has (base ++ p) = true := by
  induction segs generalizing at_ with
  | nil => exact absurd rfl hsegs.ne_nil
  | cons seg segs ih =>
    have hbase : ∀ n ∈ base ++ at_, n ≠ ".." :=
      fun n hn => (ht.isName (FileTree.has_of_isDir hat) n hn).ne_dots
    by_cases hlast : segs = []
    · subst hlast
      rw [List.map_cons, mem_walk_step_iff ht hsegs.ne_doubleStar
        (hsegs.segment seg (by simp)).ne_dots hbase] at hp
      obtain ⟨n, -, -, hu, hp⟩ := hp
      obtain rfl : p = at_ ++ [n] := by simpa [walk] using hp
      simpa using has_of_usable hu
    · have htail := hsegs.tail hlast
      by_cases hd : seg = doubleStar
      · subst hd
        rw [List.map_cons, mem_walk_dirs_iff ht hbase] at hp
        obtain ⟨d, hdir, hp⟩ := hp
        apply ih htail ?_ hp
        by_cases hne : d = []
        · simpa [hne] using hat
        · simpa using hdir hne
      · rw [List.map_cons, mem_walk_step_iff ht hd (hsegs.segment seg (by simp)).ne_dots hbase]
          at hp
        obtain ⟨n, -, -, hu, hp⟩ := hp
        apply ih htail ?_ hp
        have hrest : (segs.map step).isEmpty = false := by simpa using hlast
        simpa [usable, hrest] using hu

/-- What a plain pattern finds: the files whose paths its segments fit. -/
theorem find_of_plain (ht : t.Sound) {pattern : String} (hp : IsPlain pattern) :
    ∃ found, find t base pattern = .ok found ∧ (∀ rel ∈ found, t.has (base ++ rel) = true) ∧
      ∀ rel, t.isFile (base ++ rel) = true →
        (rel ∈ found ↔ Fits (Text.split '/' pattern) rel) := by
  by_cases hbase : t.isDir base = true
  · refine ⟨walk t base ((Text.split '/' pattern).map step) [], ?_, ?_, ?_⟩
    · simp [find, steps_of_plain hp, hbase, bind, Except.bind, pure, Except.pure]
    · intro rel hrel
      exact has_of_mem_walk ht hp (by simpa using hbase) hrel
    · intro rel hfile
      rw [mem_walk_iff ht hp (by simpa using hbase) hfile]
      simp
  · refine ⟨[], ?_, by simp, ?_⟩
    · simp [find, steps_of_plain hp, hbase, bind, Except.bind, pure, Except.pure]
    · intro rel hfile
      have hrel : rel = [] := by
        by_contra hne
        exact hbase (ht.grounded.isDir_of_has hne (FileTree.has_of_isFile hfile))
      subst hrel
      simp [Leads.not_fits_nil hp]

end Glob

namespace GlobSet

variable {g : GlobSet} {t : FileTree}

theorem relativeText_of_ne_nil {rel : List String} (h : rel ≠ []) :
    Path.relativeText rel = Text.joinWith "/" rel := by
  cases rel with
  | nil => exact absurd rfl h
  | cons n rel => rfl

theorem relative?_append (rel : List String) :
    g.relative? (g.root ++ rel) = some (Path.relativeText rel) := by
  have hp : g.root.isPrefixOf (g.root ++ rel) = true := List.isPrefixOf_iff_prefix.2 ⟨_, rfl⟩
  simp [relative?, Path.below?, hp]

/-- A file of a sound tree is included exactly if the segments of a pattern fit its path. -/
theorem isIncluded_iff (hp : ∀ p ∈ g.includes, Glob.IsPlain p) {rel : List String}
    (hrel : ∀ n ∈ rel, IsName n) (hne : rel ≠ []) :
    g.isIncluded (Text.joinWith "/" rel) = true ↔
      ∃ p ∈ g.includes, Glob.Fits (Text.split '/' p) rel := by
  rw [isIncluded, List.any_eq_true]
  apply exists_congr
  intro p
  apply and_congr_right
  intro hmem
  exact Glob.matchPath_iff_fits (hp p hmem) hrel hne

theorem mapM_find (ht : t.Sound) {ps : List String} (hp : ∀ p ∈ ps, Glob.IsPlain p) :
    ∃ found, ps.mapM (Glob.find t g.root) = .ok found ∧
      (∀ rel ∈ found.flatten, t.has (g.root ++ rel) = true) ∧
      ∀ rel, t.isFile (g.root ++ rel) = true →
        (rel ∈ found.flatten ↔ ∃ p ∈ ps, Glob.Fits (Text.split '/' p) rel) := by
  induction ps with
  | nil => exact ⟨[], rfl, by simp, by simp⟩
  | cons p ps ih =>
    obtain ⟨here, hhere, hhas, hfits⟩ : ∃ found, Glob.find t g.root p = .ok found ∧
        (∀ rel ∈ found, t.has (g.root ++ rel) = true) ∧ ∀ rel, t.isFile (g.root ++ rel) = true →
          (rel ∈ found ↔ Glob.Fits (Text.split '/' p) rel) :=
      Glob.find_of_plain ht (hp p (by simp))
    obtain ⟨rest, hrest, hhas', hfits'⟩ := ih fun q hq => hp q (List.mem_cons_of_mem _ hq)
    refine ⟨here :: rest, ?_, ?_, ?_⟩
    · simp [List.mapM_cons, hhere, hrest, bind, Except.bind, pure, Except.pure]
    · intro rel hrel
      rw [List.flatten_cons, List.mem_append] at hrel
      rcases hrel with hrel | hrel
      · exact hhas rel hrel
      · exact hhas' rel hrel
    · intro rel hfile
      rw [List.flatten_cons, List.mem_append, hfits rel hfile, hfits' rel hfile]
      simp

/-- With plain patterns the files are listed without fail: those that match, in increasing order. -/
theorem files_of_plain (ht : t.Sound) (hp : ∀ p ∈ g.includes, Glob.IsPlain p) :
    ∃ paths, g.files t = .ok paths ∧ paths.Pairwise (· < ·) ∧
      ∀ path, path ∈ paths ↔ ∃ rel, rel ≠ [] ∧ path = Text.joinWith "/" rel ∧
        t.isFile (g.root ++ rel) = true ∧ g.matchesLocation (g.root ++ rel) = true := by
  obtain ⟨found, hfound, hhas, hfits⟩ := mapM_find (g := g) ht hp
  have hcollapse : ∀ rel ∈ found.flatten, Path.collapse (g.root ++ rel) = g.root ++ rel :=
    fun rel hrel => Path.collapse_of_names fun n hn => (ht.isName (hhas rel hrel) n hn).ne_dots
  refine ⟨_, by rw [files, hfound]; rfl, Text.pairwise_sorted (Text.nodup_eraseDups _), ?_⟩
  intro path
  simp only [Text.mem_sorted, List.mem_eraseDups, List.mem_filter, List.mem_map]
  constructor
  · rintro ⟨⟨rel, ⟨hrel, hfile⟩, rfl⟩, hex⟩
    rw [hcollapse rel hrel] at hfile
    obtain ⟨p, hpmem, hf⟩ := (hfits rel hfile).1 hrel
    have hne : rel ≠ [] := by
      rintro rfl
      exact Glob.Leads.not_fits_nil (hp p hpmem) hf
    have hnames := fun n hn => ht.isName (hhas rel hrel) n (List.mem_append_right _ hn)
    rw [relativeText_of_ne_nil hne] at hex ⊢
    refine ⟨rel, hne, rfl, hfile, ?_⟩
    rw [matchesLocation, relative?_append, relativeText_of_ne_nil hne]
    simp only [Bool.and_eq_true]
    exact ⟨(isIncluded_iff hp hnames hne).2 ⟨p, hpmem, hf⟩, hex⟩
  · rintro ⟨rel, hne, rfl, hfile, hm⟩
    rw [matchesLocation, relative?_append, relativeText_of_ne_nil hne] at hm
    simp only [Bool.and_eq_true] at hm
    have hnames := fun n hn =>
      ht.isName (FileTree.has_of_isFile hfile) n (List.mem_append_right _ hn)
    have hrel := (hfits rel hfile).2 ((isIncluded_iff hp hnames hne).1 hm.1)
    refine ⟨⟨rel, ⟨hrel, ?_⟩, relativeText_of_ne_nil hne⟩, hm.2⟩
    rw [hcollapse rel hrel]
    exact hfile

end GlobSet
end QueryTypes
