import QueryTypes.Project.File
import QueryTypes.Proofs.Glob.Files

/-!
# Lists of client files

The files of a project stand in the order of their places. Reading all of them, putting one in and
dropping one keep that order; what is said here of each is who is a member afterwards.
-/

namespace QueryTypes

namespace Location

theorem eq_nil_of_joinWith {l : Location} (hl : ∀ n ∈ l, IsName n)
    (h : Text.joinWith "/" l = "") : l = [] := by
  by_contra hne
  have hs := Text.split_joinWith hne fun n hn => (hl n hn).no_slash
  rw [h] at hs
  have hmem : "" ∈ l := by simp [← hs, Text.split, Text.splitOn]
  exact (hl _ hmem).ne_empty rfl

theorem text_inj {l m : Location} (hl : ∀ n ∈ l, IsName n) (hm : ∀ n ∈ m, IsName n)
    (h : Location.text l = Location.text m) : l = m := by
  have hj : Text.joinWith "/" l = Text.joinWith "/" m := by
    apply String.toList_inj.1
    have := congrArg String.toList h
    simpa [Location.text] using this
  by_cases hl0 : l = []
  · subst hl0
    exact (eq_nil_of_joinWith hm (by rw [← hj]; rfl)).symm
  · by_cases hm0 : m = []
    · subst hm0
      exact eq_nil_of_joinWith hl (by rw [hj]; rfl)
    · rw [← Text.split_joinWith hl0 fun n hn => (hl n hn).no_slash, hj,
        Text.split_joinWith hm0 fun n hn => (hm n hn).no_slash]

/-- Places below a root have texts that start alike. -/
theorem exists_text_append (root : Location) :
    ∃ front : String, ∀ p, p ≠ [] → Location.text (root ++ p) = front ++ Text.joinWith "/" p := by
  by_cases hroot : root = []
  · exact ⟨"/", fun p _ => by simp [hroot, Location.text]⟩
  · refine ⟨"/" ++ Text.joinWith "/" root ++ "/", fun p hp => ?_⟩
    simp only [Location.text, Text.joinWith]
    rw [String.intercalate_append_of_ne_nil hroot hp]
    simp only [String.append_assoc]

theorem text_lt_iff {root : Location} {p q : List String} (hp : p ≠ []) (hq : q ≠ []) :
    Location.text (root ++ p) < Location.text (root ++ q) ↔
      Text.joinWith "/" p < Text.joinWith "/" q := by
  obtain ⟨front, hfront⟩ := exists_text_append root
  rw [hfront p hp, hfront q hq]
  exact Text.append_lt_append_iff

end Location

namespace ClientFile

/-- Places that belong to a project: files that its patterns match. -/
def Listed (g : GlobSet) (t : FileTree) (l : Location) : Prop :=
  t.isFile l = true ∧ g.matchesLocation l = true

variable {g : GlobSet} {t : FileTree} {tag : String}

/-- The places of a project are those that belong to it, in the order of their texts. A file in the
place of the root is matched by `*`, but a walk does not find it. -/
theorem places_of_plain (ht : t.Sound) (hp : ∀ p ∈ g.includes, Glob.IsPlain p)
    (hroot : t.isFile g.root = false) :
    ∃ ls, places g t = .ok ls ∧ (ls.Pairwise fun l m => Location.text l < Location.text m) ∧
      ∀ l, l ∈ ls ↔ Listed g t l := by
  obtain ⟨paths, hpaths, hsorted, hmem⟩ := GlobSet.files_of_plain ht hp
  have hresolve : ∀ rel, rel ≠ [] → t.isFile (g.root ++ rel) = true →
      Path.resolve g.root (Path.ofText (Text.joinWith "/" rel)) = g.root ++ rel := by
    intro rel hne hfile
    have hnames := ht.isName (FileTree.has_of_isFile hfile)
    have hrel := fun n hn => hnames n (List.mem_append_right g.root hn)
    have hsplit := Text.split_joinWith hne fun n hn => (hrel n hn).no_slash
    have hhead : ∀ r, (Text.joinWith "/" rel).toList ≠ '/' :: r := by
      intro r h
      have hfirst : "" ∈ rel := by
        rw [← hsplit, Text.split, h]
        simp [Text.splitOn]
      exact (hrel _ hfirst).ne_empty rfl
    have hpath := Glob.ofText_of_segments hhead (by
      rw [hsplit]
      exact fun n hn => ⟨(hrel n hn).ne_empty, (hrel n hn).ne_dot⟩)
    rw [hpath, hsplit]
    simp only [Path.resolve, Path.isAbsolute]
    exact Path.collapse_of_names fun n hn => (hnames n hn).ne_dots
  refine ⟨_, by rw [places, hpaths], ?_, ?_⟩
  · have hlt : (paths.map fun p => Path.resolve g.root (Path.ofText p)).Pairwise
        fun l m => Location.text l < Location.text m := by
      rw [List.pairwise_map]
      refine hsorted.imp_of_mem ?_
      intro a b ha hb hab
      obtain ⟨p, hpne, rfl, hpf, -⟩ := (hmem a).1 ha
      obtain ⟨q, hqne, rfl, hqf, -⟩ := (hmem b).1 hb
      rw [hresolve p hpne hpf, hresolve q hqne hqf]
      exact (Location.text_lt_iff hpne hqne).2 hab
    exact hlt.sublist (Text.eraseDups_sublist _)
  · intro l
    rw [List.mem_eraseDups, List.mem_map]
    constructor
    · rintro ⟨path, hpath, rfl⟩
      obtain ⟨rel, hne, rfl, hfile, hm⟩ := (hmem path).1 hpath
      rw [hresolve rel hne hfile]
      exact ⟨hfile, hm⟩
    · rintro ⟨hfile, hm⟩
      have hbelow : ∃ rel, l = g.root ++ rel := by
        rw [GlobSet.matchesLocation, GlobSet.relative?, Path.below?] at hm
        by_cases hpre : g.root.isPrefixOf l = true
        · obtain ⟨rel, hrel⟩ := List.isPrefixOf_iff_prefix.1 hpre
          exact ⟨rel, hrel.symm⟩
        · simp [hpre] at hm
      obtain ⟨rel, rfl⟩ := hbelow
      have hne : rel ≠ [] := by
        rintro rfl
        rw [List.append_nil, hroot] at hfile
        exact absurd hfile (by simp)
      exact ⟨_, (hmem _).2 ⟨rel, hne, rfl, hfile, hm⟩, hresolve rel hne hfile⟩

theorem place_of_ofBodies {l : Location} {bodies : List (List Char)} {f : ClientFile}
    (h : ofBodies l bodies = .ok f) : f.place = l := by
  induction bodies generalizing f with
  | nil =>
    obtain rfl : (⟨l, [], []⟩ : ClientFile) = f := Except.ok.inj h
    rfl
  | cons b bodies ih =>
    simp only [ofBodies] at h
    cases hrest : ofBodies l bodies with
    | error e =>
      rw [hrest] at h
      split at h <;> simp [bind, Except.bind] at h
    | ok rest =>
      rw [hrest] at h
      have hplace := ih hrest
      split at h
      · obtain rfl := Except.ok.inj h
        exact hplace
      · obtain rfl := Except.ok.inj h
        exact hplace
      · simp at h

theorem place_of_read {l : Location} {f : ClientFile} (h : read tag t l = .ok f) : f.place = l := by
  unfold read at h
  split at h
  · obtain rfl := Except.ok.inj h
    rfl
  · exact place_of_ofBodies h

theorem read_congr {t' : FileTree} {l : Location} (h : t.bytes? l = t'.bytes? l) :
    read tag t l = read tag t' l := by
  unfold read
  rw [h]

theorem listed_congr {t' : FileTree} {l : Location} (h : t.bytes? l = t'.bytes? l) :
    Listed g t l ↔ Listed g t' l := by
  unfold Listed
  rw [FileTree.isFile_iff_bytes?, FileTree.isFile_iff_bytes?, h]

theorem readAll_returns_iff (ls : List Location) :
    (readAll tag t ls).2 = none ↔ ∀ l ∈ ls, ∃ f, read tag t l = .ok f := by
  induction ls with
  | nil => simp [readAll]
  | cons l ls ih =>
    simp only [readAll]
    cases hread : read tag t l with
    | error e => simp [hread]
    | ok f => simp [hread, ih]

theorem map_place_readAll {ls : List Location} (h : (readAll tag t ls).2 = none) :
    (readAll tag t ls).1.map place = ls := by
  induction ls with
  | nil => rfl
  | cons l ls ih =>
    simp only [readAll] at h ⊢
    cases hread : read tag t l with
    | error e => simp [hread] at h
    | ok f =>
      simp only [hread] at h ⊢
      rw [List.map_cons, place_of_read hread, ih h]

theorem mem_readAll_iff {ls : List Location} (h : (readAll tag t ls).2 = none) {f : ClientFile} :
    f ∈ (readAll tag t ls).1 ↔ ∃ l ∈ ls, read tag t l = .ok f := by
  induction ls with
  | nil => simp [readAll]
  | cons l ls ih =>
    simp only [readAll] at h ⊢
    cases hread : read tag t l with
    | error e => simp [hread] at h
    | ok f' =>
      simp only [hread] at h ⊢
      rw [List.mem_cons, ih h]
      simp [hread, eq_comm]

/-- Files in the order of their places, which are spelled by names. -/
structure Tidy (files : List ClientFile) : Prop where
  ordered : files.Pairwise fun f g => Location.text f.place < Location.text g.place
  names : ∀ f ∈ files, ∀ n ∈ f.place, IsName n

theorem Tidy.nodup {files : List ClientFile} (h : Tidy files) :
    (files.map fun f => Location.text f.place).Nodup := by
  rw [List.Nodup, List.pairwise_map]
  refine h.ordered.imp ?_
  intro f f' hlt heq
  rw [heq] at hlt
  exact String.lt_irrefl _ hlt

theorem Tidy.drop {files : List ClientFile} (h : Tidy files) (l : Location) :
    Tidy (ClientFile.drop l files) :=
  ⟨h.ordered.sublist List.filter_sublist, fun f hf => h.names f (List.mem_filter.1 hf).1⟩

theorem mem_drop_iff {files : List ClientFile} {l : Location} {f : ClientFile} :
    f ∈ ClientFile.drop l files ↔ f ∈ files ∧ f.place ≠ l := by
  simp [ClientFile.drop]

theorem mem_put_iff {files : List ClientFile} {f f' : ClientFile} :
    f' ∈ put f files ↔ f' = f ∨ f' ∈ files ∧ f'.place ≠ f.place := by
  rw [put, List.mem_mergeSort]
  by_cases hany : (files.any fun h => h.place == f.place) = true
  · rw [if_pos hany, List.mem_map]
    constructor
    · rintro ⟨h, hmem, rfl⟩
      by_cases hp : h.place = f.place
      · exact .inl (if_pos hp)
      · rw [if_neg hp]
        exact .inr ⟨hmem, hp⟩
    · rintro (rfl | ⟨hmem, hp⟩)
      · obtain ⟨h, hmem, hp⟩ := List.any_eq_true.1 hany
        exact ⟨h, hmem, if_pos (by simpa using hp)⟩
      · exact ⟨f', hmem, if_neg hp⟩
  · rw [if_neg hany, List.mem_append, List.mem_singleton, or_comm]
    apply or_congr_right
    rw [iff_self_and]
    intro hmem hp
    exact hany (List.any_eq_true.2 ⟨f', hmem, by simpa using hp⟩)

theorem Tidy.put {files : List ClientFile} (h : Tidy files) {f : ClientFile}
    (hf : ∀ n ∈ f.place, IsName n) : Tidy (put f files) := by
  constructor
  · rw [ClientFile.put]
    refine Text.pairwise_mergeSort_lt (fun f : ClientFile => Location.text f.place) ?_
    by_cases hany : (files.any fun h => h.place == f.place) = true
    · -- the new file takes the place of one that was there, so no place is new
      rw [if_pos hany, List.map_map]
      have hplaces : ((fun f => Location.text f.place) ∘
          fun h => if h.place = f.place then f else h) =
          fun h : ClientFile => Location.text h.place := by
        funext h
        by_cases hp : h.place = f.place
        · simp [hp]
        · simp [hp]
      rw [hplaces]
      exact h.nodup
    · rw [if_neg hany, List.map_append, List.nodup_append]
      refine ⟨h.nodup, by simp, ?_⟩
      intro a ha b hb hab
      obtain ⟨f', hmem, rfl⟩ := List.mem_map.1 ha
      obtain rfl : b = Location.text f.place := by simpa using hb
      have hp := Location.text_inj (h.names f' hmem) hf hab
      exact hany (List.any_eq_true.2 ⟨f', hmem, by simpa using hp⟩)
  · intro f' hmem
    rcases mem_put_iff.1 hmem with rfl | ⟨hmem, -⟩
    · exact hf
    · exact h.names f' hmem

theorem Tidy.eq_of_mem_iff {files files' : List ClientFile} (h : Tidy files) (h' : Tidy files')
    (hmem : ∀ f, f ∈ files ↔ f ∈ files') : files = files' :=
  Text.eq_of_pairwise_lt (fun f : ClientFile => Location.text f.place) h.ordered h'.ordered hmem

end ClientFile
end QueryTypes
