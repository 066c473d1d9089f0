import Mathlib.Data.List.Nodup
import Mathlib.Data.List.Perm.Subperm
import QueryTypes.Output.Write
import QueryTypes.Proofs.Tree.Sound

/-!
# Trees that files are written to

Writing a file puts its content in its place, makes the directories above it and leaves every other
file as it was. The file that is filled first is gone again, since nothing had its name before.
-/

namespace QueryTypes
namespace FileTree

variable {t t' : FileTree} {l k dir cwd : Location} {n : FileNode} {name : String}
  {refuses : Refusals} {content : ByteArray}

/-! ### One entry -/

theorem lookup_cons (j : Location) (m : FileNode) (es : List (Location × FileNode))
    (k : Location) : List.lookup k ((j, m) :: es) = if k = j then some m else es.lookup k := by
  rw [List.lookup_cons]
  by_cases hk : k = j
  · subst hk
    simp
  · have hb : (k == j) = false := by simpa using hk
    rw [hb, if_neg hk]

theorem lookup_go (l : Location) (n : FileNode) (k : Location)
    (es : List (Location × FileNode)) :
    (set.go l n es).lookup k = if k = l then some n else es.lookup k := by
  induction es with
  | nil => exact lookup_cons l n [] k
  | cons e es ih =>
    obtain ⟨j, m⟩ := e
    rw [set.go, lookup_cons]
    by_cases hj : j = l
    · rw [if_pos hj, lookup_cons, hj]
      split <;> rfl
    · rw [if_neg hj, lookup_cons, ih]
      by_cases hk : k = l
      · rw [if_pos hk, if_pos hk, if_neg (hk ▸ Ne.symm hj)]
      · rw [if_neg hk, if_neg hk]

theorem node?_set (hl : l ≠ []) (n : FileNode) (k : Location) :
    (t.set l n).node? k = if k = l then some n else t.node? k := by
  rw [node?, node?]
  by_cases hk : k = []
  · rw [if_pos hk, if_pos hk, if_neg (hk ▸ Ne.symm hl)]
  · rw [if_neg hk, if_neg hk]
    exact lookup_go l n k t.entries

theorem lookup_filter (p : Location → Bool) (es : List (Location × FileNode)) :
    (es.filter fun e => p e.1).lookup k = if p k then es.lookup k else none := by
  induction es with
  | nil => simp
  | cons e es ih =>
    obtain ⟨j, m⟩ := e
    rw [List.filter_cons, lookup_cons]
    by_cases hk : k = j
    · subst hk
      by_cases hp : p k = true
      · rw [if_pos hp, if_pos hp, lookup_cons, if_pos rfl, if_pos rfl]
      · rw [if_neg hp, if_neg hp, ih, if_neg hp]
    · rw [if_neg hk, ← ih]
      by_cases hp : p j = true
      · rw [if_pos hp, lookup_cons, if_neg hk]
      · rw [if_neg hp]

theorem node?_remove (hk : ¬ l <+: k) : (t.remove l).node? k = t.node? k := by
  have hprefix : l.isPrefixOf k = false := by
    rw [Bool.eq_false_iff]
    exact mt List.isPrefixOf_iff_prefix.1 hk
  rw [node?, node?, remove, lookup_filter (fun j => !l.isPrefixOf j), hprefix]
  rfl

theorem node?_remove_above (hl : l ≠ []) (hk : l <+: k) : (t.remove l).node? k = none := by
  have hprefix : l.isPrefixOf k = true := List.isPrefixOf_iff_prefix.2 hk
  have hne : k ≠ [] := by
    rintro rfl
    exact hl (List.prefix_nil.1 hk)
  rw [node?, if_neg hne, remove, lookup_filter (fun j => !l.isPrefixOf j), hprefix]
  rfl

/-- What is put where nothing was and removed again leaves nothing behind. -/
theorem node?_remove_of_agree {u : FileTree} (ht : t.Grounded) (hl : t.has l = false)
    (hu : ∀ k, k ≠ l → u.node? k = t.node? k) (k : Location) :
    (u.remove l).node? k = t.node? k := by
  have hne : l ≠ [] := by
    rintro rfl
    exact absurd hl (by simp [has, node?])
  by_cases hk : l <+: k
  · -- what stood at or below the place before would need something there
    rw [node?_remove_above hne hk, eq_comm, ← Option.not_isSome_iff_eq_none]
    intro hsome
    obtain ⟨m, rfl⟩ := hk
    by_cases hm : m = []
    · subst hm
      rw [List.append_nil] at hsome
      exact absurd hsome (by simpa [has] using hl)
    · exact absurd (has_of_isDir (ht.isDir_of_has hm hsome)) (by simp [hl])
  · rw [node?_remove hk]
    apply hu
    rintro rfl
    exact hk List.prefix_rfl

/-! ### A file that takes the place of another -/

theorem eq_of_toString_eq {i j : Nat} (h : toString i = toString j) : i = j := by
  have hdigits : Nat.toDigits 10 i = Nat.toDigits 10 j := by
    rw [← Nat.toList_repr, ← Nat.toList_repr]
    exact congrArg String.toList h
  have hvalues := congrArg (fun ds => Nat.ofDigitChars 10 ds 0) hdigits
  simpa only [Nat.ofDigitChars_ten_toDigits] using hvalues

theorem mem_places_of_has (hl : l ≠ []) (h : t.has l = true) : l ∈ t.entries.map Prod.fst := by
  rw [has, node?, if_neg hl] at h
  obtain ⟨n, hn⟩ := Option.isSome_iff_exists.1 h
  obtain ⟨before, after, heq, -⟩ := List.lookup_eq_some_iff.1 hn
  rw [heq]
  simp

theorem nodup_candidates (dir : Location) (name : String) (count : Nat) :
    ((List.range count).map fun i => dir ++ ["." ++ name ++ "." ++ toString i]).Nodup := by
  refine List.Nodup.map ?_ List.nodup_range
  intro i j hij
  simp only [List.append_cancel_left_eq, List.cons.injEq, and_true, String.append_right_inj] at hij
  exact eq_of_toString_eq hij

/-- There are more candidates for a name than places that could have them. -/
theorem freshName_spec (t : FileTree) (dir : Location) (name : String) :
    t.has (dir ++ [t.freshName dir name]) = false ∧
      ∃ mark, t.freshName dir name = "." ++ name ++ "." ++ mark := by
  have hnodup := nodup_candidates dir name (t.entries.length + 1)
  rw [freshName]
  cases hfind : ((List.range (t.entries.length + 1)).map fun i =>
      "." ++ name ++ "." ++ toString i).find? fun n => !t.has (dir ++ [n]) with
  | some n =>
    obtain ⟨i, -, hi⟩ := List.mem_map.1 (List.mem_of_find?_eq_some hfind)
    exact ⟨by simpa using List.find?_some hfind, toString i, hi.symm⟩
  | none =>
    -- otherwise every candidate is an entry, and there is one candidate more than entries
    exfalso
    have hsub : ((List.range (t.entries.length + 1)).map fun i =>
        dir ++ ["." ++ name ++ "." ++ toString i]) ⊆ t.entries.map Prod.fst := by
      intro l hl
      obtain ⟨i, hi, rfl⟩ := List.mem_map.1 hl
      apply mem_places_of_has (by simp)
      simpa using List.find?_eq_none.1 hfind _ (List.mem_map_of_mem hi)
    have hlength := (List.subperm_of_subset hnodup hsub).length_le
    simp only [List.length_map, List.length_range] at hlength
    omega

/-- A file is not taken away: it could not be looked at, or it could not be removed, as the error
says. -/
def Stays (refuses : Refusals) (t : FileTree) (l : Location) (e : Fault) : Prop :=
  (∃ f, refuses t (.examine l) = some f) ∨ refuses t (.remove l) = some e

/-- What was filled first is taken away, or it stays. Either way an error is told. -/
theorem discard_cases (refuses : Refusals) (t : FileTree) (l : Location) (f : Fault) :
    t.discard refuses l f = (t.remove l, .error f) ∨
      ∃ e, t.discard refuses l f = (t, .error e) ∧ Stays refuses t l e := by
  unfold discard
  cases hexamine : refuses t (.examine l) with
  | some g => exact .inr ⟨f, rfl, .inl ⟨g, hexamine⟩⟩
  | none =>
    cases hremove : refuses t (.remove l) with
    | some g => exact .inr ⟨g, rfl, .inr hremove⟩
    | none => exact .inl rfl

theorem discard_ne_ok {f : Fault} : t.discard refuses l f ≠ (t', .ok ()) := by
  intro h
  rcases discard_cases refuses t l f with heq | ⟨e, heq, -⟩
  · exact absurd (heq.symm.trans h) (by simp)
  · exact absurd (heq.symm.trans h) (by simp)

theorem isDir_congr {u : FileTree} (h : u.node? l = t.node? l) : u.isDir l = t.isDir l := by
  rw [isDir, isDir, h]

/-- Replacing a file ends before anything is made, or the file that is filled first is discarded, or
it takes the place. -/
theorem replaceFile_cases (refuses : Refusals) (t : FileTree) (dir : Location) (name : String)
    (content : ByteArray) :
    (∃ f, t.replaceFile refuses dir name content = (t, .error f)) ∨
    ∃ u : FileTree, u.isFile (dir ++ [t.freshName dir name]) = true ∧
      (∀ k, k ≠ dir ++ [t.freshName dir name] → u.node? k = t.node? k) ∧
      ((∃ f, t.replaceFile refuses dir name content =
          u.discard refuses (dir ++ [t.freshName dir name]) f) ∨
        u.isDir (dir ++ [name]) = false ∧ t.replaceFile refuses dir name content =
          ((u.remove (dir ++ [t.freshName dir name])).set (dir ++ [name]) (.file content),
            .ok ())) := by
  unfold replaceFile
  dsimp only
  have htemporary : dir ++ [t.freshName dir name] ≠ [] := by simp
  generalize dir ++ [t.freshName dir name] = temporary at *
  generalize hcreated : t.set temporary (.file ByteArray.empty) = created
  have hnode : ∀ k, created.node? k =
      if k = temporary then some (.file ByteArray.empty) else t.node? k := by
    intro k
    rw [← hcreated, node?_set htemporary]
  generalize hfilled : created.set temporary (.file content) = filled
  have hnode' : ∀ k, filled.node? k =
      if k = temporary then some (.file content) else t.node? k := by
    intro k
    rw [← hfilled, node?_set htemporary, hnode]
    split <;> rfl
  cases refuses t (.create temporary) with
  | some f => exact .inl ⟨f, rfl⟩
  | none =>
    right
    cases refuses created (.fill temporary) with
    | some f =>
      refine ⟨created, ?_, fun k hk => ?_, .inl ⟨f, rfl⟩⟩
      · rw [isFile, hnode, if_pos rfl]
      · rw [hnode, if_neg hk]
    | none =>
      refine ⟨filled, ?_, fun k hk => ?_, ?_⟩
      · rw [isFile, hnode', if_pos rfl]
      · rw [hnode', if_neg hk]
      · cases refuses filled (.replace (dir ++ [name])) with
        | some f => exact .inl ⟨f, rfl⟩
        | none =>
          cases filled.isDir (dir ++ [name]) with
          | true => exact .inl ⟨.isDirectory, rfl⟩
          | false => exact .inr ⟨rfl, rfl⟩

theorem node?_replaceFile (ht : t.Grounded)
    (h : t.replaceFile refuses dir name content = (t', .ok ())) :
    t.isDir (dir ++ [name]) = false ∧
      ∀ k, t'.node? k = if k = dir ++ [name] then some (.file content) else t.node? k := by
  obtain ⟨hfresh, -⟩ := t.freshName_spec dir name
  rcases replaceFile_cases refuses t dir name content with
    ⟨f, heq⟩ | ⟨u, -, hu, ⟨f, heq⟩ | ⟨hdir, heq⟩⟩
  · exact absurd (heq.symm.trans h) (by simp)
  · exact absurd (heq.symm.trans h) discard_ne_ok
  · obtain ⟨rfl, -⟩ := Prod.mk.inj (heq.symm.trans h)
    refine ⟨?_, fun k => by rw [node?_set (by simp), node?_remove_of_agree ht hfresh hu]⟩
    -- a name can happen to be that of its own temporary file, and nothing is there before either
    by_cases hsame : dir ++ [name] = dir ++ [t.freshName dir name]
    · rw [Bool.eq_false_iff, hsame]
      exact fun hd => absurd (has_of_isDir hd) (by simp [hfresh])
    · rwa [← isDir_congr (hu _ hsame)]

/-! ### Directories on the way -/

/-- The same files, and perhaps further directories. -/
def Grows (t t' : FileTree) : Prop :=
  ∀ k, t'.node? k = t.node? k ∨ t.node? k = none ∧ t'.node? k = some .dir

theorem Grows.trans {u : FileTree} (h : Grows t t') (h' : Grows t' u) : Grows t u := by
  intro k
  rcases h' k with heq | ⟨hnone, hdir⟩
  · rw [heq]
    exact h k
  · rcases h k with heq | ⟨hnone', hdir'⟩
    · rw [heq] at hnone
      exact .inr ⟨hnone, hdir⟩
    · rw [hdir'] at hnone
      exact absurd hnone (Option.some_ne_none _)

theorem Grows.bytes? (h : Grows t t') (k : Location) : t'.bytes? k = t.bytes? k := by
  rw [FileTree.bytes?, FileTree.bytes?]
  rcases h k with heq | ⟨hnone, hdir⟩
  · rw [heq]
  · rw [hnone, hdir]

theorem Grows.isDir (h : Grows t t') (hl : t.isDir l = true) : t'.isDir l = true := by
  rw [isDir_iff_node?] at hl ⊢
  rcases h l with heq | ⟨hnone, -⟩
  · rw [heq, hl]
  · rw [hnone] at hl
    exact absurd hl.symm (Option.some_ne_none _)

/-- Where names lead, seen from a place. -/
def climb (at_ : Location) (ss : List String) : Location :=
  ss.foldl (fun at_ s => if s = ".." then at_.dropLast else at_ ++ [s]) at_

theorem reverse_foldl (ss acc : List String) :
    (ss.foldl (fun acc s => if s = ".." then acc.tail else s :: acc) acc).reverse =
      climb acc.reverse ss := by
  induction ss generalizing acc with
  | nil => rfl
  | cons s ss ih =>
    rw [List.foldl_cons, ih, climb, climb, List.foldl_cons]
    by_cases hs : s = ".."
    · rw [if_pos hs, if_pos hs, List.dropLast_reverse]
    · rw [if_neg hs, if_neg hs, List.reverse_cons]

theorem collapse_append_eq_climb (hl : ∀ n ∈ l, n ≠ "..") (ss : List String) :
    Path.collapse (l ++ ss) = climb l ss := by
  rw [Path.collapse, List.foldl_append, Path.foldl_of_names [] hl, reverse_foldl]
  simp

theorem resolve_eq_climb (hnames : ∀ n ∈ cwd, n ≠ "..") (p : Path) :
    Path.resolve cwd p = climb (if p.isAbsolute then [] else cwd) p.segments := by
  rw [Path.resolve]
  by_cases hp : p.isAbsolute = true
  · rw [if_pos hp, if_pos hp]
    exact collapse_append_eq_climb (l := []) (by simp) p.segments
  · rw [if_neg hp, if_neg hp]
    exact collapse_append_eq_climb hnames p.segments

/-- A file stands in the directory that the names before its own lead to. -/
theorem resolve_of_getLast? (hnames : ∀ n ∈ cwd, n ≠ "..") {p : Path}
    (hlast : p.segments.getLast? = some name) (hname : name ≠ "..") :
    Path.resolve cwd p =
      climb (if p.isAbsolute then [] else cwd) p.segments.dropLast ++ [name] := by
  obtain ⟨ss, hss⟩ := List.getLast?_eq_some_iff.1 hlast
  rw [resolve_eq_climb hnames, hss, List.dropLast_concat, climb, climb, List.foldl_append,
    List.foldl_cons, List.foldl_nil, if_neg hname]

theorem grows_set_dir (hl : t.node? l = none) : Grows t (t.set l .dir) := by
  have hne : l ≠ [] := by
    rintro rfl
    exact Option.some_ne_none _ hl
  intro k
  rw [node?_set hne]
  by_cases hk : k = l
  · exact .inr ⟨hk ▸ hl, if_pos hk⟩
  · exact .inl (if_neg hk)

theorem Grounded.set (ht : t.Grounded) (hne : l ≠ []) (hat : (t.set l n).isDir l.dropLast = true)
    (hkeeps : ∀ k, t.isDir k = true → (t.set l n).isDir k = true) : (t.set l n).Grounded := by
  intro k hk
  by_cases hkl : k = l
  · exact hkl ▸ hat
  · apply hkeeps
    apply ht
    rwa [has, node?_set hne, if_neg hkl] at hk

/-- Making the way to a place changes no file. The way up stays among directories, since whatever is
there stands in one. -/
theorem makePath_ok {at_ : Location} {ss : List String} (ht : t.Grounded)
    (hat : t.isDir at_ = true) (h : t.makePath refuses at_ ss = (t', .ok l)) :
    t'.Grounded ∧ t'.isDir l = true ∧ l = climb at_ ss ∧ Grows t t' := by
  induction ss generalizing t at_ with
  | nil =>
    obtain ⟨rfl, hl⟩ := Prod.mk.inj h
    obtain rfl := Except.ok.inj hl
    exact ⟨ht, hat, rfl, fun k => .inl rfl⟩
  | cons s ss ih =>
    rw [makePath] at h
    rw [climb, List.foldl_cons]
    by_cases hs : s = ".."
    · rw [if_pos hs] at h ⊢
      exact ih ht (ht _ (has_of_isDir hat)) h
    · rw [if_neg hs] at h ⊢
      dsimp only at h
      cases hnode : t.node? (at_ ++ [s]) with
      | some n =>
        cases n with
        | file b => simp [hnode] at h
        | dir =>
          rw [hnode] at h
          exact ih ht (isDir_iff_node?.2 hnode) h
      | none =>
        cases hrefuses : refuses t (.makeDir (at_ ++ [s])) with
        | some f => simp [hnode, hrefuses] at h
        | none =>
          rw [hnode, hrefuses] at h
          have hgrows := grows_set_dir hnode
          have hplace : (t.set (at_ ++ [s]) .dir).isDir (at_ ++ [s]) = true := by
            rw [isDir_iff_node?, node?_set (by simp), if_pos rfl]
          have hgrounded : (t.set (at_ ++ [s]) .dir).Grounded := by
            apply ht.set (by simp)
            · rw [List.dropLast_concat]
              exact hgrows.isDir hat
            · exact fun k => hgrows.isDir
          obtain ⟨hgrounded', hdir, heq, hgrows'⟩ := ih hgrounded hplace h
          exact ⟨hgrounded', hdir, heq, hgrows.trans hgrows'⟩

/-! ### A file that is written -/

/-- A tree after a file was written: the file has its place, and nothing else was lost. -/
structure Written (t t' : FileTree) (place : Location) (content : ByteArray) : Prop where
  grounded : t'.Grounded
  dirs : ∀ k, t.isDir k = true → t'.isDir k = true
  bytes : t'.bytes? place = some content
  elsewhere : ∀ k, k ≠ place → t'.bytes? k = t.bytes? k

theorem written_of_replaceFile (ht : t.Grounded) (hdir : t.isDir dir = true)
    (h : t.replaceFile refuses dir name content = (t', .ok ())) :
    Written t t' (dir ++ [name]) content := by
  obtain ⟨hplace, hnode⟩ := node?_replaceFile ht h
  have hdirs : ∀ k, t.isDir k = true → t'.isDir k = true := by
    intro k hk
    have hne : k ≠ dir ++ [name] := by
      rintro rfl
      exact Bool.false_ne_true (hplace.symm.trans hk)
    rwa [isDir_congr ((hnode k).trans (if_neg hne))]
  refine ⟨?_, hdirs, ?_, ?_⟩
  · intro k hk
    by_cases hkl : k = dir ++ [name]
    · rw [hkl, List.dropLast_concat]
      exact hdirs _ hdir
    · apply hdirs
      apply ht
      rwa [has, hnode, if_neg hkl] at hk
  · rw [bytes?, hnode, if_pos rfl]
  · intro k hk
    rw [bytes?, bytes?, hnode, if_neg hk]

/-- Writing makes the way to a file, and then fails or replaces the file that the path leads to. -/
theorem write_cases (refuses : Refusals) (p : Path) (content : ByteArray) (ht : t.Grounded)
    (hcwd : t.isDir cwd = true) (hnames : ∀ n ∈ cwd, n ≠ "..") :
    ∃ made outcome, t.makePath refuses (if p.isAbsolute then [] else cwd) p.segments.dropLast =
        (made, outcome) ∧
      ((∃ f, t.write refuses cwd p content = (made, .error f)) ∨
        ∃ dir name, made.Grounded ∧ made.isDir dir = true ∧ Grows t made ∧
          Path.resolve cwd p = dir ++ [name] ∧
          t.write refuses cwd p content = made.replaceFile refuses dir name content) := by
  have hstart : t.isDir (if p.isAbsolute then [] else cwd) = true := by
    split
    · rfl
    · exact hcwd
  rcases hpath : t.makePath refuses (if p.isAbsolute then [] else cwd) p.segments.dropLast with
    ⟨made, outcome⟩
  refine ⟨made, outcome, rfl, ?_⟩
  rw [write, hpath]
  cases outcome with
  | error f => exact .inl ⟨f, rfl⟩
  | ok dir =>
    obtain ⟨hgrounded, hdir, rfl, hgrows⟩ := makePath_ok ht hstart hpath
    cases hlast : p.segments.getLast? with
    | none => exact .inl ⟨.busy, rfl⟩
    | some name =>
      by_cases hname : name = ".."
      · exact .inl ⟨.busy, if_pos hname⟩
      · exact .inr ⟨_, name, hgrounded, hdir, hgrows, resolve_of_getLast? hnames hlast hname,
          if_neg hname⟩

theorem written_of_write {p : Path} (ht : t.Grounded) (hcwd : t.isDir cwd = true)
    (hnames : ∀ n ∈ cwd, n ≠ "..") (h : t.write refuses cwd p content = (t', .ok ())) :
    Written t t' (Path.resolve cwd p) content := by
  obtain ⟨made, outcome, -, ⟨f, heq⟩ | ⟨dir, name, hgrounded, hdir, hgrows, hplace, heq⟩⟩ :=
    write_cases refuses p content ht hcwd hnames
  · exact absurd (heq.symm.trans h) (by simp)
  · have hwritten := written_of_replaceFile hgrounded hdir (heq.symm.trans h)
    rw [hplace]
    exact ⟨hwritten.grounded, fun k hk => hwritten.dirs k (hgrows.isDir hk), hwritten.bytes,
      fun k hk => (hwritten.elsewhere k hk).trans (hgrows.bytes? k)⟩

end FileTree
end QueryTypes
