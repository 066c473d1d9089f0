import Mathlib.Data.List.Induction
import QueryTypes.Tree.Basic

/-! Trees as a disk holds them: places are listed once, names are names, and every entry stands in
a directory. -/

namespace QueryTypes

/-- A name that a file can have, and that a line can hold. -/
structure IsName (name : String) : Prop where
  ne_empty : name ≠ ""
  ne_dot : name ≠ "."
  ne_dots : name ≠ ".."
  no_slash : '/' ∉ name.toList
  no_line_end : '\n' ∉ name.toList

instance (name : String) : Decidable (IsName name) :=
  decidable_of_iff (name ≠ "" ∧ name ≠ "." ∧ name ≠ ".." ∧ '/' ∉ name.toList ∧ '\n' ∉ name.toList)
    ⟨fun ⟨h, h', h'', h₁, h₂⟩ => ⟨h, h', h'', h₁, h₂⟩,
      fun ⟨h, h', h'', h₁, h₂⟩ => ⟨h, h', h'', h₁, h₂⟩⟩

theorem Path.foldl_of_names {l : List String} (acc : List String) (h : ∀ n ∈ l, n ≠ "..") :
    l.foldl (fun acc s => if s = ".." then acc.tail else s :: acc) acc = l.reverse ++ acc := by
  induction l generalizing acc with
  | nil => rfl
  | cons n l ih =>
    have hl : ∀ m ∈ l, m ≠ ".." := fun m hm => h m (List.mem_cons_of_mem _ hm)
    rw [List.foldl_cons, if_neg (h n (by simp)), ih _ hl]
    simp

theorem Path.collapse_of_names {l : List String} (h : ∀ n ∈ l, n ≠ "..") : Path.collapse l = l := by
  rw [Path.collapse, Path.foldl_of_names [] h]
  simp

theorem Path.collapse_append (l : List String) {d : List String} (h : ∀ n ∈ d, n ≠ "..") :
    Path.collapse (l ++ d) = Path.collapse l ++ d := by
  rw [Path.collapse, Path.collapse, List.foldl_append, Path.foldl_of_names _ h]
  simp

namespace FileTree

structure Sound (t : FileTree) : Prop where
  distinct : (t.entries.map Prod.fst).Nodup
  ne_top : ∀ e ∈ t.entries, e.1 ≠ []
  names : ∀ e ∈ t.entries, ∀ n ∈ e.1, IsName n
  parents : ∀ e ∈ t.entries, t.isDir e.1.dropLast = true

instance (t : FileTree) : Decidable t.Sound :=
  decidable_of_iff ((t.entries.map Prod.fst).Nodup ∧ (∀ e ∈ t.entries, e.1 ≠ []) ∧
      (∀ e ∈ t.entries, ∀ n ∈ e.1, IsName n) ∧ ∀ e ∈ t.entries, t.isDir e.1.dropLast = true)
    ⟨fun ⟨h, h', h'', h₁⟩ => ⟨h, h', h'', h₁⟩, fun ⟨h, h', h'', h₁⟩ => ⟨h, h', h'', h₁⟩⟩

variable {t : FileTree} {l m : Location}

theorem lookup_eq_some_iff_mem {es : List (Location × FileNode)} (h : (es.map Prod.fst).Nodup)
    {n : FileNode} : es.lookup l = some n ↔ (l, n) ∈ es := by
  induction es with
  | nil => simp
  | cons e es ih =>
    rw [List.map_cons, List.nodup_cons] at h
    obtain ⟨k, m⟩ := e
    by_cases hk : l = k
    · subst hk
      have hmem : (l, n) ∉ es := fun hn => h.1 (List.mem_map.2 ⟨_, hn, rfl⟩)
      simp [hmem, eq_comm]
    · have hb : (l == k) = false := by simpa using hk
      rw [List.lookup_cons, hb, ih h.2]
      simp [hk]

theorem node?_eq_some_iff (h : t.Sound) (hl : l ≠ []) {n : FileNode} :
    t.node? l = some n ↔ (l, n) ∈ t.entries := by
  rw [node?, if_neg hl]
  exact lookup_eq_some_iff_mem h.distinct

theorem has_iff (h : t.Sound) (hl : l ≠ []) : t.has l = true ↔ ∃ n, (l, n) ∈ t.entries := by
  rw [has, Option.isSome_iff_exists]
  exact exists_congr fun n => node?_eq_some_iff h hl

theorem isDir_iff_node? : t.isDir l = true ↔ t.node? l = some .dir := by
  rw [isDir]
  split
  · rename_i heq
    simp [heq]
  · rename_i hne
    exact ⟨fun h => absurd h Bool.false_ne_true, fun h => absurd h hne⟩

theorem isDir_iff (h : t.Sound) (hl : l ≠ []) : t.isDir l = true ↔ (l, .dir) ∈ t.entries := by
  rw [isDir_iff_node?, node?_eq_some_iff h hl]

theorem has_of_isDir (h : t.isDir l = true) : t.has l = true := by
  rw [isDir] at h
  split at h
  next heq => simp [has, heq]
  · simp at h

theorem has_of_isFile (h : t.isFile l = true) : t.has l = true := by
  rw [isFile] at h
  split at h
  next heq => simp [has, heq]
  · simp at h

theorem isFile_iff_bytes? : t.isFile l = true ↔ ∃ b, t.bytes? l = some b := by
  unfold isFile bytes?
  split
  next b heq => simp
  next hne => simp

theorem Sound.isName (h : t.Sound) (hl : t.has l = true) : ∀ n ∈ l, IsName n := by
  by_cases hne : l = []
  · simp [hne]
  · obtain ⟨n, hn⟩ := (has_iff h hne).1 hl
    exact h.names _ hn

/-- Whatever is there stands in a directory. -/
def Grounded (t : FileTree) : Prop := ∀ l, t.has l = true → t.isDir l.dropLast = true

theorem Sound.grounded (h : t.Sound) : t.Grounded := by
  intro l hl
  by_cases hne : l = []
  · subst hne
    rfl
  · obtain ⟨n, hn⟩ := (has_iff h hne).1 hl
    exact h.parents _ hn

/-- Nothing stands below what is not a directory. -/
theorem Grounded.isDir_of_has (h : t.Grounded) (hm : m ≠ []) (hl : t.has (l ++ m) = true) :
    t.isDir l = true := by
  -- the place above is a directory, and so are, from there upwards, all places down to the first
  induction m using List.reverseRecOn with
  | nil => exact absurd rfl hm
  | append_singleton m n ih =>
    have hp := h _ hl
    rw [← List.append_assoc, List.dropLast_concat] at hp
    by_cases hmn : m = []
    · simpa [hmn] using hp
    · exact ih hmn (has_of_isDir hp)

theorem mem_children_iff (h : t.Sound) {n : String} :
    n ∈ t.children l ↔ t.has (l ++ [n]) = true := by
  rw [has_iff h (by simp), children, List.mem_filterMap]
  constructor
  · rintro ⟨⟨k, e⟩, hmem, hk⟩
    simp only [Path.below?] at hk
    by_cases hp : l.isPrefixOf k = true
    · obtain ⟨r, rfl⟩ := List.isPrefixOf_iff_prefix.1 hp
      rw [if_pos hp, List.drop_left] at hk
      match r, hk with
      | [x], hk =>
        obtain rfl : x = n := by simpa using hk
        exact ⟨e, hmem⟩
    · simp [hp] at hk
  · rintro ⟨e, hmem⟩
    refine ⟨_, hmem, ?_⟩
    have hp : l.isPrefixOf (l ++ [n]) = true := List.isPrefixOf_iff_prefix.2 ⟨_, rfl⟩
    simp [Path.below?, hp]

theorem mem_dirsBelow_iff (h : t.Sound) {d : List String} (hd : d ≠ []) :
    d ∈ t.dirsBelow l ↔ t.isDir (l ++ d) = true := by
  rw [isDir_iff h (by simp [hd]), dirsBelow, List.mem_cons, List.mem_filterMap]
  constructor
  · rintro (rfl | ⟨⟨k, e⟩, hmem, hk⟩)
    · exact absurd rfl hd
    · simp only [Path.below?] at hk
      by_cases hp : l.isPrefixOf k = true
      · obtain ⟨r, rfl⟩ := List.isPrefixOf_iff_prefix.1 hp
        rw [if_pos hp, List.drop_left] at hk
        match e, r, hk with
        | .dir, x :: r, hk =>
          obtain rfl : x :: r = d := by simpa using hk
          exact hmem
      · simp [hp] at hk
  · intro hmem
    right
    refine ⟨_, hmem, ?_⟩
    have hp : l.isPrefixOf (l ++ d) = true := List.isPrefixOf_iff_prefix.2 ⟨_, rfl⟩
    obtain ⟨x, r, rfl⟩ := List.exists_cons_of_ne_nil hd
    simp [Path.below?, hp]

end FileTree
end QueryTypes
