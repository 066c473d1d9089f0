import QueryTypes.Proofs.Text.Fields
import QueryTypes.Proofs.Tree.Written

/-!
# Ways up and down

Names that lead up take back the names before them, so wherever names lead, they lead up some
directories first and down from there. The way from one place to another is one of these, and the
text of a path is read back to its segments.
-/

namespace QueryTypes

namespace FileTree

variable {l : Location} {ss : List String}

theorem climb_append (l : Location) (ss ss' : List String) :
    climb l (ss ++ ss') = climb (climb l ss) ss' := List.foldl_append

theorem climb_concat (l : Location) (ss : List String) (s : String) :
    climb l (ss ++ [s]) = if s = ".." then (climb l ss).dropLast else climb l ss ++ [s] := by
  rw [climb_append]
  rfl

theorem climb_of_names (l : Location) (h : ∀ n ∈ ss, n ≠ "..") : climb l ss = l ++ ss := by
  induction ss using List.reverseRecOn with
  | nil => simp [climb]
  | append_singleton ss s ih =>
    rw [climb_concat, if_neg (h s (by simp)), ih fun n hn => h n (List.mem_append_left _ hn),
      List.append_assoc]

theorem dropLast_take_sub (l : Location) (k : Nat) :
    (l.take (l.length - k)).dropLast = l.take (l.length - (k + 1)) := by
  rw [List.dropLast_eq_take, List.take_take, List.length_take]
  congr 1
  omega

theorem climb_up (l : Location) (k : Nat) :
    climb l (List.replicate k "..") = l.take (l.length - k) := by
  induction k with
  | zero => simp [climb]
  | succ k ih =>
    rw [List.replicate_succ', climb_concat, if_pos rfl, ih, dropLast_take_sub]

theorem mem_climb {n : String} (h : n ∈ climb l ss) : n ∈ l ∨ n ∈ ss ∧ n ≠ ".." := by
  induction ss using List.reverseRecOn with
  | nil => exact .inl h
  | append_singleton ss s ih =>
    have hbefore : n ∈ climb l ss → n ∈ l ∨ n ∈ ss ++ [s] ∧ n ≠ ".." :=
      fun hn => (ih hn).imp_right fun hn => ⟨List.mem_append_left _ hn.1, hn.2⟩
    rw [climb_concat] at h
    split at h
    · exact hbefore (List.dropLast_subset _ h)
    · rename_i hs
      rcases List.mem_append.1 h with h | h
      · exact hbefore h
      · obtain rfl := List.mem_singleton.1 h
        exact .inr ⟨by simp, hs⟩

end FileTree

/-- A name that is kept when a path is read. -/
structure IsKept (s : String) : Prop where
  ne_empty : s ≠ ""
  ne_dot : s ≠ "."
  no_slash : '/' ∉ s.toList

instance (s : String) : Decidable (IsKept s) :=
  decidable_of_iff (s ≠ "" ∧ s ≠ "." ∧ '/' ∉ s.toList)
    ⟨fun ⟨h, h', h''⟩ => ⟨h, h', h''⟩, fun ⟨h, h', h''⟩ => ⟨h, h', h''⟩⟩

theorem isKept_dots : IsKept ".." := by decide

namespace Path

open FileTree (climb climb_append climb_concat climb_up resolve_eq_climb)

/-- A way up and then down, and one more name. -/
def extend (way : Nat × List String) (s : String) : Nat × List String :=
  if s = ".." then if way.2 = [] then (way.1 + 1, []) else (way.1, way.2.dropLast)
  else (way.1, way.2 ++ [s])

/-- How many directories names lead up, and where they lead from there. -/
def reduced (ss : List String) : Nat × List String := ss.foldl extend (0, [])

theorem climb_eq_reduced (l : Location) (ss : List String) :
    climb l ss = l.take (l.length - (reduced ss).1) ++ (reduced ss).2 := by
  induction ss using List.reverseRecOn with
  | nil => simp [climb, reduced]
  | append_singleton ss s ih =>
    have hstep : reduced (ss ++ [s]) = extend (reduced ss) s := by
      rw [reduced, List.foldl_append]
      rfl
    rw [climb_concat, ih, hstep, extend]
    by_cases hs : s = ".."
    · rw [if_pos hs, if_pos hs]
      by_cases hdown : (reduced ss).2 = []
      · rw [if_pos hdown, hdown, List.append_nil, List.append_nil, FileTree.dropLast_take_sub]
      · rw [if_neg hdown, List.dropLast_append_of_ne_nil hdown]
    · rw [if_neg hs, if_neg hs, List.append_assoc]

variable {cwd : Location} {p : Path} {s : String}

theorem resolve_child_eq_climb (hcwd : ∀ n ∈ cwd, n ≠ "..") (hroot : (ofText s).root = .here) :
    resolve cwd (p.child s) = climb (resolve cwd p) (ofText s).segments := by
  have hrelative : (ofText s).isAbsolute = false := by rw [isAbsolute, hroot]; rfl
  have hjoin : p.child s = ⟨p.root, p.segments ++ (ofText s).segments⟩ := by
    rw [child, join, hrelative, if_neg Bool.false_ne_true]
  rw [hjoin, resolve_eq_climb hcwd, resolve_eq_climb hcwd, ← climb_append]
  rfl

/-- A path leads at most one directory further than its parent. -/
theorem length_resolve_le (hcwd : ∀ n ∈ cwd, n ≠ "..") (p : Path) :
    (resolve cwd p).length ≤ (resolve cwd p.parent).length + 1 := by
  have hparent : resolve cwd p.parent =
      climb (if p.isAbsolute then [] else cwd) p.segments.dropLast := resolve_eq_climb hcwd _
  rw [hparent, resolve_eq_climb hcwd]
  by_cases hne : p.segments = []
  · rw [hne]
    exact Nat.le_succ _
  · rw [← List.dropLast_concat_getLast hne, List.dropLast_concat, climb_concat]
    split
    · rw [List.length_dropLast]
      omega
    · exact Nat.le_of_eq List.length_append

/-! ### Segments -/

/-- The segments that are kept. -/
def kept (ss : List String) : List String := ss.filter fun s => s != "" && s != "."

theorem kept_eq_self (h : ∀ n ∈ ns, IsKept n) : kept ns = ns := by
  refine List.filter_eq_self.2 fun n hn => ?_
  simp [(h n hn).ne_empty, (h n hn).ne_dot]

theorem isKept_of_mem (h : s ∈ (ofText t).segments) : IsKept s := by
  obtain ⟨hmem, hkept⟩ := List.mem_filter.1 h
  rw [Bool.and_eq_true, bne_iff_ne, bne_iff_ne] at hkept
  exact ⟨hkept.1, hkept.2, Text.no_slash_of_mem_split hmem⟩

theorem segments_joinWith (hne : ns ≠ []) (h : ∀ n ∈ ns, '/' ∉ n.toList) :
    (ofText (Text.joinWith "/" ns)).segments = kept ns := by
  rw [ofText, Text.split_joinWith hne h]
  rfl

/-- Where a path that was read leads, there are names. -/
theorem isKept_of_mem_resolve (hcwd : ∀ n ∈ cwd, IsKept n ∧ n ≠ "..") {t n : String}
    (h : n ∈ resolve cwd (ofText t)) : IsKept n ∧ n ≠ ".." := by
  rw [FileTree.resolve_eq_climb fun m hm => (hcwd m hm).2] at h
  rcases FileTree.mem_climb h with h | ⟨h, hdots⟩
  · split at h
    · exact absurd h List.not_mem_nil
    · exact hcwd n h
  · exact ⟨isKept_of_mem h, hdots⟩

/-- Two places share a start, and behind it they part. -/
theorem exists_parting (start target : Location) : ∃ shared up down, start = shared ++ up ∧
    target = shared ++ down ∧ between start target = List.replicate up.length ".." ++ down ∧
    ∀ n, up.head? = some n → down.head? ≠ some n := by
  induction start, target using between.induct with
  | case1 ss s ts ih =>
    obtain ⟨shared, up, down, hup, hdown, hway, hpart⟩ := ih
    refine ⟨s :: shared, up, down, by rw [hup]; rfl, by rw [hdown]; rfl, ?_, hpart⟩
    rw [between, if_pos rfl, hway]
  | case2 s ss t ts hst =>
    refine ⟨[], s :: ss, t :: ts, rfl, rfl, ?_, ?_⟩
    · rw [between, if_neg hst]
      rfl
    · intro n hn hn'
      exact hst ((Option.some.inj hn).trans (Option.some.inj hn').symm)
  | case3 ss ts hnil =>
    refine ⟨[], ss, ts, rfl, rfl, ?_, ?_⟩
    · unfold between
      split
      · rename_i s ss t ts
        exact (hnil s ss t ts rfl rfl).elim
      · rfl
    · intro n hn hn'
      cases ss with
      | nil => cases hn
      | cons s ss =>
        cases ts with
        | nil => cases hn'
        | cons t ts => exact (hnil s ss t ts rfl rfl).elim

theorem not_isPrefix_of_parting (shared : List String) {up down : List String}
    (hpart : ∀ n, up.head? = some n → down.head? ≠ some n) (hdown : down ≠ []) :
    ¬ shared ++ down <+: shared ++ up := by
  rw [List.prefix_append_right_inj]
  rintro ⟨rest, rfl⟩
  obtain ⟨d, ds, rfl⟩ := List.exists_cons_of_ne_nil hdown
  exact hpart d rfl rfl

theorem climb_back (shared up : List String) (k : Nat) (hk : k = up.length) :
    climb (shared ++ up) (List.replicate k "..") = shared := by
  rw [climb_up, List.length_append, hk, Nat.add_sub_cancel, List.take_left]

theorem mem_between {start target : Location} {n : String} (h : n ∈ between start target) :
    n = ".." ∨ n ∈ target := by
  obtain ⟨shared, up, down, -, rfl, hway, -⟩ := exists_parting start target
  rw [hway] at h
  exact (List.mem_append.1 h).imp List.eq_of_mem_replicate (List.mem_append_right _)

theorem rootOf_append (r : PathRoot) {cs : List Char} (h : cs.head? ≠ some '/') :
    rootOf ((PathRoot.text r).toList ++ cs) = r := by
  have hfirst : ∀ c, cs.head? = some c → c ≠ '/' := by
    rintro c hc rfl
    exact h hc
  cases cs with
  | nil => cases r <;> rfl
  | cons c cs =>
    have hc := hfirst c rfl
    cases r with
    | here => simp [PathRoot.text, rootOf, hc]
    | slash => simp [PathRoot.text, rootOf, hc]
    | twoSlashes => simp [PathRoot.text, rootOf, hc]

theorem kept_split_root (r : PathRoot) (s : String) :
    kept (Text.split '/' (PathRoot.text r ++ s)) = kept (Text.split '/' s) := by
  cases r with
  | here => rw [PathRoot.text, String.empty_append]
  | slash => simp [PathRoot.text, Text.split, Text.splitOn, kept]
  | twoSlashes => simp [PathRoot.text, Text.split, Text.splitOn, kept]

theorem ofText_root_append (r : PathRoot) (hne : ns ≠ []) (h : ∀ n ∈ ns, '/' ∉ n.toList)
    (hfirst : ∀ rest, ns = "" :: rest → rest = []) :
    ofText (PathRoot.text r ++ Text.joinWith "/" ns) = ⟨r, kept ns⟩ := by
  have hhead : (Text.joinWith "/" ns).toList.head? ≠ some '/' := by
    obtain ⟨n, rest, rfl⟩ := List.exists_cons_of_ne_nil hne
    by_cases hn : n = ""
    · subst hn
      rw [hfirst rest rfl]
      decide
    · rw [Text.head?_joinWith hn]
      exact fun hslash => h n (by simp) (List.mem_of_mem_head? hslash)
  have hroot := rootOf_append r hhead
  have hsegments : kept (Text.split '/' (PathRoot.text r ++ Text.joinWith "/" ns)) = kept ns := by
    rw [kept_split_root, Text.split_joinWith hne h]
  rw [← String.toList_append] at hroot
  exact congrArg₂ Path.mk hroot hsegments

theorem text_of_segments (h : p.segments ≠ []) :
    p.text = PathRoot.text p.root ++ Text.joinWith "/" p.segments :=
  if_neg fun hempty => h hempty.2

end Path
end QueryTypes
