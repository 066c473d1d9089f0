import Mathlib.Data.List.Forall2
import Mathlib.Data.List.Infix
import Mathlib.Data.List.TakeWhile
import QueryTypes.Proofs.Glob.Expansion
import QueryTypes.Proofs.Glob.Files

/-!
# Watched directories

A pattern matches nothing but paths that begin with its fixed segments, so it is enough to watch the
place they lead to, or the nearest one above it that is there. Of these places those are kept that
no other one lies above, and each of them lies below or at one that is kept.
-/

namespace QueryTypes

theorem FileTree.follow_eq {t : FileTree} {l m : Location} {p : List String}
    (hp : ∀ n ∈ p, n ≠ "" ∧ n ≠ "." ∧ n ≠ "..") (h : t.follow l p = some m) :
    m = l ++ p ∧ (p = [] ∨ t.has m = true) := by
  induction p generalizing l with
  | nil =>
    obtain rfl : l = m := by simpa [follow] using h
    simp
  | cons n p ih =>
    obtain ⟨hempty, hdot, hdots⟩ := hp n (by simp)
    have hrest := fun k hk => hp k (List.mem_cons_of_mem n hk)
    rw [follow] at h
    simp only [hempty, hdot, hdots, or_self, if_false] at h
    split at h
    · simp at h
    · split at h
      · rename_i hhas
        obtain ⟨rfl, hm⟩ := ih hrest h
        refine ⟨by simp, .inr ?_⟩
        rcases hm with rfl | hm
        · simpa using hhas
        · exact hm
      · simp at h

namespace Glob

/-! ## Fixed segments -/

/-- A segment that stands for itself. -/
def IsFixed (seg : String) : Prop := seg.toList.any isSpecial = false

theorem eq_of_spells {seg name : List Char} (hseg : seg.any isSpecial = false)
    (h : Spells seg name) : name = seg := by
  induction h with
  | nil => rfl
  | run => simp [isSpecial] at hseg
  | one => simp [isSpecial] at hseg
  | char _ _ _ ih =>
    rw [List.any_cons, Bool.or_eq_false_iff] at hseg
    rw [ih hseg.2]

theorem occurs_of_fixed {seg : List Char} (hseg : seg.any isSpecial = false) :
    Text.occurs ['*', '*'] seg = false := by
  induction seg with
  | nil => rfl
  | cons c seg ih =>
    rw [List.any_cons, Bool.or_eq_false_iff] at hseg
    have hc : ('*' == c) = false := by
      by_contra hstar
      obtain rfl : '*' = c := by simpa using hstar
      simp [isSpecial] at hseg
    simp [Text.occurs, List.isPrefixOf, ih hseg.2, hc]

theorem IsFixed.isPart {seg : String} (h : IsFixed seg) (hslash : '/' ∉ seg.toList) : IsPart seg :=
  ⟨hslash, .inr (occurs_of_fixed h)⟩

theorem IsFixed.ne_doubleStar {seg : String} (h : IsFixed seg) : seg ≠ doubleStar := by
  rintro rfl
  simp [IsFixed, doubleStar, isSpecial] at h

/-- What begins with segments that stand for themselves matches only paths that begin with them and
go on. -/
theorem exists_rest_of_matches {segs others names : List String} (hsegs : ∀ seg ∈ segs, IsFixed seg)
    (hslash : ∀ seg ∈ segs, '/' ∉ seg.toList) (hothers : others ≠ [])
    (hnames : ∀ n ∈ names, '/' ∉ n.toList) (hne : names ≠ [])
    (h : matchPieces (pieces (text (segs ++ others))) (text names) = true) :
    ∃ rest, rest ≠ [] ∧ names = segs ++ rest := by
  induction segs generalizing names with
  | nil => exact ⟨names, hne, rfl⟩
  | cons seg segs ih =>
    have hseg := hsegs seg (by simp)
    have hpart := hseg.isPart (hslash seg (by simp))
    obtain ⟨name, names, rfl⟩ := List.exists_cons_of_ne_nil hne
    have hname := hnames name (by simp)
    have hmore : segs ++ others ≠ [] := by simp [hothers]
    rw [List.cons_append, text_cons seg hmore, pieces_append_slash (occurs_of_fixed hseg),
      matchPieces_before_slash_iff hpart hseg.ne_doubleStar hname] at h
    obtain ⟨hrest, hspells, hm⟩ := h
    obtain rfl : name = seg := String.toList_inj.1 (eq_of_spells hseg hspells)
    obtain ⟨rest, hrest', rfl⟩ := ih (fun s hs => hsegs s (List.mem_cons_of_mem _ hs))
      (fun s hs => hslash s (List.mem_cons_of_mem _ hs))
      (fun n hn => hnames n (List.mem_cons_of_mem _ hn)) hrest hm
    exact ⟨rest, hrest', rfl⟩

/-- The segments in front that stand for themselves, without the last segment of the pattern. -/
def leading (pattern : String) : List String :=
  let parts := Text.split '/' pattern
  let plain := parts.takeWhile fun p => !p.toList.any isSpecial
  if plain.length = parts.length then plain.dropLast else plain

theorem fixedSegments_eq (pattern : String) :
    fixedSegments pattern = (leading pattern).filter fun p => p != "" && p != "." := rfl

theorem leading_spec (pattern : String) :
    (∀ seg ∈ leading pattern, IsFixed seg) ∧
      ∃ others, others ≠ [] ∧ Text.split '/' pattern = leading pattern ++ others := by
  unfold leading
  have hparts : Text.split '/' pattern ≠ [] := by simp [Text.split, Text.splitOn_ne_nil]
  generalize Text.split '/' pattern = parts at hparts
  have hplain : ∀ seg ∈ parts.takeWhile fun p => !p.toList.any isSpecial, IsFixed seg := by
    intro seg hseg
    simpa [IsFixed] using List.mem_takeWhile_imp hseg
  have hsplit := List.takeWhile_append_dropWhile (p := fun p => !p.toList.any isSpecial) (l := parts)
  dsimp only
  split
  next hlen =>
    -- the whole pattern stands for itself, and its last segment for a file
    have hall : (parts.takeWhile fun p => !p.toList.any isSpecial) = parts :=
      (List.takeWhile_prefix _).eq_of_length hlen
    rw [hall] at hplain ⊢
    exact ⟨fun seg hseg => hplain seg (List.mem_of_mem_dropLast hseg), [parts.getLast hparts],
      by simp, (List.dropLast_append_getLast hparts).symm⟩
  next hlen =>
    refine ⟨hplain, _, ?_, hsplit.symm⟩
    intro hnil
    rw [hnil, List.append_nil] at hsplit
    exact hlen (congrArg List.length hsplit)

/-- What a pattern matches begins with its fixed segments. -/
theorem fixedSegments_prefix {pattern : String} {rel : List String}
    (hrel : ∀ n ∈ rel, n ≠ "" ∧ n ≠ "." ∧ '/' ∉ n.toList)
    (h : matchPath pattern.toList (Path.relativeText rel).toList = true) :
    fixedSegments pattern <+: rel := by
  obtain ⟨hfixed, others, hothers, hsplit⟩ := leading_spec pattern
  have hslash : ∀ seg ∈ leading pattern, '/' ∉ seg.toList := fun seg hseg =>
    Text.no_slash_of_mem_split (hsplit ▸ List.mem_append_left others hseg)
  have hmatch : ∀ names, names ≠ [] → (∀ n ∈ names, '/' ∉ n.toList) →
      matchPath pattern.toList (text names) = true → ∃ rest, rest ≠ [] ∧
        names = leading pattern ++ rest := by
    intro names hne hnames hm
    rw [matchPath, ← text_split pattern, hsplit] at hm
    exact exists_rest_of_matches hfixed hslash hothers hnames hne hm
  rw [fixedSegments_eq]
  by_cases hne : rel = []
  · -- the root itself is written as a dot, which no slash follows
    subst hne
    obtain ⟨rest, hrest, hdot⟩ := hmatch ["."] (by simp) (by decide) h
    have hlead : leading pattern = [] := by
      have hlen := congrArg List.length hdot
      have hpos := List.length_pos_iff.2 hrest
      rw [List.length_append, List.length_singleton] at hlen
      exact List.length_eq_zero_iff.1 (by omega)
    simp [hlead]
  · have hshown : (Path.relativeText rel).toList = text rel := by
      rw [show Path.relativeText rel = Text.joinWith "/" rel by cases rel <;> simp_all [Path.relativeText],
        Text.toList_joinWith]
      rfl
    rw [hshown] at h
    obtain ⟨rest, -, rfl⟩ := hmatch rel hne (fun n hn => (hrel n hn).2.2) h
    rw [List.filter_eq_self.2]
    · exact List.prefix_append _ _
    · intro seg hseg
      obtain ⟨hempty, hdot, -⟩ := hrel seg (List.mem_append_left rest hseg)
      simp [hempty, hdot]

end Glob

namespace GlobSet

/-! ## The nearest place that is there -/

/-- The way from a path upwards, to the first place that is there or to the root. -/
inductive Climbs (t : FileTree) (root : Location) : List String → List String → Prop
  | stop {p : List String} : p = [] ∨ (t.follow root p).isSome = true → Climbs t root p p
  | up {p q : List String} : p ≠ [] → (t.follow root p).isSome = false →
      Climbs t root p.dropLast q → Climbs t root p q

variable {g : GlobSet} {t : FileTree} {root : Location} {p q : List String}

theorem climbs_nearest {n : Nat} (h : p.length ≤ n) : Climbs t root p (nearest t root n p) := by
  induction n generalizing p with
  | zero => exact .stop (.inl (List.length_eq_zero_iff.1 (Nat.le_zero.1 h)))
  | succ n ih =>
    rw [nearest]
    split
    next hstop => exact .stop (by simpa using hstop)
    next hgo =>
      rw [Bool.or_eq_true, not_or, List.isEmpty_iff, Bool.not_eq_true] at hgo
      refine .up hgo.1 hgo.2 (ih ?_)
      rw [List.length_dropLast]
      omega

theorem Climbs.above (h : Climbs t root p q) : q <+: p := by
  induction h with
  | stop => exact List.prefix_rfl
  | up _ _ _ ih => exact ih.trans (List.dropLast_prefix _)

theorem Climbs.reached (h : Climbs t root p q) : q = [] ∨ (t.follow root q).isSome = true := by
  induction h with
  | stop hstop => exact hstop
  | up _ _ _ ih => exact ih

/-! ## The uppermost places -/

/-- A place of a list that no other one lies above. -/
def Uppermost (places : List Location) (l : Location) : Prop :=
  l ∈ places ∧ ∀ other ∈ places, other <+: l → other = l

theorem exists_uppermost {places : List Location} {l : Location} (h : l ∈ places) :
    ∃ top, Uppermost places top ∧ top <+: l := by
  induction hlen : l.length using Nat.strong_induction_on generalizing l with
  | _ n ih =>
    by_cases htop : ∀ other ∈ places, other <+: l → other = l
    · exact ⟨l, ⟨h, htop⟩, List.prefix_rfl⟩
    · push Not at htop
      obtain ⟨other, hother, hle, hne⟩ := htop
      have hlt : other.length < n := by
        rw [← hlen]
        exact lt_of_le_of_ne hle.length_le fun heq => hne (hle.eq_of_length heq)
      obtain ⟨top, hup, htop⟩ := ih _ hlt hother rfl
      exact ⟨top, hup, htop.trans hle⟩

/-- Where the patterns lead to: the nearest places at or above their fixed segments. -/
def starts (g : GlobSet) (t : FileTree) : List Location :=
  g.includes.map fun p =>
    g.root ++ nearest t g.root (Glob.fixedSegments p).length (Glob.fixedSegments p)

theorem watchRoots_eq (g : GlobSet) (t : FileTree) : g.watchRoots t =
    (g.starts t).eraseDups.filter fun r =>
      !(g.starts t).eraseDups.any fun other => other != r && other.isPrefixOf r := rfl

theorem mem_watchRoots_iff {r : Location} :
    r ∈ g.watchRoots t ↔ Uppermost (g.starts t) r := by
  rw [watchRoots_eq, List.mem_filter, List.mem_eraseDups, Uppermost]
  apply and_congr_right
  intro _
  rw [Bool.not_eq_true', List.any_eq_false]
  simp only [List.mem_eraseDups, Bool.and_eq_true, bne_iff_ne, List.isPrefixOf_iff_prefix]
  apply forall₂_congr
  intro other _
  tauto

theorem pairwise_watchRoots : (g.watchRoots t).Pairwise fun r s => ¬ r <+: s ∧ ¬ s <+: r := by
  have hnodup : (g.watchRoots t).Nodup := by
    rw [watchRoots_eq]
    exact (Text.nodup_eraseDups _).filter _
  refine List.Pairwise.imp_of_mem ?_ hnodup
  intro r s hr hs hne
  obtain ⟨hr, hrtop⟩ := mem_watchRoots_iff.1 hr
  obtain ⟨hs, hstop⟩ := mem_watchRoots_iff.1 hs
  exact ⟨fun h => hne (hstop r hr h), fun h => hne (hrtop s hs h).symm⟩

/-- A pattern that matches a place leads to one above it. -/
theorem exists_start_of_matches {l : Location} (hl : ∀ n ∈ l, n ≠ "" ∧ n ≠ "." ∧ '/' ∉ n.toList)
    (h : g.matchesLocation l = true) : ∃ r ∈ g.starts t, r <+: l := by
  rw [matchesLocation, relative?, Path.below?] at h
  by_cases hroot : g.root.isPrefixOf l = true
  · obtain ⟨rel, rfl⟩ := List.isPrefixOf_iff_prefix.1 hroot
    rw [if_pos hroot, List.drop_left, Option.map_some, Bool.and_eq_true, isIncluded,
      List.any_eq_true] at h
    obtain ⟨⟨p, hp, hm⟩, -⟩ := h
    have hfixed := Glob.fixedSegments_prefix (fun n hn => hl n (List.mem_append_right _ hn)) hm
    have hclimb : Climbs t g.root _ _ := climbs_nearest (p := Glob.fixedSegments p) le_rfl
    have hnear := hclimb.above.trans hfixed
    exact ⟨_, List.mem_map.2 ⟨p, hp, rfl⟩, (List.prefix_append_right_inj _).2 hnear⟩
  · simp [hroot] at h

/-- What the patterns lead to is the root or is there. -/
theorem has_of_mem_starts (hdots : ∀ p ∈ g.includes, ".." ∉ Text.split '/' p) {r : Location}
    (hr : r ∈ g.starts t) : r = g.root ∨ t.has r = true := by
  obtain ⟨p, hp, rfl⟩ := List.mem_map.1 hr
  have hclimb : Climbs t g.root _ _ := climbs_nearest (p := Glob.fixedSegments p) le_rfl
  have hnames : ∀ n ∈ nearest t g.root (Glob.fixedSegments p).length (Glob.fixedSegments p),
      n ≠ "" ∧ n ≠ "." ∧ n ≠ ".." := by
    intro n hn
    have hmem := hclimb.above.subset hn
    rw [Glob.fixedSegments_eq, List.mem_filter, Bool.and_eq_true, bne_iff_ne, bne_iff_ne] at hmem
    obtain ⟨hlead, hempty, hdot⟩ := hmem
    obtain ⟨-, others, -, hsplit⟩ := Glob.leading_spec p
    refine ⟨hempty, hdot, ?_⟩
    rintro rfl
    exact hdots p hp (hsplit ▸ List.mem_append_left others hlead)
  rcases hclimb.reached with hnil | hsome
  · exact .inl (by rw [hnil, List.append_nil])
  · obtain ⟨m, hm⟩ := Option.isSome_iff_exists.1 hsome
    obtain ⟨rfl, hnil | hhas⟩ := FileTree.follow_eq hnames hm
    · exact .inl (by rw [hnil, List.append_nil])
    · exact .inr hhas

/-- Everything that the patterns match, there or not, lies at or below a watched place; each watched
place is the root or is there, and none of them lies at or below another one. The watched places are
the uppermost ones of those that the climb from the fixed segments of each pattern ends at. -/
theorem watchRoots_cover (g : GlobSet) (t : FileTree)
    (hdots : ∀ p ∈ g.includes, ".." ∉ Text.split '/' p) :
    (∃ tops, List.Forall₂ (fun p top => Climbs t g.root (Glob.fixedSegments p) top) g.includes tops ∧
      ∀ r, r ∈ g.watchRoots t ↔ Uppermost (tops.map (g.root ++ ·)) r) ∧
    (∀ l : Location, (∀ n ∈ l, n ≠ "" ∧ n ≠ "." ∧ '/' ∉ n.toList) →
      g.matchesLocation l = true → ∃ r ∈ g.watchRoots t, r <+: l) ∧
    (∀ r ∈ g.watchRoots t, r = g.root ∨ t.has r = true) ∧
    (g.watchRoots t).Pairwise fun r s => ¬ r <+: s ∧ ¬ s <+: r := by
  refine ⟨?_, ?_, ?_, pairwise_watchRoots⟩
  · refine ⟨g.includes.map fun p =>
      nearest t g.root (Glob.fixedSegments p).length (Glob.fixedSegments p), ?_, ?_⟩
    · rw [List.forall₂_map_right_iff, List.forall₂_same]
      exact fun p _ => climbs_nearest le_rfl
    · intro r
      rw [mem_watchRoots_iff, List.map_map]
      rfl
  · intro l hl hm
    obtain ⟨r, hr, hle⟩ := exists_start_of_matches (t := t) hl hm
    obtain ⟨top, htop, hup⟩ := exists_uppermost hr
    exact ⟨top, mem_watchRoots_iff.2 htop, hup.trans hle⟩
  · intro r hr
    exact has_of_mem_starts hdots (mem_watchRoots_iff.1 hr).1

def appFolders : FileTree :=
  ⟨[(["p"], .dir), (["p", "src"], .dir), (["p", "src", "app"], .dir), (["p", "lib"], .dir)]⟩

/-- One place is left out that lies below another one, and a missing one is covered from above. -/
theorem watchRoots_cover_missing :
    let g := ofPatterns ["p"] ["src/app/**/*.ts", "src/*.graphql", "lib/new/*.\x7bgql,graphql\x7d"] []
    (∀ p ∈ g.includes, ".." ∉ Text.split '/' p) ∧
      g.watchRoots appFolders = [["p", "src"], ["p", "lib"]] ∧
      (∃ r ∈ g.watchRoots appFolders, r <+: ["p", "lib", "new", "a.gql"]) ∧
      ∃ r ∈ g.watchRoots appFolders, r <+: ["p", "src", "app", "main.ts"] := by
  intro g
  have hdots : ∀ p ∈ g.includes, ".." ∉ Text.split '/' p := by decide +kernel
  obtain ⟨-, hcover, -, -⟩ := watchRoots_cover g appFolders hdots
  exact ⟨hdots, by decide +kernel, hcover _ (by decide) (by decide +kernel),
    hcover _ (by decide) (by decide +kernel)⟩

end GlobSet
end QueryTypes
