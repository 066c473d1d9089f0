import QueryTypes.Glob.Walk
import QueryTypes.Proofs.Glob.Matching
import QueryTypes.Proofs.Tree.Sound

/-!
# Patterns read segment by segment

A pattern of plain segments can be read as a list of segments, each for one name or, when it is
`**`, for any number of them. Matching the text of the pattern against the text of a path agrees
with that reading.
-/

namespace QueryTypes.Glob

/-- A segment that a walk and a match of whole texts both take for one name, or for any number of
names when it is `**`. -/
structure IsSegment (seg : String) : Prop where
  ne_empty : seg ≠ ""
  ne_dot : seg ≠ "."
  ne_dots : seg ≠ ".."
  no_slash : '/' ∉ seg.toList
  no_class : '[' ∉ seg.toList
  stars : seg = doubleStar ∨ hasStars seg = false

instance (seg : String) : Decidable (IsSegment seg) :=
  decidable_of_iff (seg ≠ "" ∧ seg ≠ "." ∧ seg ≠ ".." ∧ '/' ∉ seg.toList ∧ '[' ∉ seg.toList ∧
      (seg = doubleStar ∨ hasStars seg = false))
    ⟨fun ⟨h, h', h'', h₁, h₂, h₃⟩ => ⟨h, h', h'', h₁, h₂, h₃⟩,
      fun ⟨h, h', h'', h₁, h₂, h₃⟩ => ⟨h, h', h'', h₁, h₂, h₃⟩⟩

/-- A list of segments that leads to files: the last one stands for a name. -/
structure Leads (segs : List String) : Prop where
  ne_nil : segs ≠ []
  segment : ∀ seg ∈ segs, IsSegment seg
  last : segs.getLast? ≠ some doubleStar

instance (segs : List String) : Decidable (Leads segs) :=
  decidable_of_iff (segs ≠ [] ∧ (∀ seg ∈ segs, IsSegment seg) ∧ segs.getLast? ≠ some doubleStar)
    ⟨fun ⟨h, h', h''⟩ => ⟨h, h', h''⟩, fun ⟨h, h', h''⟩ => ⟨h, h', h''⟩⟩

/-- The names that a list of segments stands for. -/
inductive Fits : List String → List String → Prop
  | nil : Fits [] []
  | name {seg name : String} {segs names : List String} :
      seg ≠ doubleStar → nameMatches seg name = true → Fits segs names →
        Fits (seg :: segs) (name :: names)
  | stay {segs names : List String} : Fits segs names → Fits (doubleStar :: segs) names
  | descend {name : String} {segs names : List String} :
      Fits (doubleStar :: segs) names → Fits (doubleStar :: segs) (name :: names)

theorem Leads.tail {seg : String} {segs : List String} (h : Leads (seg :: segs)) (hne : segs ≠ []) :
    Leads segs where
  ne_nil := hne
  segment s hs := h.segment s (List.mem_cons_of_mem _ hs)
  last := by
    have hl := h.last
    rwa [List.getLast?_cons_of_ne_nil hne] at hl

theorem Leads.ne_doubleStar {seg : String} (h : Leads [seg]) : seg ≠ doubleStar := by
  intro hs
  exact h.last (by simp [hs])

theorem Leads.not_fits_nil {segs : List String} (h : Leads segs) : ¬ Fits segs [] := by
  intro hf
  induction segs with
  | nil => exact h.ne_nil rfl
  | cons seg segs ih =>
    cases hf with
    | stay hf =>
      by_cases hne : segs = []
      · subst hne
        exact h.ne_doubleStar rfl
      · exact ih (h.tail hne) hf

theorem fits_name_iff {seg name : String} {segs names : List String} (h : seg ≠ doubleStar) :
    Fits (seg :: segs) (name :: names) ↔ nameMatches seg name = true ∧ Fits segs names := by
  constructor
  · intro hf
    cases hf with
    | name _ hm hf => exact ⟨hm, hf⟩
    | stay => exact absurd rfl h
    | descend => exact absurd rfl h
  · rintro ⟨hm, hf⟩
    exact .name h hm hf

theorem fits_doubleStar_iff {segs names : List String} {name : String} :
    Fits (doubleStar :: segs) (name :: names) ↔
      Fits segs (name :: names) ∨ Fits (doubleStar :: segs) names := by
  constructor
  · intro hf
    cases hf with
    | name h => exact absurd rfl h
    | stay hf => exact .inl hf
    | descend hf => exact .inr hf
  · rintro (hf | hf)
    · exact .stay hf
    · exact .descend hf
/-! ## Names that a walk finds -/

theorem IsSegment.isPart {seg : String} (h : IsSegment seg) : IsPart seg := ⟨h.no_slash, h.stars⟩

theorem inline_of_isName {name : String} (h : IsName name) : IsInline name :=
  ⟨h.no_slash, h.no_line_end⟩

theorem mem_suffixes {r s : List Char} : r ∈ suffixes s ↔ ∃ m, s = m ++ r := by
  induction s with
  | nil => simp [suffixes, eq_comm]
  | cons c s ih =>
    rw [suffixes, List.mem_cons, ih]
    constructor
    · rintro (rfl | ⟨m, rfl⟩)
      · exact ⟨[], rfl⟩
      · exact ⟨c :: m, rfl⟩
    · rintro ⟨m, hm⟩
      cases m with
      | nil => exact .inl hm.symm
      | cons d m => exact .inr ⟨m, (List.cons.inj hm).2⟩

/-- Without classes, a segment matches the names that it stands for. -/
theorem matchName_iff_spells {seg name : List Char} (hclass : '[' ∉ seg) :
    matchName (namePieces seg.length seg) name = true ↔ Spells seg name := by
  induction seg generalizing name with
  | nil => simp [namePieces, matchName, spells_nil_iff]
  | cons c seg ih =>
    obtain ⟨hc, hseg⟩ := not_or.1 (mt List.mem_cons.2 hclass)
    have hbelow := fun {name} => @ih name hseg
    by_cases hstar : c = '*'
    · subst hstar
      simp only [List.length_cons, namePieces, if_true, matchName, List.any_eq_true, mem_suffixes,
        hbelow, spells_run_iff]
      constructor
      · rintro ⟨r, ⟨m, hm⟩, hs⟩
        exact ⟨m, r, hm, hs⟩
      · rintro ⟨m, r, hm, hs⟩
        exact ⟨r, ⟨m, hm⟩, hs⟩
    · by_cases hone : c = '?'
      · subst hone
        rw [spells_one_iff]
        cases name with
        | nil => simp [namePieces, matchName]
        | cons d name => simp [namePieces, matchName, NamePiece.accepts, hbelow]
      · rw [spells_char_iff hstar hone]
        cases name with
        | nil => simp [namePieces, matchName, hstar, hone, Ne.symm hc]
        | cons d name =>
          simp [namePieces, matchName, NamePiece.accepts, hstar, hone, Ne.symm hc, hbelow]

theorem IsSegment.nameMatches_iff {seg name : String} (h : IsSegment seg) :
    nameMatches seg name = true ↔ Spells seg.toList name.toList := by
  rw [nameMatches, ← String.length_toList]
  exact matchName_iff_spells h.no_class

/-! ## Whole patterns -/

theorem fits_doubleStar_split {segs names : List String} :
    Fits (doubleStar :: segs) names ↔ ∃ d rest, names = d ++ rest ∧ Fits segs rest := by
  constructor
  · intro h
    induction names with
    | nil =>
      cases h with
      | stay h => exact ⟨[], [], rfl, h⟩
    | cons n names ih =>
      rcases fits_doubleStar_iff.1 h with h | h
      · exact ⟨[], n :: names, rfl, h⟩
      · obtain ⟨d, rest, rfl, hf⟩ := ih h
        exact ⟨n :: d, rest, rfl, hf⟩
  · rintro ⟨d, rest, rfl, hf⟩
    induction d with
    | nil => exact .stay hf
    | cons n d ih => exact .descend ih

/-- Segments that lead to files fit the names that they stand for. -/
theorem Leads.fits_iff_covers {segs names : List String} (hsegs : Leads segs) (hne : names ≠ []) :
    Fits segs names ↔ Covers segs names := by
  induction segs generalizing names with
  | nil => exact absurd rfl hsegs.ne_nil
  | cons seg segs ih =>
    have hseg := hsegs.segment seg (by simp)
    by_cases hlast : segs = []
    · subst hlast
      have hd := hsegs.ne_doubleStar
      obtain ⟨name, names, rfl⟩ := List.exists_cons_of_ne_nil hne
      rw [fits_name_iff hd, covers_name_iff hd, hseg.nameMatches_iff, covers_nil_iff]
      constructor
      · rintro ⟨hs, hf⟩
        cases hf
        exact ⟨hs, rfl⟩
      · rintro ⟨hs, rfl⟩
        exact ⟨hs, .nil⟩
    · have htail := hsegs.tail hlast
      have hfit : ∀ rest, Fits segs rest ↔ Covers segs rest := by
        intro rest
        by_cases hrest : rest = []
        · subst hrest
          exact iff_of_false htail.not_fits_nil fun h => h.ne_nil hlast rfl
        · exact ih htail hrest
      by_cases hd : seg = doubleStar
      · subst hd
        simp only [fits_doubleStar_split, covers_dirs_iff hlast, hfit]
      · obtain ⟨name, names, rfl⟩ := List.exists_cons_of_ne_nil hne
        rw [fits_name_iff hd, covers_name_iff hd, hseg.nameMatches_iff, hfit]

/-- A pattern whose segments lead to files. -/
def IsPlain (pattern : String) : Prop := Leads (Text.split '/' pattern)

instance (pattern : String) : Decidable (IsPlain pattern) :=
  inferInstanceAs (Decidable (Leads (Text.split '/' pattern)))

/-- A pattern of plain segments matches the text of a path exactly if its segments fit the names. -/
theorem matchPath_iff_fits {pattern : String} (hp : IsPlain pattern) {names : List String}
    (hnames : ∀ n ∈ names, IsName n) (hne : names ≠ []) :
    matchPath pattern.toList (Text.joinWith "/" names).toList = true ↔
      Fits (Text.split '/' pattern) names := by
  have h := matchPieces_text_iff (fun seg hseg => (hp.segment seg hseg).isPart) hp.ne_nil
    (fun n hn => inline_of_isName (hnames n hn)) hne
  rw [text_split] at h
  rw [matchPath, Text.toList_joinWith, hp.fits_iff_covers hne]
  exact h

end QueryTypes.Glob
