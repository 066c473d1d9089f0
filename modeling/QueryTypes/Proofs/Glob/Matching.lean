import QueryTypes.Glob.Pattern
import QueryTypes.Glob.Walk
import QueryTypes.Proofs.Text.Fields

/-!
# What patterns stand for

A pattern is a list of segments: `**` in front of others stands for any number of names, at the end
for one or more, and any other segment for one name, character by character. Matching the text of a
pattern against the text of a path agrees with that reading: nothing that a piece of a segment takes
goes beyond a slash, and directories end where a name ends.
-/

namespace QueryTypes.Glob

def doubleStar : String := "**"

/-- A segment of a pattern: `**`, or a text without two stars in a row. -/
structure IsPart (seg : String) : Prop where
  no_slash : '/' ∉ seg.toList
  stars : seg = doubleStar ∨ hasStars seg = false

instance (seg : String) : Decidable (IsPart seg) :=
  decidable_of_iff ('/' ∉ seg.toList ∧ (seg = doubleStar ∨ hasStars seg = false))
    ⟨fun ⟨h, h'⟩ => ⟨h, h'⟩, fun ⟨h, h'⟩ => ⟨h, h'⟩⟩

/-- A name that a line can hold. -/
structure IsInline (name : String) : Prop where
  no_slash : '/' ∉ name.toList
  no_line_end : '\n' ∉ name.toList

instance (name : String) : Decidable (IsInline name) :=
  decidable_of_iff ('/' ∉ name.toList ∧ '\n' ∉ name.toList)
    ⟨fun ⟨h, h'⟩ => ⟨h, h'⟩, fun ⟨h, h'⟩ => ⟨h, h'⟩⟩

/-- The names that a segment stands for: a star takes any run of characters, a question mark any
character, and every other character itself. -/
inductive Spells : List Char → List Char → Prop
  | nil : Spells [] []
  | run (m : List Char) {seg name : List Char} : Spells seg name → Spells ('*' :: seg) (m ++ name)
  | one (c : Char) {seg name : List Char} : Spells seg name → Spells ('?' :: seg) (c :: name)
  | char {c : Char} {seg name : List Char} :
      c ≠ '*' → c ≠ '?' → Spells seg name → Spells (c :: seg) (c :: name)

/-- The lists of names that a list of segments stands for. -/
inductive Covers : List String → List String → Prop
  | nil : Covers [] []
  | name {seg name : String} {segs names : List String} :
      seg ≠ doubleStar → Spells seg.toList name.toList → Covers segs names →
        Covers (seg :: segs) (name :: names)
  | dirs (front : List String) {segs names : List String} :
      segs ≠ [] → Covers segs names → Covers (doubleStar :: segs) (front ++ names)
  | rest {names : List String} : names ≠ [] → Covers [doubleStar] names

theorem Covers.ne_nil {segs names : List String} (h : Covers segs names) (hne : segs ≠ []) :
    names ≠ [] := by
  induction h with
  | nil => exact hne
  | name => simp
  | dirs front hsegs _ ih => simp [ih hsegs]
  | rest hnames => exact hnames

theorem covers_nil_iff {names : List String} : Covers [] names ↔ names = [] := by
  constructor
  · intro h
    cases h
    rfl
  · rintro rfl
    exact .nil

theorem covers_name_iff {seg name : String} {segs names : List String} (h : seg ≠ doubleStar) :
    Covers (seg :: segs) (name :: names) ↔
      Spells seg.toList name.toList ∧ Covers segs names := by
  constructor
  · intro hc
    generalize hall : name :: names = all at hc
    cases hc with
    | name _ hs hc =>
      obtain ⟨rfl, rfl⟩ := List.cons.inj hall
      exact ⟨hs, hc⟩
    | dirs => exact absurd rfl h
    | rest => exact absurd rfl h
  · rintro ⟨hs, hc⟩
    exact .name h hs hc

theorem covers_dirs_iff {segs names : List String} (h : segs ≠ []) :
    Covers (doubleStar :: segs) names ↔ ∃ front rest, names = front ++ rest ∧ Covers segs rest := by
  constructor
  · intro hc
    cases hc with
    | name hd => exact absurd rfl hd
    | dirs front _ hc => exact ⟨front, _, rfl, hc⟩
    | rest => exact absurd rfl h
  · rintro ⟨front, rest, rfl, hc⟩
    exact .dirs front h hc

theorem covers_rest_iff {names : List String} : Covers [doubleStar] names ↔ names ≠ [] := by
  constructor
  · intro hc
    exact hc.ne_nil (by simp)
  · exact .rest

/-! ## Pieces of one segment -/

/-- A piece that never takes a slash. -/
def Piece.Inner : Piece → Prop
  | run | one => True
  | char c => c ≠ '/'
  | dirs | anything => False

theorem pieces_inner {seg : List Char} (hslash : '/' ∉ seg)
    (hstars : Text.occurs ['*', '*'] seg = false) : ∀ p ∈ pieces seg, p.Inner := by
  fun_induction pieces seg with
  | case1 r => simp [Text.occurs] at hstars
  | case2 r => simp [Text.occurs] at hstars
  | case3 r _ _ ih =>
    simp only [Text.occurs, Bool.or_eq_false_iff] at hstars
    have hr := ih (fun h => hslash (List.mem_cons_of_mem _ h)) hstars.2
    simpa [Piece.Inner] using hr
  | case4 r ih =>
    simp only [Text.occurs, Bool.or_eq_false_iff] at hstars
    have hr := ih (fun h => hslash (List.mem_cons_of_mem _ h)) hstars.2
    simpa [Piece.Inner] using hr
  | case5 c r _ _ _ _ ih =>
    simp only [Text.occurs, Bool.or_eq_false_iff] at hstars
    have hr := ih (fun h => hslash (List.mem_cons_of_mem _ h)) hstars.2
    have hc : c ≠ '/' := fun h => hslash (by simp [h])
    simpa [Piece.Inner, hc] using hr
  | case6 => simp

/-- A segment before a slash is read apart from what follows the slash. -/
theorem pieces_append_slash {seg : List Char} (hstars : Text.occurs ['*', '*'] seg = false)
    (r : List Char) : pieces (seg ++ '/' :: r) = pieces seg ++ .char '/' :: pieces r := by
  induction seg with
  | nil => simp [pieces]
  | cons c seg ih =>
    simp only [Text.occurs, Bool.or_eq_false_iff] at hstars
    have hr := ih hstars.2
    by_cases hstar : c = '*'
    · subst hstar
      cases seg with
      | nil => simp [pieces]
      | cons d seg =>
        have hd : d ≠ '*' := by
          rintro rfl
          simp at hstars
        simp only [List.cons_append] at hr ⊢
        simp [pieces, hd, hr]
    · by_cases hone : c = '?'
      · subst hone
        simpa [pieces] using hr
      · simpa [pieces, hstar, hone] using hr

/-- The texts that an inner piece stands for. -/
def Piece.Takes (m : List Char) : Piece → Prop
  | run => True
  | one => m.length = 1
  | char c => m = [c]
  | dirs | anything => False

theorem mem_restsAfter {p : Char → Bool} {r s : List Char} :
    r ∈ restsAfter p s ↔ ∃ m, s = m ++ r ∧ ∀ c ∈ m, p c = true := by
  induction s with
  | nil =>
    simp only [restsAfter, List.mem_singleton, List.nil_eq_append_iff]
    constructor
    · rintro rfl
      exact ⟨[], ⟨rfl, rfl⟩, by simp⟩
    · rintro ⟨m, ⟨-, hr⟩, -⟩
      exact hr
  | cons c s ih =>
    simp only [restsAfter, List.mem_cons]
    constructor
    · rintro (rfl | hr)
      · exact ⟨[], rfl, by simp⟩
      · split at hr
        next hc =>
          obtain ⟨m, rfl, hm⟩ := ih.1 hr
          exact ⟨c :: m, rfl, by simpa [hc] using hm⟩
        · simp at hr
    · rintro ⟨m, hs, hm⟩
      cases m with
      | nil => exact .inl hs.symm
      | cons d m =>
        obtain ⟨rfl, rfl⟩ := List.cons.inj hs
        rw [if_pos (hm c (by simp))]
        exact .inr (ih.2 ⟨m, rfl, fun x hx => hm x (List.mem_cons_of_mem _ hx)⟩)

theorem Piece.mem_rests_iff {p : Piece} (hp : p.Inner) {r s : List Char} :
    r ∈ p.rests s ↔ ∃ m, s = m ++ r ∧ '/' ∉ m ∧ p.Takes m := by
  cases p with
  | dirs => exact absurd hp id
  | anything => exact absurd hp id
  | run =>
    simp only [Piece.rests, mem_restsAfter, Piece.Takes, and_true, bne_iff_ne, ne_eq]
    constructor
    · rintro ⟨m, hs, hm⟩
      exact ⟨m, hs, fun h => hm _ h rfl⟩
    · rintro ⟨m, hs, hm⟩
      exact ⟨m, hs, fun c hc h => hm (h ▸ hc)⟩
  | one =>
    constructor
    · intro hr
      cases s with
      | nil => simp [Piece.rests] at hr
      | cons c s =>
        by_cases hc : c = '/'
        · simp [Piece.rests, hc] at hr
        · simp only [Piece.rests, if_neg hc, List.mem_singleton] at hr
          exact ⟨[c], by simp [hr], by simpa using Ne.symm hc, rfl⟩
    · rintro ⟨m, rfl, hm, hlen⟩
      obtain ⟨c, rfl⟩ := List.length_eq_one_iff.1 hlen
      have hc : c ≠ '/' := fun h => hm (by simp [h])
      simp [Piece.rests, hc]
  | char d =>
    constructor
    · intro hr
      cases s with
      | nil => simp [Piece.rests] at hr
      | cons c s =>
        by_cases hc : c = d
        · simp only [Piece.rests, if_pos hc, List.mem_singleton] at hr
          exact ⟨[c], by simp [hr], by simpa [hc] using Ne.symm hp, by simp [Piece.Takes, hc]⟩
        · simp [Piece.rests, hc] at hr
    · rintro ⟨m, rfl, -, rfl⟩
      simp [Piece.rests]

theorem matchPieces_cons_iff {p : Piece} (hp : p.Inner) {ps : List Piece} {s : List Char} :
    matchPieces (p :: ps) s = true ↔
      ∃ m r, s = m ++ r ∧ '/' ∉ m ∧ p.Takes m ∧ matchPieces ps r = true := by
  simp only [matchPieces, List.any_eq_true, Piece.mem_rests_iff hp]
  constructor
  · rintro ⟨r, ⟨m, hs, hm, ht⟩, hr⟩
    exact ⟨m, r, hs, hm, ht, hr⟩
  · rintro ⟨m, r, hs, hm, ht, hr⟩
    exact ⟨r, ⟨m, hs, hm, ht⟩, hr⟩

/-- Inner pieces match a text up to its first slash at most. -/
theorem matchPieces_append_iff {qs : List Piece} (hqs : ∀ p ∈ qs, p.Inner) {ps : List Piece}
    {s : List Char} :
    matchPieces (qs ++ ps) s = true ↔
      ∃ n r, s = n ++ r ∧ '/' ∉ n ∧ matchPieces qs n = true ∧ matchPieces ps r = true := by
  induction qs generalizing s with
  | nil =>
    constructor
    · intro h
      exact ⟨[], s, rfl, by simp, rfl, h⟩
    · rintro ⟨n, r, rfl, -, hn, hr⟩
      obtain rfl : n = [] := by simpa [matchPieces] using hn
      exact hr
  | cons p qs ih =>
    have hp := hqs p (by simp)
    have ih' := fun {s} => ih (fun q hq => hqs q (List.mem_cons_of_mem _ hq)) (s := s)
    rw [List.cons_append, matchPieces_cons_iff hp]
    constructor
    · rintro ⟨m, t, rfl, hm, ht, hmatch⟩
      obtain ⟨n, r, rfl, hn, hq, hr⟩ := ih'.1 hmatch
      refine ⟨m ++ n, r, by simp, by simp [hm, hn], ?_, hr⟩
      exact (matchPieces_cons_iff hp).2 ⟨m, n, rfl, hm, ht, hq⟩
    · rintro ⟨n, r, rfl, hn, hq, hr⟩
      obtain ⟨m, t, rfl, hm, ht, ht'⟩ := (matchPieces_cons_iff hp).1 hq
      have htn : '/' ∉ t := fun h => hn (List.mem_append_right _ h)
      exact ⟨m, t ++ r, by simp, hm, ht, ih'.2 ⟨t, r, rfl, htn, ht', hr⟩⟩

theorem spells_nil_iff {name : List Char} : Spells [] name ↔ name = [] := by
  constructor
  · intro h
    cases h
    rfl
  · rintro rfl
    exact .nil

theorem spells_run_iff {seg name : List Char} :
    Spells ('*' :: seg) name ↔ ∃ m rest, name = m ++ rest ∧ Spells seg rest := by
  constructor
  · intro h
    cases h with
    | run m h => exact ⟨m, _, rfl, h⟩
    | char hstar => exact absurd rfl hstar
  · rintro ⟨m, rest, rfl, h⟩
    exact .run m h

theorem spells_one_iff {seg name : List Char} :
    Spells ('?' :: seg) name ↔ ∃ c rest, name = c :: rest ∧ Spells seg rest := by
  constructor
  · intro h
    cases h with
    | one c h => exact ⟨c, _, rfl, h⟩
    | char _ hone => exact absurd rfl hone
  · rintro ⟨c, rest, rfl, h⟩
    exact .one c h

theorem spells_char_iff {c : Char} {seg name : List Char} (hstar : c ≠ '*') (hone : c ≠ '?') :
    Spells (c :: seg) name ↔ ∃ rest, name = c :: rest ∧ Spells seg rest := by
  constructor
  · intro h
    cases h with
    | run => exact absurd rfl hstar
    | one => exact absurd rfl hone
    | char _ _ h => exact ⟨_, rfl, h⟩
  · rintro ⟨rest, rfl, h⟩
    exact .char hstar hone h

theorem pieces_run {seg : List Char} (hstars : Text.occurs ['*', '*'] ('*' :: seg) = false) :
    pieces ('*' :: seg) = .run :: pieces seg := by
  cases seg with
  | nil => rfl
  | cons d seg =>
    have hd : d ≠ '*' := by
      rintro rfl
      simp [Text.occurs] at hstars
    simp [pieces, hd]

/-- The pieces of a segment match the names that it stands for. -/
theorem matchPieces_iff_spells {seg : List Char} (hstars : Text.occurs ['*', '*'] seg = false)
    (hslash : '/' ∉ seg) {name : List Char} (hname : '/' ∉ name) :
    matchPieces (pieces seg) name = true ↔ Spells seg name := by
  induction seg generalizing name with
  | nil => simp [pieces, matchPieces, spells_nil_iff]
  | cons c seg ih =>
    obtain ⟨hc, hseg⟩ := not_or.1 (mt List.mem_cons.2 hslash)
    have hrest : Text.occurs ['*', '*'] seg = false := by
      simp only [Text.occurs, Bool.or_eq_false_iff] at hstars
      exact hstars.2
    have hbelow : ∀ m r, name = m ++ r → (matchPieces (pieces seg) r = true ↔ Spells seg r) :=
      fun m r h => ih hrest hseg fun hr => hname (h ▸ List.mem_append_right m hr)
    by_cases hstar : c = '*'
    · subst hstar
      rw [pieces_run hstars, matchPieces_cons_iff (p := .run) trivial, spells_run_iff]
      constructor
      · rintro ⟨m, r, hr, -, -, hm⟩
        exact ⟨m, r, hr, (hbelow m r hr).1 hm⟩
      · rintro ⟨m, r, hr, hs⟩
        exact ⟨m, r, hr, fun h => hname (hr ▸ List.mem_append_left r h), trivial,
          (hbelow m r hr).2 hs⟩
    · by_cases hone : c = '?'
      · subst hone
        have hp : pieces ('?' :: seg) = .one :: pieces seg := by simp [pieces]
        rw [hp, matchPieces_cons_iff (p := .one) trivial, spells_one_iff]
        constructor
        · rintro ⟨m, r, hr, -, hlen, hm⟩
          obtain ⟨d, rfl⟩ := List.length_eq_one_iff.1 hlen
          exact ⟨d, r, hr, (hbelow [d] r hr).1 hm⟩
        · rintro ⟨d, r, hr, hs⟩
          have hd : '/' ∉ [d] := fun h => hname (by rw [hr, List.mem_singleton.1 h]; simp)
          exact ⟨[d], r, hr, hd, rfl, (hbelow [d] r hr).2 hs⟩
      · have hp : pieces (c :: seg) = .char c :: pieces seg := by simp [pieces, hstar]
        rw [hp, matchPieces_cons_iff (p := .char c) (Ne.symm hc), spells_char_iff hstar hone]
        constructor
        · rintro ⟨m, r, hr, -, rfl, hm⟩
          exact ⟨r, hr, (hbelow [c] r hr).1 hm⟩
        · rintro ⟨r, hr, hs⟩
          exact ⟨[c], r, hr, by simpa using hc, rfl, (hbelow [c] r hr).2 hs⟩

/-! ## Whole patterns -/

def text (parts : List String) : List Char := Text.joinOn '/' (parts.map String.toList)

theorem text_singleton (part : String) : text [part] = part.toList := by simp [text, Text.joinOn]

theorem text_cons (part : String) {parts : List String} (h : parts ≠ []) :
    text (part :: parts) = part.toList ++ '/' :: text parts := by
  simp only [text, List.map_cons]
  exact Text.joinOn_cons _ (by simpa using h)

theorem text_split (s : String) : text (Text.split '/' s) = s.toList := by
  rw [text, Text.split, List.map_map]
  have hid : String.toList ∘ String.ofList = id := funext fun l => String.toList_ofList
  rw [hid, List.map_id, Text.joinOn_splitOn]

theorem not_mem_text {names : List String} (h : ∀ n ∈ names, IsInline n) : '\n' ∉ text names := by
  induction names with
  | nil => simp [text, Text.joinOn]
  | cons name names ih =>
    have hname := (h name (by simp)).no_line_end
    by_cases hrest : names = []
    · rw [hrest, text_singleton]
      exact hname
    · rw [text_cons name hrest]
      simp [hname, ih fun n hn => h n (List.mem_cons_of_mem _ hn)]

theorem restsAfterSlash_append {l r : List Char} (hs : '/' ∉ l) (hn : '\n' ∉ l) :
    restsAfterSlash (l ++ r) = restsAfterSlash r := by
  induction l with
  | nil => rfl
  | cons c l ih =>
    simp only [List.mem_cons, not_or] at hs hn
    simp only [List.cons_append, restsAfterSlash, if_neg (Ne.symm hn.1), if_neg (Ne.symm hs.1)]
    exact ih hs.2 hn.2

theorem restsAfterSlash_text {name : String} {names : List String} (hname : IsInline name) :
    restsAfterSlash (text (name :: names)) =
      if names = [] then [] else text names :: restsAfterSlash (text names) := by
  split
  next h =>
    subst h
    have ht : text [name] = name.toList ++ [] := by simp [text, Text.joinOn]
    rw [ht, restsAfterSlash_append hname.no_slash hname.no_line_end]
    rfl
  next h =>
    rw [text_cons name h, restsAfterSlash_append hname.no_slash hname.no_line_end]
    simp [restsAfterSlash]

theorem matchPieces_dirs_cons_iff {ps : List Piece} {name : String} {names : List String}
    (hname : IsInline name) :
    matchPieces (.dirs :: ps) (text (name :: names)) = true ↔
      matchPieces ps (text (name :: names)) = true ∨
        names ≠ [] ∧ matchPieces (.dirs :: ps) (text names) = true := by
  simp only [matchPieces, Piece.rests, List.any_cons, Bool.or_eq_true]
  rw [restsAfterSlash_text hname]
  by_cases h : names = []
  · simp [h]
  · simp [h]

/-- Directories before a pattern match every path with an end that the pattern matches, and the end
begins with a name. -/
theorem matchPieces_dirs_iff {ps : List Piece} {names : List String}
    (hnames : ∀ n ∈ names, IsInline n) (hne : names ≠ []) :
    matchPieces (.dirs :: ps) (text names) = true ↔
      ∃ front rest, names = front ++ rest ∧ rest ≠ [] ∧ matchPieces ps (text rest) = true := by
  induction names with
  | nil => exact absurd rfl hne
  | cons name names ih =>
    have hbelow := ih fun n hn => hnames n (List.mem_cons_of_mem _ hn)
    rw [matchPieces_dirs_cons_iff (hnames name (by simp))]
    constructor
    · rintro (hm | ⟨hrest, hm⟩)
      · exact ⟨[], name :: names, rfl, hne, hm⟩
      · obtain ⟨front, rest, rfl, hne', hm⟩ := (hbelow hrest).1 hm
        exact ⟨name :: front, rest, rfl, hne', hm⟩
    · rintro ⟨front, rest, hsplit, hrest, hm⟩
      cases front with
      | nil => exact .inl (by rwa [hsplit])
      | cons n front =>
        obtain ⟨-, rfl⟩ := List.cons.inj hsplit
        have hne' : front ++ rest ≠ [] := by simp [hrest]
        exact .inr ⟨hne', (hbelow hne').2 ⟨front, rest, rfl, hrest, hm⟩⟩

theorem matchPieces_anything {s : List Char} (h : '\n' ∉ s) : matchPieces [.anything] s = true := by
  have hrest : [] ∈ restsAfter (· != '\n') s :=
    mem_restsAfter.2 ⟨s, by simp, fun c hc => bne_iff_ne.2 fun hn => h (hn ▸ hc)⟩
  simp only [matchPieces, Piece.rests, List.any_eq_true]
  exact ⟨[], hrest, rfl⟩

section

variable {seg name : String} {names : List String} (hseg : IsPart seg) (hd : seg ≠ doubleStar)
  (hname : '/' ∉ name.toList)
include hseg hd hname

theorem matchPieces_last_iff :
    matchPieces (pieces seg.toList) (text (name :: names)) = true ↔
      Spells seg.toList name.toList ∧ names = [] := by
  have hstars := hseg.stars.resolve_left hd
  have hinner := pieces_inner hseg.no_slash hstars
  by_cases hrest : names = []
  · subst hrest
    rw [text_singleton, matchPieces_iff_spells hstars hseg.no_slash hname]
    simp
  · refine iff_of_false ?_ fun h => hrest h.2
    -- inner pieces match no text with a slash
    intro hm
    rw [← List.append_nil (pieces seg.toList), matchPieces_append_iff hinner] at hm
    obtain ⟨n, r, hnr, hn, -, hr⟩ := hm
    obtain rfl : r = [] := by simpa [matchPieces] using hr
    rw [text_cons name hrest, List.append_nil] at hnr
    exact absurd (hnr ▸ by simp) hn

theorem matchPieces_before_slash_iff {ps : List Piece} :
    matchPieces (pieces seg.toList ++ .char '/' :: ps) (text (name :: names)) = true ↔
      names ≠ [] ∧ Spells seg.toList name.toList ∧ matchPieces ps (text names) = true := by
  have hstars := hseg.stars.resolve_left hd
  have hinner := pieces_inner hseg.no_slash hstars
  have hspells := matchPieces_iff_spells hstars hseg.no_slash hname
  have slash : ∀ r, matchPieces (.char '/' :: ps) r = true ↔
      ∃ t, r = '/' :: t ∧ matchPieces ps t = true := by
    intro r
    cases r with
    | nil => simp [matchPieces, Piece.rests]
    | cons c t =>
      by_cases hc : c = '/'
      · simp [matchPieces, Piece.rests, hc]
      · simp [matchPieces, Piece.rests, hc]
  simp only [matchPieces_append_iff hinner, slash]
  constructor
  · rintro ⟨n, r, hnr, hn, hm, t, rfl, ht⟩
    by_cases hrest : names = []
    · subst hrest
      rw [text_singleton] at hnr
      exact absurd (hnr ▸ by simp) hname
    · rw [text_cons name hrest] at hnr
      obtain ⟨rfl, rfl⟩ := Text.append_sep_inj hname hn hnr
      exact ⟨hrest, hspells.1 hm, ht⟩
  · rintro ⟨hrest, hs, ht⟩
    exact ⟨name.toList, '/' :: text names, text_cons name hrest, hname, hspells.2 hs, text names,
      rfl, ht⟩

end

/-- Matching texts agrees with reading a pattern segment by segment. -/
theorem matchPieces_text_iff {segs names : List String} (hsegs : ∀ seg ∈ segs, IsPart seg)
    (hne : segs ≠ []) (hnames : ∀ n ∈ names, IsInline n) (hne' : names ≠ []) :
    matchPieces (pieces (text segs)) (text names) = true ↔ Covers segs names := by
  induction segs generalizing names with
  | nil => exact absurd rfl hne
  | cons seg segs ih =>
    have hseg := hsegs seg (by simp)
    have hbelow := fun {names} h => @ih names (fun s hs => hsegs s (List.mem_cons_of_mem _ hs)) h
    obtain ⟨name, rest, rfl⟩ := List.exists_cons_of_ne_nil hne'
    have hname := hnames name (by simp)
    have hrest := fun n hn => hnames n (List.mem_cons_of_mem name hn)
    by_cases hlast : segs = []
    · subst hlast
      rw [text_singleton]
      by_cases hd : seg = doubleStar
      · subst hd
        exact iff_of_true (matchPieces_anything (not_mem_text hnames)) (covers_rest_iff.2 hne')
      · rw [matchPieces_last_iff hseg hd hname.no_slash, covers_name_iff hd, covers_nil_iff]
    · by_cases hd : seg = doubleStar
      · subst hd
        have hp : pieces (text (doubleStar :: segs)) = .dirs :: pieces (text segs) := by
          rw [text_cons _ hlast]
          rfl
        rw [hp, matchPieces_dirs_iff hnames hne', covers_dirs_iff hlast]
        constructor
        · rintro ⟨front, tail, hsplit, htail, hm⟩
          rw [hsplit] at hnames
          have htnames := fun n hn => hnames n (List.mem_append_right front hn)
          exact ⟨front, tail, hsplit, (hbelow hlast htnames htail).1 hm⟩
        · rintro ⟨front, tail, hsplit, hc⟩
          rw [hsplit] at hnames
          have htail := hc.ne_nil hlast
          have htnames := fun n hn => hnames n (List.mem_append_right front hn)
          exact ⟨front, tail, hsplit, htail, (hbelow hlast htnames htail).2 hc⟩
      · rw [text_cons _ hlast, pieces_append_slash (hseg.stars.resolve_left hd),
          matchPieces_before_slash_iff hseg hd hname.no_slash, covers_name_iff hd]
        constructor
        · rintro ⟨hr, hs, hm⟩
          exact ⟨hs, (hbelow hlast hrest hr).1 hm⟩
        · rintro ⟨hs, hc⟩
          have hr := hc.ne_nil hlast
          exact ⟨hr, hs, (hbelow hlast hrest hr).2 hc⟩

/-- A pattern matches a path exactly if its segments stand for the names of the path. Brackets,
braces and all other characters but the star and the question mark stand for themselves. -/
theorem matchPath_iff_covers {segs names : List String} (hsegs : ∀ seg ∈ segs, IsPart seg)
    (hne : segs ≠ []) (hnames : ∀ n ∈ names, IsInline n) (hne' : names ≠ []) :
    matchPath (Text.joinWith "/" segs).toList (Text.joinWith "/" names).toList = true ↔
      Covers segs names := by
  rw [matchPath, Text.toList_joinWith, Text.toList_joinWith]
  exact matchPieces_text_iff hsegs hne hnames hne'

theorem matchPath_iff_covers_stars :
    Covers ["**", "a.[b]?", "*c*", "**"] ["x", "a.[b]d", "c", "y", "z"] ∧
      ¬ Covers ["**", "a.[b]?", "*c*", "**"] ["x", "a.[b]d", "c"] ∧
      ¬ Covers ["**", "a.[b]?", "*c*", "**"] ["a1[b]d", "c", "y"] := by
  have hsegs : ∀ seg ∈ ["**", "a.[b]?", "*c*", "**"], IsPart seg := by decide
  have hiff := fun {names} => @matchPath_iff_covers _ names hsegs (by simp)
  refine ⟨(hiff (by decide) (by simp)).1 (by decide), ?_, ?_⟩
  · exact fun h => absurd ((hiff (by decide) (by simp)).2 h) (by decide)
  · exact fun h => absurd ((hiff (by decide) (by simp)).2 h) (by decide)

end QueryTypes.Glob
