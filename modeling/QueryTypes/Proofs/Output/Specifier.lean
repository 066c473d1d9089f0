import QueryTypes.Proofs.Output.Places
import QueryTypes.Proofs.Path.Reduced

/-!
# References from file to file

A file is referred to by the way there, without the extension. A way that leads down is to begin
with a dot, and one that begins with a dot is left as it is; so a way down through a name with a dot
in front is no relative one. A way that only leads up has no name that an extension could go behind.
Main statement: the condition under which a reference is a relative one that leads to its file.
-/

namespace QueryTypes

open FileTree (climb climb_append climb_concat climb_of_names climb_up)

namespace Path

variable {cwd : Location} {p : Path} {s : String} {ns : List String}

/-- The names of a way, with a dot in front where there is none. -/
def dotted : List String → List String
  | [] => ["."]
  | s :: ss => if s.toList.head? = some '.' then s :: ss else "." :: s :: ss

theorem joinWith_dotted {way : List String} (h : ∀ n ∈ way, n ≠ "") :
    (if (relativeText way).toList.head? = some '.' then relativeText way
      else "./" ++ relativeText way) = Text.joinWith "/" (dotted way) := by
  cases way with
  | nil => decide
  | cons s ss =>
    have htext : relativeText (s :: ss) = Text.joinWith "/" (s :: ss) := rfl
    rw [htext, dotted, Text.head?_joinWith (h s (by simp))]
    split
    · rfl
    · rw [Text.joinWith, Text.joinWith, String.intercalate_cons_cons]
      rfl

/-- Names that begin with a step to the same place or up and go on from there. -/
def IsRelative (ws : List String) : Prop :=
  ∃ rest, rest ≠ [] ∧ (ws = "." :: rest ∨ ws = ".." :: rest)

/-- Where names lead when an extension is put behind the last one. -/
def lead (at_ : Location) (ws : List String) (extension : String) : Location :=
  climb at_ (ofText (Text.joinWith "/" ws ++ ("." ++ extension))).segments

variable {extension : String}

theorem isKept_extended {n : String} (hn : n ≠ "") (hslash : '/' ∉ n.toList)
    (hext : '/' ∉ extension.toList) : IsKept (n ++ ("." ++ extension)) := by
  obtain ⟨c, r, hr⟩ := List.exists_cons_of_ne_nil (mt String.toList_eq_nil_iff.1 hn)
  constructor
  · rw [← String.toList_inj.ne]
    simp [hr]
  · rw [← String.toList_inj.ne]
    simp [hr]
  · have hdot : '/' ∉ ".".toList := by decide
    rw [String.toList_append, String.toList_append, List.mem_append, List.mem_append]
    exact not_or.2 ⟨hslash, not_or.2 ⟨hdot, hext⟩⟩

theorem extended_ne_dots {n : String} (hn : IsKept n) : n ++ ("." ++ extension) ≠ ".." := by
  obtain ⟨c, r, hr⟩ := List.exists_cons_of_ne_nil (mt String.toList_eq_nil_iff.1 hn.ne_empty)
  intro heq
  have hchars : c :: (r ++ '.' :: extension.toList) = ['.', '.'] := by
    rw [← List.cons_append, ← hr]
    simpa [String.toList_append] using congrArg String.toList heq
  obtain ⟨rfl, hrest⟩ := List.cons.inj hchars
  have hlength := congrArg List.length hrest
  rw [List.length_append, List.length_cons, List.length_singleton] at hlength
  obtain rfl : r = [] := List.eq_nil_of_length_eq_zero (by omega)
  exact hn.ne_dot (String.toList_inj.1 hr)

theorem lead_concat (at_ : Location) {ws : List String} {w : String}
    (hws : ∀ n ∈ ws, '/' ∉ n.toList) (hw : IsKept w) (hext : '/' ∉ extension.toList) :
    lead at_ (ws ++ [w]) extension = climb at_ (kept ws) ++ [w ++ ("." ++ extension)] := by
  have hlast := isKept_extended hw.ne_empty hw.no_slash hext
  have hdots : w ++ ("." ++ extension) ≠ ".." := extended_ne_dots hw
  have hslash : ∀ n ∈ ws ++ [w ++ ("." ++ extension)], '/' ∉ n.toList := by
    intro n hn
    rcases List.mem_append.1 hn with hn | hn
    · exact hws n hn
    · obtain rfl := List.mem_singleton.1 hn
      exact hlast.no_slash
  have hkept : kept [w ++ ("." ++ extension)] = [w ++ ("." ++ extension)] :=
    kept_eq_self (by simpa using hlast)
  rw [lead, Text.joinWith_concat_append, segments_joinWith (by simp) hslash, kept,
    List.filter_append, ← kept, ← kept, hkept, climb_concat, if_neg hdots]

theorem isRelative_dotted_iff {s : String} {ss : List String} (hs : s ≠ ".") :
    IsRelative (dotted (s :: ss)) ↔ s.toList.head? ≠ some '.' ∨ s = ".." ∧ ss ≠ [] := by
  rw [dotted]
  by_cases hdot : s.toList.head? = some '.'
  · rw [if_pos hdot]
    constructor
    · rintro ⟨rest, hrest, heq | heq⟩
      · exact absurd (List.cons.inj heq).1 hs
      · obtain ⟨rfl, rfl⟩ := List.cons.inj heq
        exact .inr ⟨rfl, hrest⟩
    · rintro (hne | ⟨rfl, hss⟩)
      · exact absurd hdot hne
      · exact ⟨ss, hss, .inr rfl⟩
  · rw [if_neg hdot]
    exact iff_of_true ⟨s :: ss, by simp, .inl rfl⟩ (.inl hdot)

/-- A reference that leads up only: its last step is none once the extension is behind it. -/
theorem relative_lead_up_iff {bare up place : Location} (hext : '/' ∉ extension.toList) :
    (IsRelative (dotted (List.replicate up.length "..")) ∧
      lead (bare ++ up) (dotted (List.replicate up.length "..")) extension = place) ↔
    ∃ n n' rest, up = n :: n' :: rest ∧ place = bare ++ [n, ".." ++ ("." ++ extension)] := by
  cases up with
  | nil =>
    refine iff_of_false ?_ ?_
    · rintro ⟨⟨rest, hrest, heq | heq⟩, -⟩
      · exact hrest (List.cons.inj heq).2.symm
      · exact absurd (List.cons.inj heq).1 (by decide)
    · rintro ⟨n, n', rest, hup, -⟩
      cases hup
  | cons n rest =>
    have hway : dotted (List.replicate (n :: rest).length "..") =
        List.replicate rest.length ".." ++ [".."] := by
      rw [← List.replicate_succ']
      rfl
    have hlead : lead (bare ++ n :: rest) (List.replicate rest.length ".." ++ [".."]) extension =
        bare ++ [n, ".." ++ ("." ++ extension)] := by
      have hdots : ∀ s ∈ List.replicate rest.length "..", IsKept s := by
        intro s hs
        rw [List.eq_of_mem_replicate hs]
        exact isKept_dots
      rw [lead_concat _ (fun s hs => (hdots s hs).no_slash) isKept_dots hext,
        kept_eq_self hdots, ← List.singleton_append, ← List.append_assoc,
        climb_back _ rest rest.length rfl, List.append_assoc]
      rfl
    have hrelative : IsRelative (dotted (List.replicate (n :: rest).length "..")) ↔ rest ≠ [] := by
      rw [List.length_cons, List.replicate_succ, isRelative_dotted_iff (by decide)]
      simp
    rw [hrelative, hway, hlead]
    constructor
    · rintro ⟨hne, rfl⟩
      obtain ⟨n', rest, rfl⟩ := List.exists_cons_of_ne_nil hne
      exact ⟨n, n', rest, rfl, rfl⟩
    · rintro ⟨m, n', rest', hup, rfl⟩
      obtain ⟨rfl, rfl⟩ := List.cons.inj hup
      exact ⟨by simp, rfl⟩

theorem exists_kept_of_dotted {ws : List String} {w : String} (h : ∀ n ∈ ws, IsKept n) :
    ∃ front, dotted (ws ++ [w]) = front ++ [w] ∧ (∀ n ∈ front, '/' ∉ n.toList) ∧
      kept front = ws := by
  have hdotted : dotted (ws ++ [w]) = ws ++ [w] ∨ dotted (ws ++ [w]) = "." :: (ws ++ [w]) := by
    cases ws with
    | nil => exact ite_eq_or_eq _ _ _
    | cons n ws => exact ite_eq_or_eq _ _ _
  rcases hdotted with hsame | hmore
  · exact ⟨ws, hsame, fun n hn => (h n hn).no_slash, kept_eq_self h⟩
  · refine ⟨"." :: ws, hmore, ?_, ?_⟩
    · intro n hn
      rcases List.mem_cons.1 hn with rfl | hn
      · decide
      · exact (h n hn).no_slash
    · rw [kept, List.filter_cons_of_neg (by decide)]
      exact kept_eq_self h

/-- A reference that leads down: its last step is the name. -/
theorem relative_lead_down_iff {shared up ds place : Location} {d : String}
    (hds : ∀ n ∈ ds ++ [d], IsKept n ∧ n ≠ "..") (hext : '/' ∉ extension.toList)
    {way : List String} (hway : way = dotted (List.replicate up.length ".." ++ (ds ++ [d]))) :
    (IsRelative way ∧ lead (shared ++ up) way extension = place) ↔
      (up = [] → ∀ n rest, ds ++ [d] = n :: rest → n.toList.head? ≠ some '.') ∧
        place = shared ++ ds ++ [d ++ ("." ++ extension)] := by
  have hnames : ∀ n ∈ ds, IsKept n ∧ n ≠ ".." := fun n hn => hds n (List.mem_append_left _ hn)
  have hsteps : ∀ n ∈ List.replicate up.length ".." ++ ds, IsKept n := by
    intro n hn
    rcases List.mem_append.1 hn with hn | hn
    · rw [List.eq_of_mem_replicate hn]
      exact isKept_dots
    · exact (hnames n hn).1
  have hlead : lead (shared ++ up) way extension = shared ++ ds ++ [d ++ ("." ++ extension)] := by
    obtain ⟨front, hfront, hslash, hkept⟩ := exists_kept_of_dotted (w := d) hsteps
    rw [hway, ← List.append_assoc, hfront, lead_concat _ hslash (hds d (by simp)).1 hext, hkept,
      climb_append, climb_back _ up _ rfl, climb_of_names _ fun n hn => (hnames n hn).2]
  have hrelative : IsRelative way ↔
      (up = [] → ∀ n rest, ds ++ [d] = n :: rest → n.toList.head? ≠ some '.') := by
    cases up with
    | nil =>
      obtain ⟨n, rest, hfirst⟩ := List.exists_cons_of_ne_nil (l := ds ++ [d]) (by simp)
      obtain ⟨hn, hdots⟩ := hds n (by simp [hfirst])
      rw [hway, List.length_nil, List.replicate_zero, List.nil_append, hfirst,
        isRelative_dotted_iff hn.ne_dot]
      simp [hdots]
    | cons u us =>
      refine iff_of_true ?_ fun hup => by cases hup
      exact hway ▸ (isRelative_dotted_iff (by decide)).2 (.inr ⟨rfl, by simp⟩)
  rw [hlead, hrelative]
  exact and_congr_right fun _ => eq_comm

/-- A way to a place without its extension gives a relative reference to the place with it: the way
leads up twice at least, and the extension goes behind the last step, or it leads down to the
name. -/
def Reaches (seen bare place : Location) (extension : String) : Prop :=
  (∃ n n' rest, seen = bare ++ n :: n' :: rest ∧ place = bare ++ [n, ".." ++ ("." ++ extension)]) ∨
    ¬ bare <+: seen ∧ (∀ n rest, bare = seen ++ n :: rest → n.toList.head? ≠ some '.') ∧
      ∃ ds d, bare = ds ++ [d] ∧ place = ds ++ [d ++ ("." ++ extension)]

theorem relative_lead_iff (seen place : Location) {bare : Location}
    (hbare : ∀ n ∈ bare, IsKept n ∧ n ≠ "..") (hext : '/' ∉ extension.toList) :
    (IsRelative (dotted (between seen bare)) ∧
      lead seen (dotted (between seen bare)) extension = place) ↔
        Reaches seen bare place extension := by
  rw [Reaches]
  obtain ⟨shared, up, down, rfl, rfl, hway, hpart⟩ := exists_parting seen bare
  rw [hway]
  rcases List.eq_nil_or_concat' down with rfl | ⟨ds, d, rfl⟩
  · rw [List.append_nil, List.append_nil, relative_lead_up_iff hext,
      or_iff_left fun h => h.1 (List.prefix_append _ _)]
    simp only [List.append_cancel_left_eq]
  · have hnot := not_isPrefix_of_parting shared hpart (by simp)
    rw [relative_lead_down_iff (fun n hn => hbare n (List.mem_append_right _ hn)) hext rfl,
      or_iff_right]
    · constructor
      · rintro ⟨hdot, rfl⟩
        refine ⟨hnot, ?_, shared ++ ds, d, (List.append_assoc _ _ _).symm, rfl⟩
        intro n rest hbelow
        rw [List.append_assoc, List.append_cancel_left_eq] at hbelow
        cases up with
        | nil => exact hdot rfl n rest hbelow
        | cons u us => exact absurd (by rw [hbelow]; rfl) (hpart u rfl)
      · rintro ⟨-, hdot, ds', d', hlast, rfl⟩
        rw [← List.append_assoc] at hlast
        obtain ⟨rfl, hd⟩ := List.append_inj' hlast rfl
        obtain rfl := (List.cons.inj hd).1
        refine ⟨fun hup n rest hdown => hdot n rest ?_, rfl⟩
        rw [hup, List.append_nil, hdown]
    · rintro ⟨n, n', rest, hseen, -⟩
      exact hnot ⟨_, hseen.symm⟩

section

variable {seen home : Location} {stem : String}

theorem not_reaches_of_home (x : String) : ¬ Reaches seen home (home ++ [x]) extension := by
  rintro (⟨n, n', rest, -, hplace⟩ | ⟨-, -, ds, d, rfl, hplace⟩)
  · have hlength := congrArg List.length (List.append_cancel_left hplace)
    simp at hlength
  · have hlength := congrArg List.length hplace
    simp at hlength

theorem reaches_above_iff :
    Reaches seen home.dropLast (home ++ [".." ++ ("." ++ extension)]) extension ↔
      home ≠ [] ∧ ∃ n rest, seen = home ++ n :: rest := by
  constructor
  · rintro (⟨n, n', rest, hseen, hplace⟩ | ⟨-, -, ds, d, hbare, hplace⟩)
    · have hhome : home = home.dropLast ++ [n] := by
        have hlast : home ++ [".." ++ ("." ++ extension)] =
            home.dropLast ++ [n] ++ [".." ++ ("." ++ extension)] := by
          rw [hplace, List.append_assoc]
          rfl
        exact (List.append_inj' hlast rfl).1
      refine ⟨fun hnil => by simp [hnil] at hhome, n', rest, ?_⟩
      rw [hseen, hhome, List.dropLast_concat, List.append_assoc]
      rfl
    · have hlength := congrArg List.length hplace
      have hshorter := congrArg List.length hbare
      rw [List.length_append, List.length_append, List.length_singleton,
        List.length_singleton] at hlength
      rw [List.length_append, List.length_singleton, List.length_dropLast] at hshorter
      omega
  · rintro ⟨hne, n, rest, rfl⟩
    obtain ⟨ds, d, rfl⟩ := (List.eq_nil_or_concat' home).resolve_left hne
    rw [List.dropLast_concat]
    exact .inl ⟨d, n, rest, List.append_assoc _ _ _, List.append_assoc _ _ _⟩

theorem reaches_beside_iff :
    Reaches seen (home ++ [stem]) (home ++ [stem ++ ("." ++ extension)]) extension ↔
      ¬ home ++ [stem] <+: seen ∧
        ∀ n rest, home ++ [stem] = seen ++ n :: rest → n.toList.head? ≠ some '.' := by
  constructor
  · rintro (⟨n, n', rest, -, hplace⟩ | ⟨hnot, hdot, -⟩)
    · rw [List.append_assoc] at hplace
      have hlength := congrArg List.length (List.append_cancel_left hplace)
      simp at hlength
    · exact ⟨hnot, hdot⟩
  · rintro ⟨hnot, hdot⟩
    exact .inr ⟨hnot, hdot, home, stem, rfl, rfl⟩

end

theorem no_slash_of_mem_dotted (h : ∀ n ∈ ns, '/' ∉ n.toList) :
    ∀ n ∈ dotted ns, '/' ∉ n.toList := by
  have hdot : '/' ∉ ".".toList := by decide
  cases ns with
  | nil => simp [dotted]
  | cons n ns =>
    rw [dotted]
    split
    · exact h
    · simpa [hdot] using h

end Path

theorem dropEnding_append (ending s : List Char) : dropEnding ending (s ++ ending) = s := by
  rw [dropEnding, List.reverse_append, Text.after?_append]
  exact List.reverse_reverse s

variable {cwd : Location} {start target : Path} {extension : String}

theorem moduleSpecifier_of_text {bare : String} (h : target.text = bare ++ ("." ++ extension)) :
    moduleSpecifier cwd start target extension =
      if bare = "" then .error (.badValue "no path specified")
      else
        let way := Path.betweenText (Path.resolve cwd start) (Path.resolve cwd (Path.ofText bare))
        .ok (if way.toList.head? = some '.' then way else "./" ++ way) := by
  have hdrop : String.ofList (dropEnding ('.' :: extension.toList) target.text.toList) = bare := by
    have hending : ("." ++ extension).toList = '.' :: extension.toList := String.toList_append
    rw [h, String.toList_append, hending, dropEnding_append, String.ofList_toList]
  rw [moduleSpecifier, hdrop]

/-- A text that refers to a file from a directory: it is a relative one, and with the extension
behind it, it leads there. -/
def RefersTo (cwd : Location) (start target : Path) (extension specifier : String) : Prop :=
  ("./".toList <+: specifier.toList ∨ "../".toList <+: specifier.toList) ∧
    Path.resolve cwd (start.child (specifier ++ "." ++ extension)) = Path.resolve cwd target

open QueryTypes.Path (IsRelative lead dotted between)

theorem refersTo_joinWith_iff (hcwd : ∀ n ∈ cwd, n ≠ "..") (start target : Path)
    (extension : String) {ws : List String} (hws : ∀ n ∈ ws, '/' ∉ n.toList) :
    RefersTo cwd start target extension (Text.joinWith "/" ws) ↔
      IsRelative ws ∧ lead (Path.resolve cwd start) ws extension = Path.resolve cwd target := by
  have hhere := Text.append_slash_isPrefix_iff (n := ".") (by decide) hws
  have hup := Text.append_slash_isPrefix_iff (n := "..") (by decide) hws
  have hrelative : ("./".toList <+: (Text.joinWith "/" ws).toList ∨
      "../".toList <+: (Text.joinWith "/" ws).toList) ↔ IsRelative ws := by
    rw [IsRelative]
    simp only [and_or_left, exists_or]
    exact or_congr hhere hup
  rw [RefersTo, hrelative]
  refine and_congr_right fun hstep => ?_
  have hroot : (Path.ofText (Text.joinWith "/" ws ++ ("." ++ extension))).root = .here := by
    have hhead : (Text.joinWith "/" ws).toList.head? = some '.' := by
      obtain ⟨rest, -, rfl | rfl⟩ := hstep
      · exact Text.head?_joinWith (by decide)
      · exact Text.head?_joinWith (by decide)
    obtain ⟨r, hr⟩ := List.head?_eq_some_iff.1 hhead
    refine Path.rootOf_of_head (c := '.') (r := r ++ ("." ++ extension).toList) ?_ (by decide)
    rw [String.toList_append, hr]
    rfl
  rw [String.append_assoc, Path.resolve_child_eq_climb hcwd hroot, lead]

/-- References in the terms of what the file is referred to by. -/
theorem moduleSpecifier_refers_iff_bare (hcwd : ∀ n ∈ cwd, IsKept n ∧ n ≠ "..") (start : Path)
    {bare : String} (hext : '/' ∉ extension.toList) (h : target.text = bare ++ ("." ++ extension)) :
    (∃ specifier, moduleSpecifier cwd start target extension = .ok specifier ∧
      RefersTo cwd start target extension specifier) ↔
    bare ≠ "" ∧ Path.Reaches (Path.resolve cwd start) (Path.resolve cwd (Path.ofText bare))
      (Path.resolve cwd target) extension := by
  rw [moduleSpecifier_of_text h]
  by_cases hbare : bare = ""
  · rw [if_pos hbare]
    simp [hbare]
  · have hnames : ∀ n ∈ between (Path.resolve cwd start) (Path.resolve cwd (Path.ofText bare)),
        IsKept n := by
      intro n hn
      rcases Path.mem_between hn with rfl | hn
      · exact isKept_dots
      · exact (Path.isKept_of_mem_resolve hcwd hn).1
    have hrefers := refersTo_joinWith_iff (fun n hn => (hcwd n hn).2) start target extension
      (Path.no_slash_of_mem_dotted fun n hn => (hnames n hn).no_slash)
    rw [← Path.joinWith_dotted fun n hn => (hnames n hn).ne_empty,
      Path.relative_lead_iff _ _ (fun n hn => Path.isKept_of_mem_resolve hcwd hn)
        hext] at hrefers
    rw [if_neg hbare, ← hrefers]
    constructor
    · rintro ⟨specifier, hspecifier, hto⟩
      obtain rfl := Except.ok.inj hspecifier
      exact ⟨hbare, hto⟩
    · rintro ⟨-, hto⟩
      exact ⟨_, rfl, hto⟩

/-- What is left of the text of a path without the extension, and the path that it is read to. -/
theorem exists_bare_text {file stem : String}
    (hname : (Path.ofText file).name = stem ++ ("." ++ extension)) :
    ∃ front bare, (Path.ofText file).segments = front ++ [stem ++ ("." ++ extension)] ∧
      (Path.ofText file).text = bare ++ ("." ++ extension) ∧ (bare = "" → stem = "") ∧
      Path.ofText bare = ⟨(Path.ofText file).root, front ++ Path.kept [stem]⟩ := by
  obtain ⟨front, hfront⟩ : ∃ front,
      (Path.ofText file).segments = front ++ [stem ++ ("." ++ extension)] := by
    cases hlast : (Path.ofText file).segments.getLast? with
    | none =>
      rw [Path.name, hlast] at hname
      exact absurd (congrArg String.toList hname) (by simp)
    | some n =>
      rw [Path.name, hlast] at hname
      exact List.getLast?_eq_some_iff.1 (hlast.trans (congrArg some hname))
  have hsegments : ∀ n ∈ front ++ [stem ++ ("." ++ extension)], IsKept n := by
    rw [← hfront]
    exact fun n => Path.isKept_of_mem
  have hslash : ∀ n ∈ front ++ [stem], '/' ∉ n.toList := by
    intro n hn
    rcases List.mem_append.1 hn with hn | hn
    · exact (hsegments n (List.mem_append_left _ hn)).no_slash
    · obtain rfl := List.mem_singleton.1 hn
      have hwhole := (hsegments (n ++ ("." ++ extension)) (by simp)).no_slash
      rw [String.toList_append, List.mem_append] at hwhole
      exact fun hmem => hwhole (.inl hmem)
  refine ⟨front, Path.PathRoot.text (Path.ofText file).root ++ Text.joinWith "/" (front ++ [stem]),
    hfront, ?_, ?_, ?_⟩
  · rw [Path.text_of_segments (by simp [hfront]), hfront, String.append_assoc,
      Text.joinWith_concat_append]
  · intro hempty
    have hsplit := Text.split_joinWith (by simp) hslash
    rw [(String.append_eq_empty_iff.1 hempty).2] at hsplit
    have hlast : [] ++ [""] = front ++ [stem] := hsplit
    exact (List.cons.inj (List.append_inj' hlast rfl).2).1.symm
  · rw [Path.ofText_root_append _ (by simp) hslash, Path.kept, List.filter_append, ← Path.kept,
      ← Path.kept, Path.kept_eq_self fun n hn => hsegments n (List.mem_append_left _ hn)]
    intro rest hrest
    cases front with
    | nil => exact (List.cons.inj hrest).2.symm
    | cons f front => exact absurd (List.cons.inj hrest).1 (hsegments f (by simp)).ne_empty

/-- Which references lead to their files. For every directory and every file whose name is a stem
and the extension: a reference is made, and it is a relative one that leads to the file, exactly in
two cases. The stem is a name, it does not stand for the directory or one above it, and if it stands
below the directory, the way there does not begin with a dot. Or the stem is two dots, and the
directory is further down from that of the file, which is not the topmost. -/
theorem moduleSpecifier_refers_iff (hcwd : ∀ n ∈ cwd, IsKept n ∧ n ≠ "..")
    (directory file stem extension : String)
    (hname : (Path.ofText file).name = stem ++ "." ++ extension)
    (hfile : stem ++ "." ++ extension ≠ "..") :
    let start := Path.ofText directory
    let target := Path.ofText file
    let seen := Path.resolve cwd start
    let home := Path.resolve cwd target.parent
    (∃ specifier, moduleSpecifier cwd start target extension = .ok specifier ∧
      RefersTo cwd start target extension specifier) ↔
    stem ∉ ["", ".", ".."] ∧ ¬ home ++ [stem] <+: seen ∧
        (∀ n rest, home ++ [stem] = seen ++ n :: rest → n.toList.head? ≠ some '.') ∨
      stem = ".." ∧ home ≠ [] ∧ ∃ n rest, seen = home ++ n :: rest := by
  intro start target seen home
  rw [String.append_assoc] at hname hfile
  obtain ⟨front, bare, hfront, htext, hempty, hbare⟩ := exists_bare_text hname
  have hdots : ∀ n ∈ cwd, n ≠ ".." := fun n hn => (hcwd n hn).2
  have hhome : home = climb (if target.isAbsolute then [] else cwd) front := by
    change Path.resolve cwd target.parent = _
    rw [FileTree.resolve_eq_climb hdots, Path.parent, hfront, List.dropLast_concat]
    rfl
  have hplace : Path.resolve cwd target = home ++ [stem ++ ("." ++ extension)] := by
    rw [FileTree.resolve_eq_climb hdots, hfront, climb_concat, if_neg hfile, hhome]
  have hto : Path.resolve cwd (Path.ofText bare) = climb home (Path.kept [stem]) := by
    rw [FileTree.resolve_eq_climb hdots, hbare, climb_append, hhome]
    rfl
  have hslash : '/' ∉ extension.toList := by
    have hlast : IsKept (stem ++ ("." ++ extension)) :=
      Path.isKept_of_mem (t := file) (by simp [hfront])
    intro hmem
    apply hlast.no_slash
    rw [String.toList_append, String.toList_append]
    exact List.mem_append_right _ (List.mem_append_right _ hmem)
  rw [moduleSpecifier_refers_iff_bare hcwd start hslash htext, hplace, hto]
  change bare ≠ "" ∧ Path.Reaches seen _ _ extension ↔ _
  by_cases hnone : stem = "" ∨ stem = "."
  · have hkept : Path.kept [stem] = [] := by rcases hnone with rfl | rfl <;> rfl
    rw [hkept]
    refine iff_of_false (fun h => Path.not_reaches_of_home _ h.2) ?_
    rintro (⟨hstem, -⟩ | ⟨rfl, -⟩)
    · rcases hnone with rfl | rfl <;> simp at hstem
    · rcases hnone with h | h <;> exact absurd h (by decide)
  · obtain ⟨hne, hdot⟩ := not_or.1 hnone
    have hkept : climb home (Path.kept [stem]) =
        if stem = ".." then home.dropLast else home ++ [stem] := by
      rw [Path.kept, List.filter_cons_of_pos (by simp [hne, hdot]), List.filter_nil,
        ← List.nil_append [stem], climb_concat]
      rfl
    rw [hkept, and_iff_right (mt hempty hne)]
    by_cases hup : stem = ".."
    · subst hup
      rw [if_pos rfl, Path.reaches_above_iff]
      simp
    · rw [if_neg hup, Path.reaches_beside_iff]
      simp [hne, hdot, hup]

/-- A file in a directory beside the one it is seen from is referred to by a relative text; one in a
hidden directory below is not. -/
theorem moduleSpecifier_refers_iff_hidden :
    let start := Path.ofText "/p/src/a/__generated__"
    let beside := Path.ofText "/p/src/__generated__/globalTypes.ts"
    let hidden := Path.ofText "/p/.types/globalTypes.ts"
    (∃ specifier, moduleSpecifier ["p"] start beside "ts" = .ok specifier ∧
      RefersTo ["p"] start beside "ts" specifier) ∧
    moduleSpecifier ["p"] (Path.ofText "/p") hidden "ts" = .ok ".types/globalTypes" ∧
    ¬ RefersTo ["p"] (Path.ofText "/p") hidden "ts" ".types/globalTypes" := by
  intro start beside hidden
  have hcwd : ∀ n ∈ ["p"], IsKept n ∧ n ≠ ".." := by decide
  have hbeside := moduleSpecifier_refers_iff hcwd "/p/src/a/__generated__"
    "/p/src/__generated__/globalTypes.ts" "globalTypes" "ts" (by decide) (by decide)
  have hhidden := moduleSpecifier_refers_iff hcwd "/p" "/p/.types/globalTypes.ts" "globalTypes" "ts"
    (by decide) (by decide)
  have htext : moduleSpecifier ["p"] (Path.ofText "/p") hidden "ts" = .ok ".types/globalTypes" := by
    decide
  refine ⟨hbeside.2 (.inl ⟨by decide, by decide, ?_⟩), htext, ?_⟩
  · intro n rest hbelow
    have hthird : ["p", "src", "__generated__", "globalTypes"] =
        ["p", "src", "a", "__generated__"] ++ n :: rest := hbelow
    simp at hthird
  · intro hto
    rcases hhidden.1 ⟨_, htext, hto⟩ with ⟨-, -, hdot⟩ | ⟨hstem, -⟩
    · exact hdot ".types" ["globalTypes"] (by decide) (by decide)
    · exact absurd hstem (by decide)

end QueryTypes
