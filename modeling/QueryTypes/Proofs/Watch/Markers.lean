import QueryTypes.Proofs.Text.Fields
import QueryTypes.Proofs.Text.Sorted
import QueryTypes.Proofs.Tree.Sound
import QueryTypes.Watch.Subscription

/-!
# Marked places

A change is left alone when a marker stands in the text of its place. A path whose text is a marker
marks every place that has the names of the path one after the other.
-/

namespace QueryTypes

theorem Text.occurs_iff (p s : List Char) : occurs p s = true ↔ p <:+: s := by
  induction s with
  | nil => simp [occurs]
  | cons c s ih => rw [occurs, Bool.or_eq_true, List.isPrefixOf_iff_prefix, ih, List.infix_cons_iff]

theorem Location.toList_text {l : Location} (h : l ≠ []) :
    (Location.text l).toList = l.flatMap fun n => '/' :: n.toList := by
  have hjoin : ∀ {l : Location}, l ≠ [] →
      '/' :: Text.joinOn '/' (l.map String.toList) = l.flatMap fun n => '/' :: n.toList := by
    intro l h
    induction l with
    | nil => exact absurd rfl h
    | cons n l ih =>
      cases l with
      | nil => simp [Text.joinOn]
      | cons m l =>
        rw [List.map_cons, Text.joinOn_cons _ (by simp), ih (by simp), List.flatMap_cons]
        rfl
  rw [Location.text, String.toList_append, Text.toList_joinWith, ← hjoin h]
  rfl

/-! ### Places with the names of a path in them -/

namespace Path

/-- A path with names, none of which leads up. -/
structure IsPlain (p : Path) : Prop where
  start : p.root ≠ .twoSlashes
  names : p.segments ≠ []
  dots : ".." ∉ p.segments

/-- The place has the names of the path in it, and then further ones. -/
def Leads (p : Path) (l rest : List String) : Prop := ∃ front, l = front ++ p.segments ++ rest

variable {p q : Path} {s : String} {cwd l rest : List String}

theorem IsPlain.ne_dots (hp : p.IsPlain) : ∀ n ∈ p.segments, n ≠ ".." := by
  rintro n hn rfl
  exact hp.dots hn

theorem Leads.append (h : p.Leads l rest) (more : List String) : p.Leads (l ++ more) (rest ++ more) := by
  obtain ⟨front, rfl⟩ := h
  exact ⟨front, List.append_assoc _ _ _⟩

theorem leads_collapse (hp : p.IsPlain) (l : List String) : p.Leads (collapse (l ++ p.segments)) [] :=
  ⟨collapse l, by rw [collapse_append l hp.ne_dots, List.append_nil]⟩

theorem leads_resolve (hp : p.IsPlain) : p.Leads (resolve cwd p) [] := by
  rw [resolve]
  split
  · exact leads_collapse hp []
  · exact leads_collapse hp cwd

theorem leads_resolve_child (hs : (ofText s).IsPlain) : (ofText s).Leads (resolve cwd (q.child s)) [] := by
  rw [child, join]
  split
  · exact leads_resolve hs
  · rw [resolve]
    split
    · exact leads_collapse hs q.segments
    · rw [← List.append_assoc]
      exact leads_collapse hs (cwd ++ q.segments)

theorem toList_text_of_isPlain (hp : p.IsPlain) :
    ∃ slash, slash ++ p.text.toList = p.segments.flatMap fun n => '/' :: n.toList := by
  have htext := Location.toList_text hp.names
  rw [Location.text, String.toList_append] at htext
  rw [text, if_neg fun h => hp.names h.2, String.toList_append]
  cases hroot : p.root with
  | here => exact ⟨['/'], htext⟩
  | slash => exact ⟨[], htext⟩
  | twoSlashes => exact absurd hroot hp.start

/-- The text of a place has the text of each path in it whose names it has. -/
theorem Leads.exists_text (h : p.Leads l rest) (hp : p.IsPlain) : ∃ front,
    (Location.text l).toList = front ++ p.text.toList ++ rest.flatMap fun n => '/' :: n.toList := by
  obtain ⟨front, rfl⟩ := h
  obtain ⟨slash, hslash⟩ := toList_text_of_isPlain hp
  have hne : front ++ p.segments ++ rest ≠ [] := by simp [hp.names]
  refine ⟨front.flatMap (fun n => '/' :: n.toList) ++ slash, ?_⟩
  rw [Location.toList_text hne, List.flatMap_append, List.flatMap_append, ← hslash,
    List.append_assoc _ slash]

theorem Leads.text_infix (h : p.Leads l rest) (hp : p.IsPlain) :
    p.text.toList <:+: (Location.text l).toList := by
  obtain ⟨front, htext⟩ := h.exists_text hp
  rw [htext]
  exact ⟨front, _, rfl⟩

/-- Below a path, its text is followed by a slash. -/
theorem Leads.text_slash_infix (h : p.Leads l rest) (hp : p.IsPlain) (hrest : rest ≠ []) :
    (p.text ++ "/").toList <:+: (Location.text l).toList := by
  obtain ⟨front, htext⟩ := h.exists_text hp
  obtain ⟨n, rest, rfl⟩ := List.exists_cons_of_ne_nil hrest
  rw [htext]
  refine ⟨front, n.toList ++ rest.flatMap (fun n => '/' :: n.toList), ?_⟩
  rw [String.toList_append, List.flatMap_cons]
  simp

end Path

/-! ### What the markers hold back -/

namespace WatchState

theorem triggers_eq_true_iff {s : WatchState} {path : String} :
    s.triggers path = true ↔ ∀ m ∈ s.markers, ¬ m.toList <:+: path.toList := by
  rw [triggers, Bool.not_eq_true', List.any_eq_false]
  exact forall₂_congr fun m _ => not_congr (Text.occurs_iff _ _)

theorem mem_markers_ofRequest {r : Request} {patterns : List String} {terminal : Bool} {m : String} :
    m ∈ (ofRequest r patterns terminal).markers ↔ m = generatedDirectory ∨ r.output = some m := by
  change m ∈ sortedSet (generatedDirectory :: r.output.toList) ↔ _
  rw [sortedSet, Text.mem_sorted, List.mem_eraseDups, List.mem_cons, Option.mem_toList]

theorem outputPath_mem_markers (r : Request) (patterns : List String) (terminal : Bool) :
    r.outputPath ∈ (ofRequest r patterns terminal).markers := by
  rw [mem_markers_ofRequest, Request.outputPath]
  cases hgiven : given r.output with
  | none => exact .inl rfl
  | some o => exact .inr (Option.eq_some_of_filter_eq_some hgiven)

end WatchState

end QueryTypes
