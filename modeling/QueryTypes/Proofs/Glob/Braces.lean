import Mathlib.Data.List.Basic
import QueryTypes.Proofs.Glob.Expansion

/-!
# Expanding groups

Expansion replaces the first group that has no braces inside by each of its alternatives and starts
again. Each time there is one opening brace less, and no group is left when it ends.
-/

namespace QueryTypes.Glob

variable {s u w e x : List Char} {g : Group} {c : Char}

/-! ### Texts without braces -/

def IsBare (s : List Char) : Prop := ∀ c ∈ s, brace c = 0

/-- There is a group with no braces inside. -/
def HasGroup (s : List Char) : Prop := ∃ g : Group, g.text = s ∧ IsBare g.inside

theorem brace_eq_zero_iff : brace c = 0 ↔ c ≠ '\x7b' ∧ c ≠ '\x7d' := by
  unfold brace
  split_ifs <;> simp_all

theorem IsBare.tail (h : IsBare (c :: s)) : IsBare s :=
  fun x hx => h x (List.mem_cons_of_mem _ hx)

theorem IsBare.not_open (h : IsBare s) : '\x7b' ∉ s :=
  fun hmem => (brace_eq_zero_iff.1 (h _ hmem)).1 rfl

theorem IsBare.choice (h : IsBare w) (hc : x ∈ Text.splitOn ',' w) : IsBare x :=
  fun y hy => h y (Text.mem_of_mem_splitOn hc hy).1

/-! ### The group found first -/

theorem Group.text_eq (g : Group) :
    g.text = g.before ++ '\x7b' :: (g.inside ++ '\x7d' :: g.after) := by
  simp [Group.text]

theorem text_of_firstGroup? (h : firstGroup? s = some g) : g.text = s := text_of_seekGroup h

theorem bare_of_firstGroup? (h : firstGroup? s = some g) : IsBare g.inside :=
  no_brace_of_seekGroup h (by simp)

theorem isSome_seekGroup_some {before inside : List Char} (h : '\x7d' ∈ s) :
    (seekGroup before (some inside) s).isSome := by
  induction s generalizing before inside with
  | nil => simp at h
  | cons c s ih =>
    rw [seekGroup]
    split_ifs with hopen hclose
    · exact ih ((List.mem_cons.1 h).resolve_left (by simp [hopen]))
    · rfl
    · exact ih ((List.mem_cons.1 h).resolve_left (Ne.symm hclose))

/-- Once a brace is open, the next one that closes ends a group. -/
theorem isSome_seekGroup_of_open {before : List Char} {inside? : Option (List Char)}
    (h : '\x7d' ∈ s) (t : List Char) : (seekGroup before inside? (t ++ '\x7b' :: s)).isSome := by
  induction t generalizing before inside? with
  | nil =>
    cases inside? with
    | none =>
      rw [List.nil_append, seekGroup, if_pos rfl]
      exact isSome_seekGroup_some h
    | some inside => exact isSome_seekGroup_some (by simp [h])
  | cons c t ih =>
    cases inside? with
    | none =>
      rw [List.cons_append, seekGroup]
      split_ifs
      · exact ih
      · exact ih
    | some inside => exact isSome_seekGroup_some (by simp [h])

theorem firstGroup?_eq_none_iff : firstGroup? s = none ↔ ¬ HasGroup s := by
  constructor
  · rintro hnone ⟨g, rfl, -⟩
    have hclose : '\x7d' ∈ g.inside ++ '\x7d' :: g.after := by simp
    have hsome : (firstGroup? g.text).isSome := by
      simpa [Group.text, firstGroup?] using isSome_seekGroup_of_open hclose g.before
    rw [hnone] at hsome
    cases hsome
  · intro hno
    cases hg : firstGroup? s with
    | none => rfl
    | some g => exact absurd ⟨g, text_of_firstGroup? hg, bare_of_firstGroup? hg⟩ hno

theorem seekGroup_of_not_open {before : List Char} (hu : '\x7b' ∉ u) :
    seekGroup before none (u ++ s) = seekGroup (u.reverse ++ before) none s := by
  induction u generalizing before with
  | nil => rfl
  | cons c u ih =>
    obtain ⟨hc, hu⟩ := not_or.1 (mt List.mem_cons.2 hu)
    rw [List.cons_append, seekGroup, if_neg (Ne.symm hc), ih hu]
    simp

/-- What was read before only stands before the group. -/
theorem seekGroup_append (before more : List Char) (inside? : Option (List Char)) :
    seekGroup (before ++ more) inside? s =
      (seekGroup before inside? s).map fun g => { g with before := more.reverse ++ g.before } := by
  induction s generalizing before inside? with
  | nil => cases inside? <;> rfl
  | cons c s ih =>
    cases inside? with
    | none =>
      rw [seekGroup, seekGroup]
      split_ifs
      · exact ih before (some [])
      · exact ih (c :: before) none
    | some inside =>
      rw [seekGroup, seekGroup]
      split_ifs
      · simpa using ih (inside ++ '\x7b' :: before) (some [])
      · simp
      · exact ih before (some (c :: inside))

theorem firstGroup?_append (hu : '\x7b' ∉ u) :
    firstGroup? (u ++ s) =
      (firstGroup? s).map fun g => { g with before := u ++ g.before } := by
  have happend := seekGroup_append (s := s) [] u.reverse none
  rw [List.reverse_reverse] at happend
  rw [firstGroup?, firstGroup?, seekGroup_of_not_open hu, List.append_nil]
  exact happend

theorem firstGroup?_group (hw : IsBare w) (t : List Char) :
    firstGroup? ('\x7b' :: (w ++ '\x7d' :: t)) = some ⟨[], w, t⟩ := by
  have hread : ∀ r, seekGroup [] (some r) (w ++ '\x7d' :: t) = some ⟨[], r.reverse ++ w, t⟩ := by
    induction w with
    | nil => simp [seekGroup]
    | cons c w ih =>
      intro r
      obtain ⟨hopen, hclose⟩ := brace_eq_zero_iff.1 (hw c List.mem_cons_self)
      rw [List.cons_append, seekGroup, if_neg hopen, if_neg hclose, ih hw.tail]
      simp
  exact hread []

/-! ### One group after another -/

/-- Replacing a group by one of its alternatives takes one opening brace away. -/
theorem count_choice (h : firstGroup? s = some g) (hc : x ∈ Text.splitOn ',' g.inside) :
    (g.before ++ x ++ g.after).count '\x7b' + 1 = s.count '\x7b' := by
  have hinside := bare_of_firstGroup? h
  rw [← text_of_firstGroup? h, Group.text]
  simp only [List.count_append, List.count_cons_self, List.count_cons, beq_iff_eq,
    List.count_eq_zero_of_not_mem hinside.not_open,
    List.count_eq_zero_of_not_mem (hinside.choice hc).not_open]
  simp
  omega

theorem expandBraces_of_none (h : firstGroup? s = none) : expandBraces s = [s] := by
  rw [expandBraces]
  cases s.count '\x7b' with
  | zero => rfl
  | succ n => rw [expand, h]

theorem expandBraces_of_some (h : firstGroup? s = some g) :
    expandBraces s = (Text.splitOn ',' g.inside).flatMap fun choice =>
      expandBraces (g.before ++ choice ++ g.after) := by
  obtain ⟨first, more, hchoices⟩ :=
    List.exists_cons_of_ne_nil (Text.splitOn_ne_nil ',' g.inside)
  have hcount := count_choice h (hchoices ▸ List.mem_cons_self)
  rw [expandBraces, ← hcount, expand, h]
  refine List.flatMap_congr fun x hx => ?_
  have hsame := count_choice h hx
  rw [expandBraces, show (g.before ++ first ++ g.after).count '\x7b' =
    (g.before ++ x ++ g.after).count '\x7b' by omega]

/-- What holds of a text without groups, and of a text if it holds of each with an alternative for
the first group, holds of every text. -/
theorem expandBraces_induction {P : List Char → Prop} (none : ∀ s, firstGroup? s = none → P s)
    (group : ∀ s g, firstGroup? s = some g →
      (∀ x ∈ Text.splitOn ',' g.inside, P (g.before ++ x ++ g.after)) → P s) (s : List Char) :
    P s := by
  induction hn : s.count '\x7b' generalizing s with
  | zero =>
    cases hg : firstGroup? s with
    | none => exact none s hg
    | some g =>
      refine group s g hg fun x hx => ?_
      have := count_choice hg hx
      omega
  | succ n ih =>
    cases hg : firstGroup? s with
    | none => exact none s hg
    | some g =>
      refine group s g hg fun x hx => ih _ ?_
      have := count_choice hg hx
      omega

theorem not_hasGroup_of_mem (he : e ∈ expandBraces s) : ¬ HasGroup e := by
  induction s using expandBraces_induction with
  | none s hs =>
    rw [expandBraces_of_none hs] at he
    rw [List.mem_singleton.1 he]
    exact firstGroup?_eq_none_iff.1 hs
  | group s g hg ih =>
    rw [expandBraces_of_some hg] at he
    obtain ⟨x, hx, he⟩ := List.mem_flatMap.1 he
    exact ih x hx he

theorem expandBraces_append (hu : IsBare u) (s : List Char) :
    expandBraces (u ++ s) = (expandBraces s).map (u ++ ·) := by
  induction s using expandBraces_induction with
  | none s hs =>
    rw [expandBraces_of_none hs, expandBraces_of_none]
    · rfl
    · rw [firstGroup?_append hu.not_open, hs]
      rfl
  | group s g hg ih =>
    have happend : firstGroup? (u ++ s) = some { g with before := u ++ g.before } := by
      rw [firstGroup?_append hu.not_open, hg]
      rfl
    rw [expandBraces_of_some hg, expandBraces_of_some happend, List.map_flatMap]
    refine List.flatMap_congr fun x hx => ?_
    rw [← ih x hx]
    simp

end QueryTypes.Glob
