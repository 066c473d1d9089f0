import QueryTypes.Text.Basic

/-! Sorted texts: sorting keeps what is there, and puts distinct texts in increasing order. -/

namespace QueryTypes.Text

theorem nodup_eraseDups {α : Type} [BEq α] [LawfulBEq α] (xs : List α) : xs.eraseDups.Nodup := by
  match xs with
  | [] => simp
  | x :: xs =>
    have hlt : (xs.filter fun b => !b == x).length < xs.length + 1 :=
      Nat.lt_succ_of_le (List.length_filter_le _ _)
    rw [List.eraseDups_cons, List.nodup_cons, List.mem_eraseDups]
    exact ⟨by simp, nodup_eraseDups _⟩
termination_by xs.length

theorem eraseDups_sublist {α : Type} [BEq α] [LawfulBEq α] (xs : List α) :
    xs.eraseDups.Sublist xs := by
  match xs with
  | [] => simp
  | x :: xs =>
    have hlt : (xs.filter fun b => !b == x).length < xs.length + 1 :=
      Nat.lt_succ_of_le (List.length_filter_le _ _)
    rw [List.eraseDups_cons]
    exact ((eraseDups_sublist _).trans List.filter_sublist).cons_cons x
termination_by xs.length

theorem append_lt_append_iff {front s t : String} : front ++ s < front ++ t ↔ s < t := by
  change (front ++ s).toList < (front ++ t).toList ↔ s.toList < t.toList
  rw [String.toList_append, String.toList_append]
  generalize front.toList = cs
  induction cs with
  | nil => rfl
  | cons c cs ih => simpa using ih

/-- Sorting by a key puts items with distinct keys in increasing order of their keys. -/
theorem pairwise_mergeSort_lt {α : Type} (key : α → String) {xs : List α}
    (h : (xs.map key).Nodup) :
    (xs.mergeSort fun a b => !decide (key b < key a)).Pairwise fun a b => key a < key b := by
  have hle : ∀ a b : α, (!decide (key b < key a)) = true ↔ key a ≤ key b := by
    intro a b
    rw [Bool.not_eq_true', decide_eq_false_iff_not, String.not_lt]
  have hs := List.pairwise_mergeSort
    (fun a b c hab hbc => (hle a c).2 (String.le_trans ((hle a b).1 hab) ((hle b c).1 hbc)))
    (fun a b => by
      rw [Bool.or_eq_true, hle, hle]
      exact String.le_total _ _) xs
  have hperm := List.mergeSort_perm xs fun a b => !decide (key b < key a)
  have hnd := List.pairwise_map.1 ((hperm.map key).nodup_iff.2 h)
  refine (hs.and hnd).imp ?_
  rintro a b ⟨hab, hne⟩
  rcases Classical.em (key a < key b) with hlt | hlt
  · exact hlt
  · exact absurd (String.le_antisymm ((hle a b).1 hab) (String.not_lt.1 hlt)) hne

theorem mem_sorted {x : String} {xs : List String} : x ∈ sorted xs ↔ x ∈ xs := by
  rw [sorted, List.mem_mergeSort]

theorem pairwise_sorted {xs : List String} (h : xs.Nodup) : (sorted xs).Pairwise (· < ·) :=
  pairwise_mergeSort_lt id (by simpa using h)

theorem eq_of_pairwise_lt {α : Type} (key : α → String) {xs ys : List α}
    (hx : xs.Pairwise fun a b => key a < key b) (hy : ys.Pairwise fun a b => key a < key b)
    (h : ∀ a, a ∈ xs ↔ a ∈ ys) : xs = ys := by
  induction xs generalizing ys with
  | nil =>
    cases ys with
    | nil => rfl
    | cons y ys => exact absurd ((h y).2 (by simp)) (by simp)
  | cons x xs ih =>
    cases ys with
    | nil => exact absurd ((h x).1 (by simp)) (by simp)
    | cons y ys =>
      rw [List.pairwise_cons] at hx hy
      -- neither head can stand behind the other one
      have hxy : x = y := by
        rcases List.mem_cons.1 ((h x).1 (by simp)) with hxy | hmem
        · exact hxy
        · rcases List.mem_cons.1 ((h y).2 (by simp)) with hyx | hmem'
          · exact hyx.symm
          · exact absurd (hx.1 y hmem') (String.lt_asymm (hy.1 x hmem))
      subst hxy
      congr 1
      apply ih hx.2 hy.2
      intro a
      have irrefl : ∀ zs : List α, (∀ b ∈ zs, key x < key b) → x ∉ zs :=
        fun zs hz hmem => String.lt_irrefl _ (hz x hmem)
      have ha := h a
      simp only [List.mem_cons] at ha
      by_cases hax : a = x
      · subst hax
        simp [irrefl xs hx.1, irrefl ys hy.1]
      · simpa [hax] using ha

end QueryTypes.Text
