import Mathlib.Data.List.Nodup
import Mathlib.Data.List.Perm.Subperm
import QueryTypes.Cycle

/-!
# Searches that find no way back

When a search finds no way from a name back to itself, the names that it has left stand in an order
in which each one leads to earlier ones only.
-/

namespace QueryTypes.Cycle

variable {α : Type} {next : String → List (α × String)} {names : List String} {name : String}
  {path : List (String × α)} {st : Search α} {order : List String} {n : Nat}

/-- An order, the last name first, in which each name leads to earlier ones only. -/
inductive Settled (leads : String → List String) : List String → Prop
  | nil : Settled leads []
  | cons {order : List String} {name : String} : Settled leads order → name ∉ order →
      (∀ n ∈ leads name, n ∈ order) → Settled leads (name :: order)

theorem Settled.nodup {leads : String → List String} (h : Settled leads order) : order.Nodup := by
  induction h with
  | nil => exact List.nodup_nil
  | cons _ hnew _ ih => exact List.nodup_cons.2 ⟨hnew, ih⟩

theorem Settled.mono {leads leads' : String → List String} (h : Settled leads order)
    (hleads : ∀ n, leads' n ⊆ leads n) : Settled leads' order := by
  induction h with
  | nil => exact .nil
  | cons _ hnew hall ih => exact .cons ih hnew fun n hn => hall n (hleads _ hn)

/-- Where the steps from a name lead. -/
def targets (next : String → List (α × String)) (name : String) : List String :=
  (next name).map Prod.snd

/-- One step of the search from a name. -/
def follow (next : String → List (α × String)) (n : Nat) (path : List (String × α)) (name : String)
    (st : Search α) (step : α × String) : Search α :=
  let way := path ++ [(name, step.1)]
  if way.any (·.1 == step.2) then
    { st with found := st.found ++ [⟨step.2, (way.dropWhile (·.1 != step.2)).map Prod.snd⟩] }
  else search next n way st step.2

theorem search_succ : search next (n + 1) path st name =
    if st.visited.contains name then st
    else (next name).foldl (follow next n path name) { st with visited := name :: st.visited } := rfl

theorem found_foldl {f : Search α → α × String → Search α}
    (hf : ∀ st step, (f st step).found = [] → st.found = []) {steps : List (α × String)}
    (h : (steps.foldl f st).found = []) : st.found = [] := by
  induction steps generalizing st with
  | nil => exact h
  | cons step steps ih => exact hf st step (ih h)

/-- What has been found stays found. -/
theorem found_search (h : (search next n path st name).found = []) : st.found = [] := by
  induction n generalizing path st name with
  | zero => exact h
  | succ n ih =>
    rw [search_succ] at h
    split at h
    · exact h
    · have hmono : ∀ st step, (follow next n path name st step).found = [] → st.found = [] := by
        intro st step hfound
        rw [follow] at hfound
        split at hfound
        · simp at hfound
        · exact ih hfound
      have hfirst : (⟨name :: st.visited, st.found⟩ : Search α).found = [] := found_foldl hmono h
      exact hfirst

theorem found_of_follow {step : α × String} (h : (follow next n path name st step).found = []) :
    st.found = [] := by
  rw [follow] at h
  split at h
  · simp at h
  · exact found_search h

theorem found_follow {step : α × String} (h : (follow next n path name st step).found = []) :
    step.2 ∉ (path.map Prod.fst) ++ [name] ∧
      follow next n path name st step = search next n (path ++ [(name, step.1)]) st step.2 := by
  rw [follow] at h ⊢
  split at h
  · simp at h
  · rename_i hway
    rw [if_neg hway]
    refine ⟨?_, rfl⟩
    rw [Bool.not_eq_true, List.any_eq_false] at hway
    intro hmem
    rw [← List.map_singleton (f := Prod.fst) (a := (name, step.1)), ← List.map_append] at hmem
    obtain ⟨p, hp, hname⟩ := List.mem_map.1 hmem
    exact hway p hp (by simp [hname])

/-- A search under way: what was left is in order, apart from what is being left. -/
structure Progress (next : String → List (α × String)) (path : List String) (st : Search α)
    (order : List String) : Prop where
  settled : Settled (targets next) order
  mem_visited_iff : ∀ n, n ∈ st.visited ↔ n ∈ order ∨ n ∈ path
  disjoint : ∀ n ∈ order, n ∉ path

theorem Progress.enter {path : List String} (h : Progress next path st order)
    (hnew : name ∉ st.visited) :
    Progress next (path ++ [name]) { st with visited := name :: st.visited } order where
  settled := h.settled
  mem_visited_iff m := by
    change m ∈ name :: st.visited ↔ _
    rw [List.mem_cons, h.mem_visited_iff, List.mem_append, List.mem_singleton]
    tauto
  disjoint m hm hmem := by
    rcases List.mem_append.1 hmem with hmem | hmem
    · exact h.disjoint m hm hmem
    · rw [List.mem_singleton.1 hmem] at hm
      exact hnew ((h.mem_visited_iff name).2 (.inl hm))

/-- When all that a name leads to is in order, the name can follow. -/
theorem Progress.leave {path : List String} (h : Progress next (path ++ [name]) st order)
    (hname : name ∉ path) (hbefore : ∀ m ∈ targets next name, m ∈ order) :
    Progress next path st (name :: order) where
  settled := .cons h.settled (fun hmem => h.disjoint name hmem (by simp)) hbefore
  mem_visited_iff m := by
    rw [h.mem_visited_iff, List.mem_append, List.mem_singleton, List.mem_cons]
    tauto
  disjoint m hm hmem := by
    rcases List.mem_cons.1 hm with rfl | hm
    · exact hname hmem
    · exact h.disjoint m hm (List.mem_append_left _ hmem)

/-- With so much left to go, no search is cut short. -/
structure Room (names path : List String) (n : Nat) : Prop where
  nodup : path.Nodup
  known : ∀ name ∈ path, name ∈ names
  bound : names.length < path.length + n

theorem Room.enter {path : List String} (h : Room names path (n + 1)) (hnew : name ∉ path)
    (hname : name ∈ names) : Room names (path ++ [name]) n where
  nodup := by
    rw [← List.concat_eq_append, List.nodup_concat]
    exact ⟨hnew, h.nodup⟩
  known := by
    intro m hm
    rcases List.mem_append.1 hm with hm | hm
    · exact h.known m hm
    · rw [List.mem_singleton.1 hm]
      exact hname
  bound := by
    have hbound := h.bound
    rw [List.length_append, List.length_singleton]
    omega

theorem Room.ne_zero {path : List String} (h : Room names path n) : n ≠ 0 := by
  have hlength := (h.nodup.subperm h.known).length_le
  have hbound := h.bound
  omega

/-- A search that goes on from each step finds an order with all of them. -/
theorem Progress.foldl {path : List String} {f : Search α → α × String → Search α}
    (hfound : ∀ st step, (f st step).found = [] → st.found = []) {steps : List (α × String)}
    (hf : ∀ step ∈ steps, ∀ st order, Progress next path st order → (f st step).found = [] →
      ∃ order', Progress next path (f st step) order' ∧ order ⊆ order' ∧ step.2 ∈ order')
    (hst : Progress next path st order) (h : (steps.foldl f st).found = []) :
    ∃ order', Progress next path (steps.foldl f st) order' ∧ order ⊆ order' ∧
      ∀ step ∈ steps, step.2 ∈ order' := by
  induction steps generalizing st order with
  | nil => exact ⟨order, hst, List.Subset.refl _, by simp⟩
  | cons step steps ih =>
    obtain ⟨order₁, hst₁, hsub₁, hstep⟩ :=
      hf step List.mem_cons_self st order hst (found_foldl hfound h)
    obtain ⟨order₂, hst₂, hsub₂, hsteps⟩ :=
      ih (fun step hstep => hf step (List.mem_cons_of_mem _ hstep)) hst₁ h
    refine ⟨order₂, hst₂, List.Subset.trans hsub₁ hsub₂, ?_⟩
    intro step' hstep'
    rcases List.mem_cons.1 hstep' with rfl | hstep'
    · exact hsub₂ hstep
    · exact hsteps step' hstep'

/-- A search that finds nothing extends the order to the name that it goes on from. -/
theorem Progress.search (hnames : ∀ n, next n ≠ [] → n ∈ names)
    (hst : Progress next (path.map Prod.fst) st order) (hroom : Room names (path.map Prod.fst) n)
    (hname : name ∉ path.map Prod.fst) (h : (Cycle.search next n path st name).found = []) :
    ∃ order', Progress next (path.map Prod.fst) (Cycle.search next n path st name) order' ∧
      order ⊆ order' ∧ name ∈ order' := by
  induction n generalizing path st name order with
  | zero => exact absurd rfl hroom.ne_zero
  | succ n ih =>
    rw [search_succ] at h ⊢
    by_cases hvisited : st.visited.contains name = true
    · rw [if_pos hvisited]
      refine ⟨order, hst, List.Subset.refl _, ?_⟩
      exact ((hst.mem_visited_iff name).1 (by simpa using hvisited)).resolve_right hname
    · rw [if_neg hvisited] at h ⊢
      have hnew : name ∉ st.visited := by simpa using hvisited
      have hgoes : ∀ step ∈ next name, ∀ st order, Progress next (path.map Prod.fst ++ [name]) st order →
          (follow next n path name st step).found = [] → ∃ order',
            Progress next (path.map Prod.fst ++ [name]) (follow next n path name st step) order' ∧
              order ⊆ order' ∧ step.2 ∈ order' := by
        intro step hstep st order hst hfound
        obtain ⟨hway, heq⟩ := found_follow hfound
        rw [heq] at hfound ⊢
        have hpath : (path ++ [(name, step.1)]).map Prod.fst = path.map Prod.fst ++ [name] := by
          rw [List.map_append, List.map_singleton]
        have hin := hroom.enter hname (hnames name (List.ne_nil_of_mem hstep))
        rw [← hpath] at hst hway hin ⊢
        exact ih hst hin hway hfound
      obtain ⟨order', hst', hsub, hsteps⟩ :=
        (hst.enter hnew).foldl (fun _ _ => found_of_follow) hgoes h
      have hbefore : ∀ m ∈ targets next name, m ∈ order' := by
        intro m hm
        obtain ⟨step, hstep, rfl⟩ := List.mem_map.1 hm
        exact hsteps step hstep
      exact ⟨name :: order', hst'.leave hname hbefore,
        fun m hm => List.mem_cons_of_mem _ (hsub hm), List.mem_cons_self⟩

theorem Progress.fromName {visited : List String} (hnames : ∀ n, next n ≠ [] → n ∈ names)
    (hst : Progress next [] (⟨visited, []⟩ : Search α) order)
    (h : (Cycle.fromName next names visited name).found = []) :
    ∃ order', Progress next [] (Cycle.fromName next names visited name) order' ∧ order ⊆ order' ∧
      name ∈ order' := by
  have hroom : Room names (([] : List (String × α)).map Prod.fst) (names.length + 1) :=
    ⟨List.nodup_nil, by simp, by simp⟩
  have hstart : Progress next (([] : List (String × α)).map Prod.fst) ⟨visited, []⟩ order := hst
  exact hstart.search hnames hroom (by simp) h

end QueryTypes.Cycle
