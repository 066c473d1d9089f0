import Mathlib.Data.List.Nodup
import Mathlib.Data.List.Perm.Subperm
import QueryTypes.Closure

/-!
# Everything that can be reached

Each step takes one name off the pending ones, and a name becomes pending only when it is found. So
as many steps as there are known names leave none pending, and what is found then holds the known
start names and every known name that one of its own leads to. Nothing else is ever found, so that
what is found are the names that can be reached, each once.
-/

namespace QueryTypes.Closure

variable {names start : List String} {next : String → List String} {fr : Frontier}

/-- What taking note of some names adds: known names that were not found, each once. -/
theorem foldl_note (known : String → Bool) (fr : Frontier) (ns : List String) :
    ∃ new, ns.foldl (Frontier.note known) fr = ⟨new ++ fr.found, new ++ fr.pending⟩ ∧
      (∀ n ∈ new, known n = true) ∧ (∀ n ∈ ns, known n = true → n ∈ new ++ fr.found) ∧
      (fr.found.Nodup → (new ++ fr.found).Nodup) := by
  induction ns generalizing fr with
  | nil => exact ⟨[], rfl, by simp, by simp, id⟩
  | cons n ns ih =>
    rw [List.foldl_cons]
    by_cases hn : (fr.found.contains n || !known n) = true
    · rw [Frontier.note, if_pos hn]
      obtain ⟨new, heq, hnew, hmem, hnodup⟩ := ih fr
      refine ⟨new, heq, hnew, ?_, hnodup⟩
      intro m hm hk
      rcases List.mem_cons.1 hm with rfl | hm
      · have hfound : m ∈ fr.found := by simpa [hk] using hn
        exact List.mem_append_right _ hfound
      · exact hmem m hm hk
    · rw [Frontier.note, if_neg hn]
      obtain ⟨new, heq, hnew, hmem, hnodup⟩ := ih ⟨n :: fr.found, n :: fr.pending⟩
      obtain ⟨hfresh, hknown⟩ : n ∉ fr.found ∧ known n = true := by simpa using hn
      refine ⟨new ++ [n], by simp [heq], ?_, ?_, ?_⟩
      · intro m hm
        rcases List.mem_append.1 hm with hm | hm
        · exact hnew m hm
        · rwa [List.mem_singleton.1 hm]
      · intro m hm hk
        rcases List.mem_cons.1 hm with rfl | hm
        · simp
        · simpa using hmem m hm hk
      · intro hd
        simpa using hnodup (List.nodup_cons.2 ⟨hfresh, hd⟩)

/-- What holds while steps are taken; the number is that of the steps that are left. -/
structure Searching (names : List String) (next : String → List String) (steps : Nat)
    (fr : Frontier) : Prop where
  nodup : fr.found.Nodup
  known : ∀ n ∈ fr.found, n ∈ names
  pending : ∀ n ∈ fr.pending, n ∈ fr.found
  taken : ∀ n ∈ fr.found, n ∉ fr.pending → ∀ m ∈ next n, m ∈ names → m ∈ fr.found
  enough : fr.pending.length + names.length ≤ steps + fr.found.length

/-- A set of known names with all that its names lead to. -/
structure Closed (names : List String) (next : String → List String) (found : List String) :
    Prop where
  known : ∀ n ∈ found, n ∈ names
  closed : ∀ n ∈ found, ∀ m ∈ next n, m ∈ names → m ∈ found

theorem Searching.closed {steps : Nat} (h : Searching names next steps fr)
    (hnone : fr.pending = []) : Closed names next fr.found :=
  ⟨h.known, fun n hn => h.taken n hn (by simp [hnone])⟩

theorem Searching.step {k : String} {rest : List String} {steps : Nat}
    (h : Searching names next (steps + 1) fr) (hp : fr.pending = k :: rest) :
    Searching names next steps
        ((next k).foldl (Frontier.note names.contains) ⟨fr.found, rest⟩) ∧
      ∀ n ∈ fr.found,
        n ∈ ((next k).foldl (Frontier.note names.contains) ⟨fr.found, rest⟩).found := by
  obtain ⟨new, heq, hnew, hmem, hnodup⟩ :=
    foldl_note names.contains ⟨fr.found, rest⟩ (next k)
  rw [heq]
  refine ⟨⟨hnodup h.nodup, ?_, ?_, ?_, ?_⟩, fun n hn => List.mem_append_right _ hn⟩
  · intro n hn
    rcases List.mem_append.1 hn with hn | hn
    · simpa using hnew n hn
    · exact h.known n hn
  · intro n hn
    rcases List.mem_append.1 hn with hn | hn
    · exact List.mem_append_left _ hn
    · exact List.mem_append_right _ (h.pending n (by rw [hp]; exact List.mem_cons_of_mem _ hn))
  · intro n hn hnot m hm hk
    rcases List.mem_append.1 hn with hn | hn
    · exact absurd (List.mem_append_left _ hn) hnot
    · -- only `k` has been taken since, and what it leads to is noted
      by_cases hnk : n = k
      · subst hnk
        exact hmem m hm (by simpa using hk)
      · refine List.mem_append_right _ (h.taken n hn ?_ m hm hk)
        rw [hp, List.mem_cons, not_or]
        exact ⟨hnk, fun hr => hnot (List.mem_append_right _ hr)⟩
  · have henough := h.enough
    rw [hp] at henough
    simp only [List.length_append, List.length_cons] at henough ⊢
    omega

/-- All names are found when no step is left, so that none can be pending. -/
theorem Searching.pending_eq_nil (h : Searching names next 0 fr) : fr.pending = [] := by
  have hle : fr.found.length ≤ names.length := (List.subperm_of_subset h.nodup h.known).length_le
  have henough := h.enough
  apply List.eq_nil_of_length_eq_zero
  omega

theorem Searching.close {steps : Nat} (h : Searching names next steps fr) :
    Closed names next (Frontier.close names.contains next steps fr) ∧
      ∀ n ∈ fr.found, n ∈ Frontier.close names.contains next steps fr := by
  induction steps generalizing fr with
  | zero => exact ⟨h.closed h.pending_eq_nil, fun _ hn => hn⟩
  | succ steps ih =>
    rw [Frontier.close]
    split
    · rename_i hnone
      exact ⟨h.closed hnone, fun _ hn => hn⟩
    · rename_i k rest hp
      obtain ⟨hstep, hsub⟩ := h.step hp
      obtain ⟨hclosed, hfound⟩ := ih hstep
      exact ⟨hclosed, fun n hn => hfound n (hsub n hn)⟩

theorem searching_start (names : List String) (next : String → List String) (start : List String) :
    Searching names next (names.length + 1)
      (start.foldl (Frontier.note names.contains) ⟨[], []⟩) := by
  obtain ⟨new, heq, hnew, -, hnodup⟩ := foldl_note names.contains ⟨[], []⟩ start
  rw [heq]
  refine ⟨hnodup List.nodup_nil, ?_, fun n hn => hn, fun n hn hnot => absurd hn hnot, ?_⟩
  · intro n hn
    simpa using hnew n (by simpa using hn)
  · simp only [List.append_nil]
    omega

theorem closed_reach (names : List String) (next : String → List String) (start : List String) :
    Closed names next (reach names next start) ∧
      ∀ n ∈ start, n ∈ names → n ∈ reach names next start := by
  obtain ⟨new, heq, -, hmem, -⟩ := foldl_note names.contains ⟨[], []⟩ start
  obtain ⟨hclosed, hfound⟩ := (searching_start names next start).close
  refine ⟨hclosed, fun n hn hk => hfound n ?_⟩
  rw [heq]
  exact hmem n hn (by simpa using hk)

/-! ### Nothing else is found -/

/-- The known names that the start names are or lead to. -/
inductive Reachable (names : List String) (next : String → List String) (start : List String) :
    String → Prop
  | start {n : String} : n ∈ start → n ∈ names → Reachable names next start n
  | step {m n : String} : Reachable names next start m → n ∈ next m → n ∈ names →
      Reachable names next start n

theorem mem_of_mem_foldl_note {known : String → Bool} {ns : List String} {n : String}
    (h : n ∈ (ns.foldl (Frontier.note known) fr).found) :
    n ∈ fr.found ∨ n ∈ ns ∧ known n = true := by
  induction ns generalizing fr with
  | nil => exact .inl h
  | cons m ns ih =>
    rcases ih h with hfound | ⟨hmem, hk⟩
    · rw [Frontier.note] at hfound
      by_cases hm : (fr.found.contains m || !known m) = true
      · rw [if_pos hm] at hfound
        exact .inl hfound
      · rw [if_neg hm] at hfound
        rcases List.mem_cons.1 hfound with rfl | hfound
        · exact .inr ⟨List.mem_cons_self, by simpa using (not_or.1 (mt Bool.or_eq_true_iff.2 hm)).2⟩
        · exact .inl hfound
    · exact .inr ⟨List.mem_cons_of_mem _ hmem, hk⟩

theorem Searching.reachable {steps : Nat} (start : List String)
    (h : Searching names next steps fr)
    (hfound : ∀ n ∈ fr.found, Reachable names next start n) :
    (Frontier.close names.contains next steps fr).Nodup ∧
      ∀ n ∈ Frontier.close names.contains next steps fr, Reachable names next start n := by
  induction steps generalizing fr with
  | zero => exact ⟨h.nodup, hfound⟩
  | succ steps ih =>
    rw [Frontier.close]
    split
    · exact ⟨h.nodup, hfound⟩
    · rename_i k rest hp
      apply ih (h.step hp).1
      intro n hn
      rcases mem_of_mem_foldl_note hn with hn | ⟨hn, hk⟩
      · exact hfound n hn
      · have hkfound : k ∈ fr.found := h.pending k (by rw [hp]; exact List.mem_cons_self)
        exact .step (hfound k hkfound) hn (by simpa using hk)

theorem reachable_of_mem_start {n : String}
    (h : n ∈ (start.foldl (Frontier.note names.contains) ⟨[], []⟩).found) :
    Reachable names next start n := by
  rcases mem_of_mem_foldl_note h with hn | ⟨hn, hk⟩
  · exact absurd hn List.not_mem_nil
  · exact .start hn (by simpa using hk)

theorem nodup_reach (names : List String) (next : String → List String) (start : List String) :
    (reach names next start).Nodup :=
  ((searching_start names next start).reachable start fun _ => reachable_of_mem_start).1

/-- What is found are the names that can be reached. -/
theorem mem_reach_iff {n : String} :
    n ∈ reach names next start ↔ Reachable names next start n := by
  constructor
  · have hsearching := searching_start names next start
    exact (hsearching.reachable start fun _ => reachable_of_mem_start).2 n
  · intro h
    obtain ⟨hclosed, hstart⟩ := closed_reach names next start
    induction h with
    | start hn hk => exact hstart _ hn hk
    | step _ hn hk ih => exact hclosed.closed _ ih _ hn hk

/-! ### Without a limit on the steps -/

/-- A search that goes on until nothing is pending, with what is found then. -/
inductive Ends (known : String → Bool) (next : String → List String) :
    Frontier → List String → Prop
  | done {found : List String} : Ends known next ⟨found, []⟩ found
  | step {found rest result : List String} {k : String} :
      Ends known next ((next k).foldl (Frontier.note known) ⟨found, rest⟩) result →
        Ends known next ⟨found, k :: rest⟩ result

theorem Ends.unique {known : String → Bool} {result result' : List String}
    (h : Ends known next fr result) (h' : Ends known next fr result') : result = result' := by
  induction h with
  | done =>
    cases h'
    rfl
  | step _ ih =>
    cases h' with
    | step h' => exact ih h'

/-- The steps that are left are enough for the search to come to its end. -/
theorem Searching.ends {steps : Nat} (h : Searching names next steps fr) :
    Ends names.contains next fr (Frontier.close names.contains next steps fr) := by
  induction steps generalizing fr with
  | zero =>
    obtain ⟨found, pending⟩ := fr
    obtain rfl : pending = [] := h.pending_eq_nil
    exact .done
  | succ steps ih =>
    obtain ⟨found, pending⟩ := fr
    cases pending with
    | nil => exact .done
    | cons k rest => exact .step (ih (h.step rfl).1)

/-- What the search from some names finds when it goes on until nothing is pending. -/
def Finds (names : List String) (next : String → List String) (start found : List String) : Prop :=
  Ends names.contains next (start.foldl (Frontier.note names.contains) ⟨[], []⟩) found

theorem finds_iff {found : List String} :
    Finds names next start found ↔ found = reach names next start := by
  have hends : Finds names next start (reach names next start) :=
    (searching_start names next start).ends
  constructor
  · intro h
    exact h.unique hends
  · rintro rfl
    exact hends

end QueryTypes.Closure

/-!
### Names that wait in a queue

The names that can be reached may also be taken from a queue, where each one puts those that it
leads to at the end. A name may wait there several times and is taken only once; so the names that
are left to be taken get fewer, or the queue gets shorter, and the queue runs empty in the end. The
names taken are then those that can be reached.
-/

namespace QueryTypes.Closure

/-- What is taken from a queue until it is empty, after the names taken before. -/
inductive Drains (next : String → List String) :
    List String → List String → List String → Prop
  | done {taken : List String} : Drains next [] taken taken
  | again {k : String} {rest taken result : List String} :
      k ∈ taken → Drains next rest taken result → Drains next (k :: rest) taken result
  | take {k : String} {rest taken result : List String} :
      k ∉ taken → Drains next (rest ++ (next k).filter (· ∉ k :: taken)) (k :: taken) result →
        Drains next (k :: rest) taken result

variable {names queue taken result : List String} {next : String → List String} {n : String}

theorem Drains.unique {result' : List String} (h : Drains next queue taken result)
    (h' : Drains next queue taken result') : result = result' := by
  induction h with
  | done =>
    cases h'
    rfl
  | again hmem _ ih =>
    cases h' with
    | again _ h' => exact ih h'
    | take hnew _ => exact absurd hmem hnew
  | take hnew _ ih =>
    cases h' with
    | again hmem _ => exact absurd hmem hnew
    | take _ h' => exact ih h'

theorem length_lt_of_not_mem {k : String} (hnodup : taken.Nodup) (htaken : ∀ n ∈ taken, n ∈ names)
    (hk : k ∈ names) (hnew : k ∉ taken) : taken.length < names.length := by
  have hcons : (k :: taken).Nodup := List.nodup_cons.2 ⟨hnew, hnodup⟩
  have hsub : ∀ n ∈ k :: taken, n ∈ names := List.forall_mem_cons.2 ⟨hk, htaken⟩
  have hle := (List.subperm_of_subset hcons hsub).length_le
  rw [List.length_cons] at hle
  omega

theorem exists_drains (hnext : ∀ k, ∀ m ∈ next k, m ∈ names) : (queue taken : List String) →
    taken.Nodup → (∀ n ∈ taken, n ∈ names) → (∀ n ∈ queue, n ∈ names) →
      ∃ result, Drains next queue taken result
  | [], taken, _, _, _ => ⟨taken, .done⟩
  | k :: rest, taken, hnodup, htaken, hqueue => by
    obtain ⟨hk, hrest⟩ := List.forall_mem_cons.1 hqueue
    by_cases hmem : k ∈ taken
    · obtain ⟨result, h⟩ := exists_drains hnext rest taken hnodup htaken hrest
      exact ⟨result, .again hmem h⟩
    · have hroom := length_lt_of_not_mem hnodup htaken hk hmem
      have hlater : ∀ n ∈ rest ++ (next k).filter (· ∉ k :: taken), n ∈ names := by
        intro n hn
        rcases List.mem_append.1 hn with hn | hn
        · exact hrest n hn
        · exact hnext k n (List.mem_filter.1 hn).1
      obtain ⟨result, h⟩ := exists_drains hnext _ (k :: taken) (List.nodup_cons.2 ⟨hmem, hnodup⟩)
        (List.forall_mem_cons.2 ⟨hk, htaken⟩) hlater
      exact ⟨result, .take hmem h⟩
termination_by queue taken => (names.length - taken.length, queue.length)

/-- What was taken stays so, what waits is taken, and so is what any name leads to that is taken
meanwhile. -/
structure Drained (next : String → List String) (queue taken result : List String) : Prop where
  nodup : taken.Nodup → result.Nodup
  kept : ∀ n ∈ taken, n ∈ result
  waiting : ∀ n ∈ queue, n ∈ result
  closed : ∀ n ∈ result, n ∉ taken → ∀ m ∈ next n, m ∈ result

theorem Drained.take {k : String} {rest : List String} (hnew : k ∉ taken)
    (h : Drained next (rest ++ (next k).filter (· ∉ k :: taken)) (k :: taken) result) :
    Drained next (k :: rest) taken result where
  nodup hnodup := h.nodup (List.nodup_cons.2 ⟨hnew, hnodup⟩)
  kept n hn := h.kept n (List.mem_cons_of_mem _ hn)
  waiting n hn := by
    rcases List.mem_cons.1 hn with rfl | hn
    · exact h.kept n List.mem_cons_self
    · exact h.waiting n (List.mem_append_left _ hn)
  closed n hn hnot m hm := by
    by_cases hnk : n = k
    · -- a name that `k` leads to was taken before or waits at the end
      subst hnk
      by_cases hmem : m ∈ n :: taken
      · exact h.kept m hmem
      · exact h.waiting m (List.mem_append_right _ (List.mem_filter.2 ⟨hm, by simpa using hmem⟩))
    · exact h.closed n hn (by simp [hnk, hnot]) m hm

theorem Drains.drained (h : Drains next queue taken result) :
    Drained next queue taken result := by
  induction h with
  | done =>
    exact ⟨id, fun _ hn => hn, fun n hn => absurd hn List.not_mem_nil,
      fun n hn hnot => absurd hn hnot⟩
  | again hmem _ ih =>
    refine ⟨ih.nodup, ih.kept, ?_, ih.closed⟩
    exact List.forall_mem_cons.2 ⟨ih.kept _ hmem, ih.waiting⟩
  | take hnew _ ih => exact ih.take hnew

theorem Drains.reachable {start : List String} (h : Drains next queue taken result)
    (hnext : ∀ k, ∀ m ∈ next k, m ∈ names) (htaken : ∀ n ∈ taken, Reachable names next start n)
    (hqueue : ∀ n ∈ queue, Reachable names next start n) :
    ∀ n ∈ result, Reachable names next start n := by
  induction h with
  | done => exact htaken
  | again _ _ ih => exact ih htaken (List.forall_mem_cons.1 hqueue).2
  | @take k rest taken result _ _ ih =>
    obtain ⟨hk, hrest⟩ := List.forall_mem_cons.1 hqueue
    refine ih (List.forall_mem_cons.2 ⟨hk, htaken⟩) fun n hn => ?_
    rcases List.mem_append.1 hn with hn | hn
    · exact hrest n hn
    · have hmem := (List.mem_filter.1 hn).1
      exact .step hk hmem (hnext k n hmem)

/-- The queue runs empty in one way, and what was taken then is what can be reached. -/
theorem exists_drains_reach (hnext : ∀ k, ∀ m ∈ next k, m ∈ names)
    (hqueue : ∀ n ∈ queue, n ∈ names) :
    ∃ result, (∀ result', Drains next queue [] result' ↔ result' = result) ∧
      result.Perm (reach names next queue) := by
  obtain ⟨result, h⟩ := exists_drains hnext queue [] List.nodup_nil (by simp) hqueue
  have hdrained := h.drained
  refine ⟨result, fun result' => ⟨fun h' => h'.unique h, fun heq => heq ▸ h⟩,
    (List.perm_ext_iff_of_nodup (hdrained.nodup List.nodup_nil)
      (nodup_reach names next queue)).2 fun n => ?_⟩
  rw [mem_reach_iff]
  constructor
  · exact h.reachable hnext (by simp) (fun n hn => .start hn (hqueue n hn)) n
  · intro hn
    induction hn with
    | start hn _ => exact hdrained.waiting _ hn
    | step _ hn _ ih => exact hdrained.closed _ ih List.not_mem_nil _ hn

end QueryTypes.Closure
