import QueryTypes.Table

/-! What is found in a table was put there. -/

namespace QueryTypes.Table

variable {α : Type} {t : Table α} {k : String} {x : α}

theorem mem_of_lookup {xs : List (String × α)} (h : xs.lookup k = some x) : (k, x) ∈ xs := by
  obtain ⟨before, after, rfl, -⟩ := List.lookup_eq_some_iff.1 h
  simp

theorem exists_lookup {xs : List (String × α)} (h : (k, x) ∈ xs) : ∃ y, xs.lookup k = some y := by
  cases hfound : xs.lookup k with
  | some y => exact ⟨y, rfl⟩
  | none =>
    have hnone := List.lookup_eq_none_iff.1 hfound (k, x) h
    simp at hnone

theorem mem_keys_of_get? (h : t.get? k = some x) : k ∈ t.keys :=
  List.mem_map_of_mem (f := Prod.fst) (mem_of_lookup h)

theorem get?_of_mem {p : String × α} (h : t.keys.Nodup) (hp : p ∈ t) : t.get? p.1 = some p.2 := by
  induction t with
  | nil => cases hp
  | cons q t ih =>
    rw [keys, List.map_cons, List.nodup_cons] at h
    obtain ⟨hnew, hrest⟩ := h
    rw [get?, List.lookup_cons]
    rcases List.mem_cons.1 hp with rfl | hp
    · rw [beq_self_eq_true]
    · have hne : (p.1 == q.1) = false := by
        rw [beq_eq_false_iff_ne]
        intro heq
        exact hnew (heq ▸ List.mem_map_of_mem hp)
      rw [hne]
      exact ih hrest hp

theorem get?_of_perm {t' : Table α} (h : t.keys.Nodup) (hperm : t.Perm t') (k : String) :
    t.get? k = t'.get? k := by
  have hkeys' : t'.keys.Nodup := (hperm.map Prod.fst).nodup_iff.1 h
  refine Option.ext fun x => ?_
  constructor
  · intro hx
    exact get?_of_mem hkeys' (hperm.mem_iff.1 (mem_of_lookup hx))
  · intro hx
    exact get?_of_mem h (hperm.mem_iff.2 (mem_of_lookup hx))

theorem mem_of_mem_set {p : String × α} (h : p ∈ set k x t) : p = (k, x) ∨ p ∈ t := by
  induction t with
  | nil => exact .inl (List.mem_singleton.1 h)
  | cons q r ih =>
    obtain ⟨j, y⟩ := q
    rw [set] at h
    by_cases hj : j = k
    · rw [if_pos hj] at h
      rcases List.mem_cons.1 h with rfl | h
      · exact .inl (by rw [hj])
      · exact .inr (List.mem_cons_of_mem _ h)
    · rw [if_neg hj] at h
      rcases List.mem_cons.1 h with rfl | h
      · exact .inr List.mem_cons_self
      · rcases ih h with h | h
        · exact .inl h
        · exact .inr (List.mem_cons_of_mem _ h)

theorem keys_set (t : Table α) (k : String) (x : α) :
    (set k x t).keys = if k ∈ t.keys then t.keys else t.keys ++ [k] := by
  induction t with
  | nil => rfl
  | cons q r ih =>
    obtain ⟨j, y⟩ := q
    rw [set]
    by_cases hj : j = k
    · subst hj
      simp [keys]
    · rw [if_neg hj]
      change j :: keys (set k x r) = if k ∈ j :: keys r then j :: keys r else j :: keys r ++ [k]
      rw [ih]
      by_cases hk : k ∈ keys r
      · rw [if_pos hk, if_pos (List.mem_cons_of_mem _ hk)]
      · rw [if_neg hk, if_neg (by simp [Ne.symm hj, hk])]
        rfl

theorem nodup_keys_set (h : t.keys.Nodup) : (set k x t).keys.Nodup := by
  rw [keys_set]
  by_cases hk : k ∈ t.keys
  · rw [if_pos hk]
    exact h
  · rw [if_neg hk, List.nodup_append]
    refine ⟨h, by simp, ?_⟩
    intro a ha b hb hab
    rw [List.mem_singleton] at hb
    rw [hab, hb] at ha
    exact hk ha

theorem nodup_keys_foldl {ps : List (String × α)} (h : t.keys.Nodup) :
    (ps.foldl (fun t q => set q.1 q.2 t) t).keys.Nodup := by
  induction ps generalizing t with
  | nil => exact h
  | cons q ps ih => exact ih (nodup_keys_set h)

theorem nodup_keys_ofList (ps : List (String × α)) : (ofList ps).keys.Nodup :=
  nodup_keys_foldl List.nodup_nil

theorem mem_of_mem_foldl {ps : List (String × α)} {p : String × α}
    (h : p ∈ ps.foldl (fun t q => set q.1 q.2 t) t) : p ∈ t ∨ p ∈ ps := by
  induction ps generalizing t with
  | nil => exact .inl h
  | cons q ps ih =>
    rcases ih h with h | h
    · rcases mem_of_mem_set h with rfl | h
      · exact .inr List.mem_cons_self
      · exact .inl h
    · exact .inr (List.mem_cons_of_mem _ h)

theorem mem_of_mem_ofList {ps : List (String × α)} {p : String × α} (h : p ∈ ofList ps) :
    p ∈ ps := by
  rcases mem_of_mem_foldl h with h | h
  · simp at h
  · exact h

theorem mem_keys_foldl_iff {ps : List (String × α)} :
    k ∈ (ps.foldl (fun t q => set q.1 q.2 t) t).keys ↔ k ∈ t.keys ∨ k ∈ ps.map Prod.fst := by
  induction ps generalizing t with
  | nil => simp
  | cons q ps ih =>
    rw [List.foldl_cons, ih, keys_set, List.map_cons, List.mem_cons]
    split
    · rename_i hq
      constructor
      · rintro (h | h)
        · exact .inl h
        · exact .inr (.inr h)
      · rintro (h | rfl | h)
        · exact .inl h
        · exact .inl hq
        · exact .inr h
    · rw [List.mem_append, List.mem_singleton, or_assoc]

theorem mem_keys_ofList_iff {ps : List (String × α)} :
    k ∈ (ofList ps).keys ↔ k ∈ ps.map Prod.fst := by
  rw [ofList, mem_keys_foldl_iff]
  simp [keys]

theorem has_iff {t : Table α} : t.has k = true ↔ k ∈ t.keys := by
  rw [has, Option.isSome_iff_exists]
  constructor
  · rintro ⟨x, hx⟩
    exact mem_keys_of_get? hx
  · intro h
    obtain ⟨⟨j, x⟩, hx, rfl⟩ := List.mem_map.1 h
    exact exists_lookup hx

theorem set_of_not_mem {t : Table α} (h : k ∉ t.keys) : set k x t = t ++ [(k, x)] := by
  induction t with
  | nil => rfl
  | cons q t ih =>
    obtain ⟨hne, hrest⟩ := List.ne_and_not_mem_of_not_mem_cons h
    rw [set, if_neg (Ne.symm hne), ih hrest]
    rfl

theorem not_mem_keys_of_nodup {t : Table α} {p : String × α} {ps : List (String × α)}
    (h : (keys (t ++ p :: ps)).Nodup) : p.1 ∉ t.keys := by
  rw [keys, List.map_append, List.nodup_append] at h
  intro hmem
  exact h.2.2 _ hmem p.1 (by simp) rfl

theorem foldl_set_of_nodup {t : Table α} {ps : List (String × α)}
    (h : (keys (t ++ ps)).Nodup) : ps.foldl (fun t q => set q.1 q.2 t) t = t ++ ps := by
  induction ps generalizing t with
  | nil => simp
  | cons p ps ih =>
    have hsplit : t ++ p :: ps = (t ++ [p]) ++ ps := by simp
    rw [List.foldl_cons, set_of_not_mem (not_mem_keys_of_nodup h), hsplit]
    exact ih (hsplit ▸ h)

theorem ofList_of_nodup {ps : List (String × α)} (h : (ps.map Prod.fst).Nodup) :
    ofList ps = ps := by
  rw [ofList, foldl_set_of_nodup (by simpa [keys] using h), List.nil_append]

theorem foldl_setNew_of_nodup {t : Table α} {ps : List (String × α)}
    (h : (keys (t ++ ps)).Nodup) : ps.foldl (fun t q => setNew q.1 q.2 t) t = t ++ ps := by
  induction ps generalizing t with
  | nil => simp
  | cons p ps ih =>
    have hsplit : t ++ p :: ps = (t ++ [p]) ++ ps := by simp
    rw [List.foldl_cons, setNew, if_neg (mt has_iff.1 (not_mem_keys_of_nodup h)), hsplit]
    exact ih (hsplit ▸ h)

theorem ofListFirst_of_nodup {ps : List (String × α)} (h : (ps.map Prod.fst).Nodup) :
    ofListFirst ps = ps := by
  rw [ofListFirst, foldl_setNew_of_nodup (by simpa [keys] using h), List.nil_append]

theorem get?_set (t : Table α) (j : String) :
    (set k x t).get? j = if j = k then some x else t.get? j := by
  induction t with
  | nil =>
    rw [set, get?, List.lookup_cons]
    by_cases hj : j = k
    · simp [hj]
    · rw [beq_false_of_ne hj, if_neg hj]
      rfl
  | cons q t ih =>
    obtain ⟨i, y⟩ := q
    rw [set]
    by_cases hi : i = k
    · subst hi
      rw [if_pos rfl, get?, get?, List.lookup_cons, List.lookup_cons]
      by_cases hj : j = i
      · simp [hj]
      · rw [beq_false_of_ne hj, if_neg hj]
    · rw [if_neg hi, get?, get?, List.lookup_cons, List.lookup_cons]
      by_cases hj : j = i
      · subst hj
        simp [hi]
      · rw [beq_false_of_ne hj]
        exact ih

theorem get?_eq_none_iff : t.get? k = none ↔ k ∉ t.keys := by
  rw [← has_iff, has, Bool.not_eq_true, Option.isSome_eq_false_iff, Option.isNone_iff_eq_none]

theorem get?_foldl_filter {p : String → Bool} (hk : p k = true) {ps : List (String × α)}
    {t t' : Table α} (h : t.get? k = t'.get? k) :
    Table.get? ((ps.filter fun q => p q.1).foldl (fun t q => set q.1 q.2 t) t) k =
      Table.get? (ps.foldl (fun t q => set q.1 q.2 t) t') k := by
  induction ps generalizing t t' with
  | nil => exact h
  | cons q ps ih =>
    rw [List.filter_cons, List.foldl_cons]
    by_cases hq : p q.1 = true
    · rw [if_pos hq, List.foldl_cons]
      exact ih (by rw [get?_set, get?_set, h])
    · rw [if_neg hq]
      have hne : k ≠ q.1 := by
        rintro rfl
        exact hq hk
      exact ih (by rw [get?_set, if_neg hne, h])

/-- Leaving out pairs with other keys makes no difference to a key. -/
theorem get?_ofList_filter {p : String → Bool} {ps : List (String × α)}
    (hp : k ∈ ps.map Prod.fst → p k = true) :
    (ofList (ps.filter fun q => p q.1)).get? k = (ofList ps).get? k := by
  by_cases hkey : k ∈ ps.map Prod.fst
  · exact get?_foldl_filter (hp hkey) rfl
  · have hfiltered : k ∉ (ps.filter fun q => p q.1).map Prod.fst := by
      intro hmem
      obtain ⟨q, hq, rfl⟩ := List.mem_map.1 hmem
      exact hkey (List.mem_map_of_mem (List.mem_filter.1 hq).1)
    rw [get?_eq_none_iff.2 (mt mem_keys_ofList_iff.1 hkey),
      get?_eq_none_iff.2 (mt mem_keys_ofList_iff.1 hfiltered)]

/-! ### Tables set over tables -/

theorem set_set (k : String) (x y : α) (t : Table α) : set k y (set k x t) = set k y t := by
  induction t with
  | nil => simp [set]
  | cons q t ih =>
    obtain ⟨j, z⟩ := q
    rw [set, set]
    by_cases hj : j = k
    · rw [if_pos hj, if_pos hj, set, if_pos hj]
    · rw [if_neg hj, if_neg hj, set, if_neg hj, ih]

/-- A key that is there keeps its place, whatever is set before. -/
theorem set_comm {j : String} (hne : j ≠ k) (hk : k ∈ t.keys) (x y : α) :
    set k x (set j y t) = set j y (set k x t) := by
  induction t with
  | nil => cases hk
  | cons q t ih =>
    obtain ⟨i, z⟩ := q
    by_cases hi : i = k
    · subst hi
      rw [set, if_neg hne.symm, set, if_pos rfl, set, if_pos rfl, set, if_neg hne.symm]
    · have hrest : k ∈ keys t := List.mem_of_ne_of_mem (Ne.symm hi) hk
      rw [set, set, if_neg hi]
      by_cases hj : i = j
      · rw [if_pos hj, set, if_neg hi, set, if_pos hj]
      · rw [if_neg hj, set, if_neg hi, set, if_neg hj, ih hrest]

theorem set_foldl {c : Table α} (hc : k ∉ c.keys) (hk : k ∈ t.keys) :
    set k x (c.foldl (fun t q => set q.1 q.2 t) t) =
      c.foldl (fun t q => set q.1 q.2 t) (set k x t) := by
  induction c generalizing t with
  | nil => rfl
  | cons q c ih =>
    obtain ⟨hne, hrest⟩ := List.ne_and_not_mem_of_not_mem_cons hc
    rw [List.foldl_cons, List.foldl_cons, ← set_comm hne.symm hk]
    refine ih hrest ?_
    rw [keys_set]
    split
    · exact hk
    · exact List.mem_append_left _ hk

theorem foldl_set {c : Table α} (hc : c.keys.Nodup) (k : String) (x : α) (t : Table α) :
    (set k x c).foldl (fun t q => set q.1 q.2 t) t =
      set k x (c.foldl (fun t q => set q.1 q.2 t) t) := by
  induction c generalizing t with
  | nil => rfl
  | cons q c ih =>
    obtain ⟨j, y⟩ := q
    obtain ⟨hnew, hrest⟩ := List.nodup_cons.1 hc
    rw [set, List.foldl_cons]
    by_cases hj : j = k
    · subst hj
      have hthere : j ∈ (set j y t).keys := by
        rw [← has_iff, has, get?_set, if_pos rfl]
        rfl
      rw [if_pos rfl, List.foldl_cons, set_foldl hnew hthere, set_set]
    · rw [if_neg hj, List.foldl_cons, ih hrest]

/-- Pairs set in a table that is then set over another are set over both. -/
theorem foldl_foldl {c : Table α} (hc : c.keys.Nodup) (ps : List (String × α)) (t : Table α) :
    (ps.foldl (fun t q => set q.1 q.2 t) c).foldl (fun t q => set q.1 q.2 t) t =
      ps.foldl (fun t q => set q.1 q.2 t) (c.foldl (fun t q => set q.1 q.2 t) t) := by
  induction ps generalizing c with
  | nil => rfl
  | cons p ps ih =>
    rw [List.foldl_cons, List.foldl_cons, ih (nodup_keys_set hc), foldl_set hc]

theorem filter_set (p : String → Bool) (k : String) (x : α) (t : Table α) :
    (set k x t).filter (fun q => p q.1) =
      if p k then set k x (t.filter fun q => p q.1) else t.filter fun q => p q.1 := by
  induction t with
  | nil => by_cases hk : p k = true <;> simp [set, hk]
  | cons q t ih =>
    obtain ⟨j, y⟩ := q
    rw [set]
    by_cases hj : j = k
    · subst hj
      by_cases hk : p j = true <;> simp [set, hk]
    · rw [if_neg hj, List.filter_cons, ih, List.filter_cons]
      by_cases hk : p k = true <;> by_cases hp : p j = true <;> simp [set, hk, hp, hj]

theorem filter_ofList (p : String → Bool) (ps : List (String × α)) :
    (ofList ps).filter (fun q => p q.1) = ofList (ps.filter fun q => p q.1) := by
  have hgeneral : ∀ t : Table α, (ps.foldl (fun t q => set q.1 q.2 t) t).filter (fun q => p q.1) =
      (ps.filter fun q => p q.1).foldl (fun t q => set q.1 q.2 t) (t.filter fun q => p q.1) := by
    induction ps with
    | nil => exact fun _ => rfl
    | cons q ps ih =>
      intro t
      rw [List.foldl_cons, ih, filter_set, List.filter_cons]
      by_cases hq : p q.1 = true
      · rw [if_pos hq, if_pos hq, List.foldl_cons]
      · rw [if_neg hq, if_neg hq]
  exact hgeneral []

theorem lookup_map_pair (f : String → α) (k : String) (ks : List String) :
    (ks.map fun k => (k, f k)).lookup k = if k ∈ ks then some (f k) else none := by
  induction ks with
  | nil => rfl
  | cons j ks ih =>
    rw [List.map_cons, List.lookup_cons]
    by_cases hj : k = j
    · rw [hj, beq_self_eq_true, if_pos List.mem_cons_self]
    · rw [beq_false_of_ne hj]
      simp only [List.mem_cons, hj, false_or]
      exact ih

theorem ofList_concat (ps : List (String × α)) (p : String × α) :
    ofList (ps ++ [p]) = set p.1 p.2 (ofList ps) := by
  rw [ofList, List.foldl_append, List.foldl_cons, List.foldl_nil]
  rfl

theorem getLast_mem_ofList {ps : List (String × α)} {p : String × α} (h : ps.getLast? = some p) :
    p ∈ ofList ps := by
  obtain ⟨front, rfl⟩ := List.getLast?_eq_some_iff.1 h
  rw [ofList_concat]
  exact mem_of_lookup ((get?_set _ _).trans (if_pos rfl))

/-! ### Keys that were not seen -/

/-- The number of keys that were not seen. -/
def unseen (t : Table α) (seen : List String) : Nat :=
  (t.keys.filter fun n => !seen.contains n).length

theorem unseen_nil (t : Table α) : t.unseen [] = t.length := by
  have hall : (t.keys.filter fun n => !([] : List String).contains n) = t.keys :=
    List.filter_eq_self.2 fun _ _ => rfl
  rw [unseen, hall, keys, List.length_map]

theorem unseen_mono {seen seen' : List String} (h : ∀ n ∈ seen, n ∈ seen') :
    t.unseen seen' ≤ t.unseen seen := by
  rw [unseen, unseen, ← List.countP_eq_length_filter, ← List.countP_eq_length_filter]
  refine List.countP_mono_left fun n _ hn => ?_
  simp only [Bool.not_eq_true', List.contains_eq_mem, decide_eq_false_iff_not] at hn ⊢
  exact fun hmem => hn (h n hmem)

theorem unseen_cons_lt {seen : List String} (hx : t.get? k = some x) (hk : k ∉ seen) :
    t.unseen (k :: seen) < t.unseen seen := by
  have hsplit : (t.keys.filter fun m => !(k :: seen).contains m) =
      (t.keys.filter fun m => !seen.contains m).filter (· != k) := by
    rw [List.filter_filter]
    refine List.filter_congr fun m _ => ?_
    rw [List.contains_cons, Bool.not_or]
    rfl
  rw [unseen, unseen, hsplit, List.length_filter_lt_length_iff_exists]
  refine ⟨k, List.mem_filter.2 ⟨mem_keys_of_get? hx, ?_⟩, by simp⟩
  simpa using hk

/-! ### Values that are changed one by one -/

variable {β : Type} (g : α → β)

theorem set_map (k : String) (x : α) (t : Table α) :
    set k (g x) (t.map (Prod.map id g)) = (set k x t).map (Prod.map id g) := by
  induction t with
  | nil => rfl
  | cons q t ih =>
    obtain ⟨j, y⟩ := q
    rw [List.map_cons, Prod.map_apply, id_eq, set, set]
    by_cases hj : j = k
    · simp [hj]
    · simp [hj, ih]

theorem ofList_map (ps : List (String × α)) :
    ofList (ps.map (Prod.map id g)) = (ofList ps).map (Prod.map id g) := by
  have hgeneral : ∀ t : Table α, (ps.map (Prod.map id g)).foldl (fun t q => set q.1 q.2 t)
      (t.map (Prod.map id g)) = (ps.foldl (fun t q => set q.1 q.2 t) t).map (Prod.map id g) := by
    induction ps with
    | nil => exact fun _ => rfl
    | cons p ps ih =>
      intro t
      rw [List.map_cons, List.foldl_cons, List.foldl_cons, Prod.map_fst, Prod.map_snd, id_eq,
        set_map]
      exact ih _
  exact hgeneral []

theorem get?_map (k : String) (t : Table α) :
    (Table.get? (t.map (Prod.map id g)) k) = (t.get? k).map g := by
  induction t with
  | nil => rfl
  | cons q t ih =>
    obtain ⟨j, y⟩ := q
    rw [get?, get?, List.map_cons, Prod.map_apply, id_eq, List.lookup_cons, List.lookup_cons]
    cases hj : k == j with
    | true => rfl
    | false => exact ih

end QueryTypes.Table
