import QueryTypes.Text.Basic

/-! Fields between separators: cutting and joining undo each other as long as no field holds the
separator. What is put in front of a text is found there. -/

namespace QueryTypes.Text

variable {sep : Char} {ns : List String} {n : String}

theorem joinOn_cons (f : List Char) {fs : List (List Char)} (h : fs ≠ []) :
    joinOn sep (f :: fs) = f ++ sep :: joinOn sep fs := by
  cases fs with
  | nil => exact absurd rfl h
  | cons g gs => rfl

theorem splitOn_of_not_mem {s : List Char} (h : sep ∉ s) : splitOn sep s = [s] := by
  induction s with
  | nil => rfl
  | cons c r ih =>
    obtain ⟨hc, hr⟩ := not_or.1 (mt List.mem_cons.2 h)
    simp only [splitOn, if_neg (Ne.symm hc), ih hr]

theorem splitOn_append_sep (f r : List Char) :
    splitOn sep (f ++ sep :: r) = splitOn sep f ++ splitOn sep r := by
  induction f with
  | nil => simp [splitOn]
  | cons c f ih =>
    rw [List.cons_append, splitOn, splitOn]
    split
    · rw [ih]
      rfl
    · rw [ih]
      cases hf : splitOn sep f with
      | nil => exact absurd hf (splitOn_ne_nil _ _)
      | cons g gs => rfl

theorem splitOn_append {f : List Char} (h : sep ∉ f) (r : List Char) :
    splitOn sep (f ++ sep :: r) = f :: splitOn sep r := by
  rw [splitOn_append_sep, splitOn_of_not_mem h]
  rfl

theorem splitOn_joinOn_flatMap {fs : List (List Char)} (hne : fs ≠ []) :
    splitOn sep (joinOn sep fs) = fs.flatMap (splitOn sep) := by
  induction fs with
  | nil => exact absurd rfl hne
  | cons f fs ih =>
    cases fs with
    | nil => simp [joinOn]
    | cons g gs =>
      rw [joinOn_cons f (by simp), splitOn_append_sep, ih (by simp)]
      rfl

theorem splitOn_joinOn {fs : List (List Char)} (hne : fs ≠ []) (h : ∀ f ∈ fs, sep ∉ f) :
    splitOn sep (joinOn sep fs) = fs := by
  rw [splitOn_joinOn_flatMap hne]
  clear hne
  induction fs with
  | nil => rfl
  | cons f fs ih =>
    rw [List.flatMap_cons, splitOn_of_not_mem (h f (by simp)),
      ih fun x hx => h x (List.mem_cons_of_mem _ hx)]
    rfl

theorem append_sep_inj {a b r t : List Char} (ha : sep ∉ a) (hb : sep ∉ b)
    (h : a ++ sep :: r = b ++ sep :: t) : a = b ∧ r = t := by
  induction a generalizing b with
  | nil =>
    cases b with
    | nil => simpa using h
    | cons c b => exact absurd (by simp [(List.cons.inj h).1]) hb
  | cons c a ih =>
    cases b with
    | nil => exact absurd (by simp [(List.cons.inj h).1]) ha
    | cons d b =>
      simp only [List.cons_append, List.cons.injEq, List.mem_cons, not_or] at h ha hb
      obtain ⟨rfl, h⟩ := h
      obtain ⟨rfl, rfl⟩ := ih ha.2 hb.2 h
      exact ⟨rfl, rfl⟩

theorem toList_joinWith_of {s : String} (hs : s.toList = [sep]) (ns : List String) :
    (joinWith s ns).toList = joinOn sep (ns.map String.toList) := by
  induction ns with
  | nil => simp [joinWith, joinOn]
  | cons n ns ih =>
    cases ns with
    | nil => simp [joinWith, joinOn]
    | cons m ms =>
      rw [List.map_cons, joinOn_cons _ (by simp), ← ih, joinWith, String.intercalate_cons_cons,
        String.toList_append, String.toList_append, hs, List.append_assoc]
      rfl

theorem toList_joinWith (ns : List String) :
    (joinWith "/" ns).toList = joinOn '/' (ns.map String.toList) := toList_joinWith_of rfl ns

theorem split_joinWith_of {s : String} (hs : s.toList = [sep]) {ns : List String} (hne : ns ≠ [])
    (h : ∀ n ∈ ns, sep ∉ n.toList) : split sep (joinWith s ns) = ns := by
  rw [split, toList_joinWith_of hs, splitOn_joinOn (by simpa using hne) (by simpa using h),
    List.map_map]
  have hid : String.ofList ∘ String.toList = id := funext fun s => String.ofList_toList
  rw [hid, List.map_id]

theorem split_joinWith {ns : List String} (hne : ns ≠ []) (h : ∀ n ∈ ns, '/' ∉ n.toList) :
    split '/' (joinWith "/" ns) = ns := split_joinWith_of rfl hne h

/-- The parts of a text hold its characters, but not the separator. -/
theorem mem_of_mem_splitOn {sep c : Char} {s f : List Char} (hf : f ∈ splitOn sep s) (hc : c ∈ f) :
    c ∈ s ∧ c ≠ sep := by
  induction s generalizing f with
  | nil =>
    obtain rfl : f = [] := by simpa [splitOn] using hf
    simp at hc
  | cons d s ih =>
    have hlater : ∀ g ∈ splitOn sep s, c ∈ g → c ∈ d :: s ∧ c ≠ sep :=
      fun g hg hmem => (ih hg hmem).imp_left (List.mem_cons_of_mem d)
    simp only [splitOn] at hf
    split at hf
    · rcases List.mem_cons.1 hf with rfl | hf
      · simp at hc
      · exact hlater f hf hc
    · rename_i hd
      split at hf
      · obtain rfl : f = [d] := by simpa using hf
        obtain rfl := List.mem_singleton.1 hc
        exact ⟨List.mem_cons_self, hd⟩
      · rename_i g gs hs
        rw [hs] at hlater
        rcases List.mem_cons.1 hf with rfl | hf
        · rcases List.mem_cons.1 hc with rfl | hc
          · exact ⟨List.mem_cons_self, hd⟩
          · exact hlater g List.mem_cons_self hc
        · exact hlater f (List.mem_cons_of_mem _ hf) hc

theorem no_slash_of_mem_split {s part : String} (h : part ∈ split '/' s) : '/' ∉ part.toList := by
  obtain ⟨f, hf, rfl⟩ := List.mem_map.1 h
  rw [String.toList_ofList]
  exact fun hc => (mem_of_mem_splitOn hf hc).2 rfl

theorem splitOn_append_of_not_mem {sep : Char} {f s : List Char} (h : sep ∉ f)
    {first : List Char} {more : List (List Char)} (hs : splitOn sep s = first :: more) :
    splitOn sep (f ++ s) = (f ++ first) :: more := by
  induction f with
  | nil => exact hs
  | cons c f ih =>
    obtain ⟨hc, hf⟩ := not_or.1 (mt List.mem_cons.2 h)
    rw [List.cons_append, splitOn, if_neg (Ne.symm hc), ih hf]
    rfl

theorem exists_split (sep : Char) (s : String) : ∃ first more, split sep s = first :: more := by
  cases hsplit : split sep s with
  | nil => exact absurd (List.map_eq_nil_iff.1 hsplit) (splitOn_ne_nil _ _)
  | cons first more => exact ⟨first, more, rfl⟩

theorem split_append {sep : Char} {t s first : String} {more : List String}
    (h : sep ∉ t.toList) (hs : split sep s = first :: more) :
    split sep (t ++ s) = (t ++ first) :: more := by
  cases hsplit : splitOn sep s.toList with
  | nil => exact absurd hsplit (splitOn_ne_nil _ _)
  | cons f fs =>
    rw [split, hsplit, List.map_cons] at hs
    obtain ⟨rfl, rfl⟩ := List.cons.inj hs
    rw [split, String.toList_append, splitOn_append_of_not_mem h hsplit, List.map_cons,
      String.ofList_append, String.ofList_toList]

theorem after?_append (p s : List Char) : after? p (p ++ s) = some s := by
  rw [after?, if_pos (List.isPrefixOf_iff_prefix.2 (List.prefix_append p s)), List.drop_left]

theorem after?_eq_some {p s r : List Char} (h : after? p s = some r) : s = p ++ r := by
  unfold after? at h
  split at h
  next hp =>
    obtain ⟨t, rfl⟩ := List.isPrefixOf_iff_prefix.1 hp
    rw [List.drop_left] at h
    rw [Option.some.inj h]
  · simp at h

theorem after?_eq_none {p s : List Char} (h : ¬ p <+: s) : after? p s = none := by
  rw [after?, if_neg fun hp => h (List.isPrefixOf_iff_prefix.1 hp)]

theorem joinWith_concat_append (ns : List String) (n s : String) :
    joinWith "/" (ns ++ [n]) ++ s = joinWith "/" (ns ++ [n ++ s]) := by
  induction ns with
  | nil => rw [List.nil_append, List.nil_append, joinWith, joinWith, String.intercalate_singleton,
      String.intercalate_singleton]
  | cons m ns ih =>
    rw [joinWith] at ih ⊢
    rw [List.cons_append, List.cons_append, joinWith, String.intercalate_cons_of_ne_nil (by simp),
      String.intercalate_cons_of_ne_nil (by simp), String.append_assoc, ih]
    rfl

theorem head?_joinWith (hn : n ≠ "") : (joinWith "/" (n :: ns)).toList.head? = n.toList.head? := by
  obtain ⟨c, r, hr⟩ := List.exists_cons_of_ne_nil (mt String.toList_eq_nil_iff.1 hn)
  rw [toList_joinWith, List.map_cons]
  cases ns with
  | nil => rfl
  | cons m ms =>
    rw [joinOn_cons _ (by simp), hr]
    rfl

/-- A name and a slash are in front of joined names if it is the first one and others follow. -/
theorem append_slash_isPrefix_iff (hn : '/' ∉ n.toList) (hns : ∀ m ∈ ns, '/' ∉ m.toList) :
    n.toList ++ ['/'] <+: (joinWith "/" ns).toList ↔ ∃ rest, rest ≠ [] ∧ ns = n :: rest := by
  constructor
  · rintro ⟨t, ht⟩
    have hne : ns ≠ [] := by
      rintro rfl
      simp [joinWith] at ht
    have hsplit := split_joinWith hne hns
    rw [split, ← ht, List.append_assoc, List.singleton_append, splitOn_append hn, List.map_cons,
      String.ofList_toList] at hsplit
    refine ⟨(splitOn '/' t).map String.ofList, ?_, hsplit.symm⟩
    simpa using splitOn_ne_nil '/' t
  · rintro ⟨rest, hrest, rfl⟩
    rw [toList_joinWith, List.map_cons, joinOn_cons _ (by simpa using hrest)]
    exact ⟨joinOn '/' (rest.map String.toList), by simp⟩

end QueryTypes.Text
