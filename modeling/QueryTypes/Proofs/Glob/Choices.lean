import QueryTypes.Proofs.Glob.Braces

/-!
# What a pattern with groups stands for

A pattern stands for the texts that come from choosing one alternative in each group, an outer group
first and then the groups in the chosen alternative only. Expansion works from the inside. The two
agree because a text that neither opens nor closes a brace for good, nor has a comma of its own, can
stand for a group anywhere: the alternatives around it are cut at the same places.
-/

namespace QueryTypes.Glob

variable {s t u w e x : List Char} {g : Group} {c : Char} {d k : Nat}

/-! ### Balanced braces -/

/-- How many braces are open after a character. -/
def depthAfter (d : Nat) (c : Char) : Nat :=
  if c = '\x7b' then d + 1 else if c = '\x7d' then d - 1 else d

/-- A text closes the braces that are open before it and those it opens itself, and no others. -/
def closes : Nat → List Char → Bool
  | d, [] => d == 0
  | d, c :: s => (c != '\x7d' || d != 0) && closes (depthAfter d c) s

def Balanced (s : List Char) : Prop := closes 0 s = true

instance (s : List Char) : Decidable (Balanced s) := inferInstanceAs (Decidable (_ = _))

@[simp] theorem closes_open (d : Nat) (s : List Char) :
    closes d ('\x7b' :: s) = closes (d + 1) s := by
  simp [closes, depthAfter]

@[simp] theorem closes_succ_close (d : Nat) (s : List Char) :
    closes (d + 1) ('\x7d' :: s) = closes d s := by
  simp [closes, depthAfter]

@[simp] theorem closes_zero_close (s : List Char) : closes 0 ('\x7d' :: s) = false := by
  simp [closes]

theorem closes_char (hc : brace c = 0) (d : Nat) (s : List Char) :
    closes d (c :: s) = closes d s := by
  obtain ⟨hopen, hclose⟩ := brace_eq_zero_iff.1 hc
  simp [closes, depthAfter, hopen, hclose]

theorem closes_bare_append (hw : IsBare w) (d : Nat) (s : List Char) :
    closes d (w ++ s) = closes d s := by
  induction w with
  | nil => rfl
  | cons c w ih => rw [List.cons_append, closes_char (hw c List.mem_cons_self), ih hw.tail]

theorem IsBare.balanced (hw : IsBare w) : Balanced w := by
  have happend := closes_bare_append hw 0 []
  rw [List.append_nil] at happend
  exact happend

theorem char_cases (c : Char) : c = '\x7b' ∨ c = '\x7d' ∨ brace c = 0 := by
  by_cases hopen : c = '\x7b'
  · exact .inl hopen
  · by_cases hclose : c = '\x7d'
    · exact .inr (.inl hclose)
    · exact .inr (.inr (brace_eq_zero_iff.2 ⟨hopen, hclose⟩))

theorem closes_append (h : closes d s = true) (k : Nat) (t : List Char) :
    closes (d + k) (s ++ t) = closes k t := by
  induction s generalizing d with
  | nil =>
    obtain rfl : d = 0 := by simpa [closes] using h
    rw [List.nil_append, Nat.zero_add]
  | cons c s ih =>
    rcases char_cases c with rfl | rfl | hc
    · rw [closes_open] at h
      rw [List.cons_append, closes_open, show d + k + 1 = d + 1 + k by omega, ih h]
    · cases d with
      | zero => simp at h
      | succ d =>
        rw [closes_succ_close] at h
        rw [List.cons_append, show d + 1 + k = d + k + 1 by omega, closes_succ_close, ih h]
    · rw [closes_char hc] at h
      rw [List.cons_append, closes_char hc, ih h]

/-- The brace that closes an open one comes before those that close the braces around it. -/
theorem exists_close (h : closes (k + (d + 1)) s = true) :
    ∃ f r, s = f ++ '\x7d' :: r ∧ closes k f = true ∧ closes d r = true := by
  induction s generalizing k with
  | nil => simp [closes] at h
  | cons c s ih =>
    rcases char_cases c with rfl | rfl | hc
    · rw [closes_open, show k + (d + 1) + 1 = k + 1 + (d + 1) by omega] at h
      obtain ⟨f, r, rfl, hf, hr⟩ := ih h
      exact ⟨'\x7b' :: f, r, rfl, by rwa [closes_open], hr⟩
    · cases k with
      | zero =>
        rw [Nat.zero_add, closes_succ_close] at h
        exact ⟨[], s, rfl, rfl, h⟩
      | succ k =>
        rw [show k + 1 + (d + 1) = k + (d + 1) + 1 by omega, closes_succ_close] at h
        obtain ⟨f, r, rfl, hf, hr⟩ := ih h
        exact ⟨'\x7d' :: f, r, rfl, by rwa [closes_succ_close], hr⟩
    · rw [closes_char hc] at h
      obtain ⟨f, r, rfl, hf, hr⟩ := ih h
      exact ⟨c :: f, r, rfl, by rwa [closes_char hc], hr⟩

/-- There is only one brace that closes an open one. -/
theorem close_unique {f r f' r' : List Char} (hf : closes d f = true) (hf' : closes d f' = true)
    (h : f ++ '\x7d' :: r = f' ++ '\x7d' :: r') : f = f' ∧ r = r' := by
  induction f generalizing d f' with
  | nil =>
    obtain rfl : d = 0 := by simpa [closes] using hf
    cases f' with
    | nil => exact ⟨rfl, (List.cons.inj h).2⟩
    | cons c f' =>
      obtain rfl := (List.cons.inj h).1
      simp at hf'
  | cons c f ih =>
    cases f' with
    | nil =>
      obtain rfl : d = 0 := by simpa [closes] using hf'
      obtain rfl := (List.cons.inj h).1
      simp at hf
    | cons c' f' =>
      rw [List.cons_append, List.cons_append, List.cons.injEq] at h
      obtain ⟨rfl, h⟩ := h
      rw [closes, Bool.and_eq_true] at hf hf'
      obtain ⟨rfl, rfl⟩ := ih hf.2 hf'.2 h
      exact ⟨rfl, rfl⟩

theorem not_close_of_seekGroup {before : List Char} {inside? : Option (List Char)}
    (h : seekGroup before inside? s = some g) (hbefore : '\x7d' ∉ before)
    (hinside : ∀ i, inside? = some i → '\x7d' ∉ i) (hs : inside? = none → Balanced s) :
    '\x7d' ∉ g.before := by
  induction s generalizing before inside? with
  | nil => simp [seekGroup] at h
  | cons c s ih =>
    cases inside? with
    | none =>
      have hbalanced := hs rfl
      rw [seekGroup] at h
      split_ifs at h with hopen
      · exact ih h hbefore (by simp) (by simp)
      · have hclose : c ≠ '\x7d' := by
          rintro rfl
          simp [Balanced] at hbalanced
        have hc : brace c = 0 := brace_eq_zero_iff.2 ⟨hopen, hclose⟩
        refine ih h ?_ (by simp) fun _ => ?_
        · simp [hbefore, Ne.symm hclose]
        · rwa [Balanced, closes_char hc] at hbalanced
    | some inside =>
      have hread := hinside inside rfl
      rw [seekGroup] at h
      split_ifs at h with hopen hclose
      · exact ih h (by simp [hbefore, hread]) (by simp) (by simp)
      · obtain rfl := Option.some.inj h
        simpa using hbefore
      · exact ih h hbefore (by simp [hread, Ne.symm hclose]) (by simp)

/-- In a balanced text no brace is closed before the first group. -/
theorem not_close_of_firstGroup? (hs : Balanced s) (h : firstGroup? s = some g) :
    '\x7d' ∉ g.before :=
  not_close_of_seekGroup h (by simp) (by simp) fun _ => hs

theorem Balanced.bare_of_none (hs : Balanced s) (h : firstGroup? s = none) : IsBare s := by
  rw [firstGroup?_eq_none_iff] at h
  induction s with
  | nil => simp [IsBare]
  | cons c s ih =>
    rcases char_cases c with rfl | rfl | hc
    · have hopen : closes (0 + (0 + 1)) s = true := by rwa [Balanced, closes_open] at hs
      obtain ⟨f, r, rfl, -, -⟩ := exists_close hopen
      have hclose : '\x7d' ∈ f ++ '\x7d' :: r := by simp
      have hsome : (firstGroup? ('\x7b' :: (f ++ '\x7d' :: r))).isSome :=
        isSome_seekGroup_of_open hclose []
      rw [firstGroup?_eq_none_iff.2 h] at hsome
      cases hsome
    · simp [Balanced] at hs
    · have htail : IsBare s := by
        refine ih (by rwa [Balanced, closes_char hc] at hs) ?_
        rintro ⟨g, rfl, hg⟩
        exact h ⟨{ g with before := c :: g.before }, rfl, hg⟩
      exact List.forall_mem_cons.2 ⟨hc, htail⟩

/-! ### Choosing from the outside -/

/-- A text put in front of the first of some texts. -/
def prepend (s : List Char) : List (List Char) → List (List Char)
  | [] => [s]
  | t :: ts => (s ++ t) :: ts

/-- The text inside a group, cut at its commas with no brace open. -/
def alternatives : Nat → List Char → List (List Char)
  | _, [] => [[]]
  | d, c :: s =>
    if c = ',' ∧ d = 0 then [] :: alternatives 0 s
    else prepend [c] (alternatives (depthAfter d c) s)

/-- A text comes from a pattern by choosing an alternative in each group, and then in each group
inside the chosen alternative. -/
inductive Chooses : List Char → List Char → Prop
  | nil : Chooses [] []
  | char {c : Char} {s e : List Char} (hc : brace c = 0) (hs : Chooses s e) :
    Chooses (c :: s) (c :: e)
  | group {inside x e s e' : List Char} (hinside : Balanced inside) (hx : x ∈ alternatives 0 inside)
    (he : Chooses x e) (hs : Chooses s e') :
    Chooses ('\x7b' :: (inside ++ '\x7d' :: s)) (e ++ e')

theorem Chooses.balanced (h : Chooses s e) : Balanced s := by
  induction h with
  | nil => rfl
  | char hc _ ih => rwa [Balanced, closes_char hc]
  | group hinside _ _ _ _ ih =>
    have hclose (t : List Char) := closes_append hinside 1 ('\x7d' :: t)
    rwa [Balanced, closes_open, hclose, closes_succ_close]

theorem chooses_cons_iff (hc : brace c = 0) :
    Chooses (c :: s) e ↔ ∃ e', Chooses s e' ∧ e = c :: e' := by
  constructor
  · intro h
    cases h with
    | char _ hs => exact ⟨_, hs, rfl⟩
    | group _ _ _ _ => exact absurd rfl (brace_eq_zero_iff.1 hc).1
  · rintro ⟨e', hs, rfl⟩
    exact .char hc hs

theorem chooses_bare_append_iff (hw : IsBare w) :
    Chooses (w ++ s) e ↔ ∃ e', Chooses s e' ∧ e = w ++ e' := by
  induction w generalizing e with
  | nil => simp
  | cons c w ih =>
    rw [List.cons_append, chooses_cons_iff (hw c List.mem_cons_self)]
    simp only [ih hw.tail]
    constructor
    · rintro ⟨_, ⟨e', hs, rfl⟩, rfl⟩
      exact ⟨e', hs, rfl⟩
    · rintro ⟨e', hs, rfl⟩
      exact ⟨_, ⟨e', hs, rfl⟩, rfl⟩

theorem chooses_bare_iff (hw : IsBare w) : Chooses w e ↔ e = w := by
  have happend := chooses_bare_append_iff (s := []) (e := e) hw
  rw [List.append_nil] at happend
  rw [happend]
  constructor
  · rintro ⟨e', hnil, rfl⟩
    cases hnil
    rw [List.append_nil]
  · rintro rfl
    exact ⟨[], .nil, (List.append_nil e).symm⟩

/-- The group that a brace opens ends where its inside is balanced. -/
theorem chooses_group_iff (hw : Balanced w) :
    Chooses ('\x7b' :: (w ++ '\x7d' :: s)) e ↔
      ∃ x ∈ alternatives 0 w, ∃ e₁ e₂, Chooses x e₁ ∧ Chooses s e₂ ∧ e = e₁ ++ e₂ := by
  constructor
  · intro h
    generalize htext : '\x7b' :: (w ++ '\x7d' :: s) = text at h
    cases h with
    | nil => cases htext
    | char hc _ => exact absurd (List.cons.inj htext).1.symm (brace_eq_zero_iff.1 hc).1
    | group hinside hx he hs =>
      obtain ⟨rfl, rfl⟩ := close_unique hw hinside (List.cons.inj htext).2
      exact ⟨_, hx, _, _, he, hs, rfl⟩
  · rintro ⟨x, hx, e₁, e₂, he, hs, rfl⟩
    exact .group hw hx he hs

/-! ### A group and what can stand for it -/

theorem prepend_ne_nil (s : List Char) (l : List (List Char)) : prepend s l ≠ [] := by
  cases l <;> exact List.cons_ne_nil _ _

theorem prepend_nil {l : List (List Char)} (h : l ≠ []) : prepend [] l = l := by
  cases l with
  | nil => exact absurd rfl h
  | cons t ts => rfl

theorem prepend_prepend (s t : List Char) (l : List (List Char)) :
    prepend s (prepend t l) = prepend (s ++ t) l := by
  cases l with
  | nil => rfl
  | cons u us => simp [prepend]

theorem alternatives_ne_nil (d : Nat) (s : List Char) : alternatives d s ≠ [] := by
  cases s with
  | nil => exact List.cons_ne_nil _ _
  | cons c s =>
    rw [alternatives]
    split_ifs
    · exact List.cons_ne_nil _ _
    · exact prepend_ne_nil _ _

theorem depthAfter_of_bare (hc : brace c = 0) : depthAfter d c = d := by
  obtain ⟨hopen, hclose⟩ := brace_eq_zero_iff.1 hc
  rw [depthAfter, if_neg hopen, if_neg hclose]

/-- Commas inside a group do not separate the alternatives around it. -/
theorem alternatives_bare_append (hw : IsBare w) (hcomma : ',' ∈ w → d ≠ 0) (s : List Char) :
    alternatives d (w ++ s) = prepend w (alternatives d s) := by
  induction w with
  | nil => exact (prepend_nil (alternatives_ne_nil d s)).symm
  | cons c w ih =>
    have hc : ¬ (c = ',' ∧ d = 0) := by
      rintro ⟨rfl, hd⟩
      exact hcomma List.mem_cons_self hd
    rw [List.cons_append, alternatives, if_neg hc, depthAfter_of_bare (hw c List.mem_cons_self),
      ih hw.tail fun h => hcomma (List.mem_cons_of_mem _ h), prepend_prepend]
    rfl

theorem alternatives_group_append (hw : IsBare w) (d : Nat) (s : List Char) :
    alternatives d ('\x7b' :: (w ++ '\x7d' :: s)) =
      prepend ('\x7b' :: (w ++ ['\x7d'])) (alternatives d s) := by
  have hopen : depthAfter d '\x7b' = d + 1 := by simp [depthAfter]
  have hclose : depthAfter (d + 1) '\x7d' = d := by simp [depthAfter]
  rw [alternatives, if_neg (by simp), hopen, alternatives_bare_append hw (by simp), alternatives,
    if_neg (by simp), hclose, prepend_prepend, prepend_prepend]
  simp

theorem alternatives_bare (hw : IsBare w) : alternatives 0 w = Text.splitOn ',' w := by
  induction w with
  | nil => rfl
  | cons c w ih =>
    rw [alternatives, Text.splitOn, depthAfter_of_bare (hw c List.mem_cons_self), ih hw.tail]
    by_cases hc : c = ','
    · simp [hc]
    · rw [if_neg (by simp [hc]), if_neg hc]
      cases Text.splitOn ',' w <;> rfl

/-- What follows a text goes on with the last of its alternatives. -/
theorem exists_alternatives_append (d : Nat) (s : List Char) :
    ∃ before last k, last.Sublist s ∧
      ∀ t, alternatives d (s ++ t) = before ++ prepend last (alternatives k t) := by
  induction s generalizing d with
  | nil =>
    refine ⟨[], [], d, .slnil, fun t => ?_⟩
    rw [prepend_nil (alternatives_ne_nil d t)]
    rfl
  | cons c s ih =>
    by_cases hc : c = ',' ∧ d = 0
    · obtain ⟨before, last, k, hlast, happend⟩ := ih 0
      refine ⟨[] :: before, last, k, hlast.cons c, fun t => ?_⟩
      rw [List.cons_append, alternatives, if_pos hc, happend]
      rfl
    · obtain ⟨before, last, k, hlast, happend⟩ := ih (depthAfter d c)
      cases before with
      | nil =>
        refine ⟨[], c :: last, k, hlast.cons_cons c, fun t => ?_⟩
        rw [List.cons_append, alternatives, if_neg hc, happend, List.nil_append, prepend_prepend]
        rfl
      | cons first before =>
        refine ⟨(c :: first) :: before, last, k, hlast.cons c, fun t => ?_⟩
        rw [List.cons_append, alternatives, if_neg hc, happend]
        rfl

theorem closes_group_append (hw : IsBare w) (d : Nat) (s : List Char) :
    closes d ('\x7b' :: (w ++ '\x7d' :: s)) = closes d s := by
  rw [closes_open, closes_bare_append hw, closes_succ_close]

theorem closes_append_congr (h : ∀ k, closes k t = closes k u) (d : Nat) (s : List Char) :
    closes d (s ++ t) = closes d (s ++ u) := by
  induction s generalizing d with
  | nil => exact h d
  | cons c s ih => rw [List.cons_append, List.cons_append, closes, closes, ih]

theorem closes_around (hw : IsBare w) (d : Nat) (s t : List Char) :
    closes d (s ++ '\x7b' :: (w ++ '\x7d' :: t)) = closes d (s ++ t) :=
  closes_append_congr (fun k => closes_group_append hw k t) d s

theorem closes_choice (hw : IsBare w) (hx : x ∈ Text.splitOn ',' w) (d : Nat) (s t : List Char) :
    closes d (s ++ x ++ t) = closes d (s ++ t) := by
  rw [List.append_assoc]
  exact closes_append_congr (fun k => closes_bare_append (hw.choice hx) k t) d s

/-- The alternatives around a group are the same with one of its own in its place, except for the
one that it stands in. -/
theorem exists_alternatives_around (hw : IsBare w) (s t : List Char) :
    ∃ before last first more, List.Sublist last s ∧
      alternatives 0 (s ++ '\x7b' :: (w ++ '\x7d' :: t)) =
        before ++ (last ++ '\x7b' :: (w ++ '\x7d' :: first)) :: more ∧
      ∀ x ∈ Text.splitOn ',' w,
        alternatives 0 (s ++ x ++ t) = before ++ (last ++ x ++ first) :: more := by
  obtain ⟨before, last, k, hlast, happend⟩ := exists_alternatives_append 0 s
  obtain ⟨first, more, hfirst⟩ := List.exists_cons_of_ne_nil (alternatives_ne_nil k t)
  refine ⟨before, last, first, more, hlast, ?_, fun x hx => ?_⟩
  · rw [happend, alternatives_group_append hw, prepend_prepend, hfirst]
    simp [prepend]
  · have hcomma : ',' ∉ x := fun hmem => (Text.mem_of_mem_splitOn hx hmem).2 rfl
    rw [List.append_assoc, happend, alternatives_bare_append (hw.choice hx) (absurd · hcomma),
      prepend_prepend, hfirst]
    rfl

/-- The brace that closes an open one comes after every text that closes none. -/
theorem exists_close_after (hs : '\x7d' ∉ s) (h : closes (d + 1) (s ++ t) = true) :
    ∃ f r, t = f ++ '\x7d' :: r ∧ closes d (s ++ f) = true ∧ Balanced r := by
  induction s generalizing d with
  | nil => exact exists_close (k := d) (d := 0) h
  | cons c s ih =>
    obtain ⟨hc, hrest⟩ := not_or.1 (mt List.mem_cons.2 hs)
    rcases char_cases c with rfl | rfl | hc
    · rw [List.cons_append, closes_open] at h
      obtain ⟨f, r, rfl, hf, hr⟩ := ih hrest h
      exact ⟨f, r, rfl, by rwa [List.cons_append, closes_open], hr⟩
    · exact absurd rfl hc
    · rw [List.cons_append, closes_char hc] at h
      obtain ⟨f, r, rfl, hf, hr⟩ := ih hrest h
      exact ⟨f, r, rfl, by rwa [List.cons_append, closes_char hc], hr⟩

theorem exists_mem_replace {α β : Type} {P : α → Prop} {y : α} {z : β → α} {before more : List α}
    {l : List β} (hl : l ≠ []) (hy : P y ↔ ∃ x ∈ l, P (z x)) :
    (∃ v ∈ before ++ y :: more, P v) ↔ ∃ x ∈ l, ∃ v ∈ before ++ z x :: more, P v := by
  obtain ⟨x₀, hx₀⟩ := List.exists_mem_of_ne_nil l hl
  simp only [List.mem_append, List.mem_cons]
  constructor
  · rintro ⟨v, hv | rfl | hv, hP⟩
    · exact ⟨x₀, hx₀, v, .inl hv, hP⟩
    · obtain ⟨x, hx, hP⟩ := hy.1 hP
      exact ⟨x, hx, z x, .inr (.inl rfl), hP⟩
    · exact ⟨x₀, hx₀, v, .inr (.inr hv), hP⟩
  · rintro ⟨x, hx, v, hv | rfl | hv, hP⟩
    · exact ⟨v, .inl hv, hP⟩
    · exact ⟨y, .inr (.inl rfl), hy.2 ⟨x, hx, hP⟩⟩
    · exact ⟨v, .inr (.inr hv), hP⟩

/-- If a group may be replaced by its alternatives in the text that ends with it, then also inside a
group around that text. -/
theorem chooses_open_iff (hw : IsBare w) (hs : '\x7d' ∉ s)
    (hin : ∀ last first e, List.Sublist last s →
      (Chooses (last ++ '\x7b' :: (w ++ '\x7d' :: first)) e ↔
        ∃ x ∈ Text.splitOn ',' w, Chooses (last ++ x ++ first) e)) :
    Chooses ('\x7b' :: (s ++ '\x7b' :: (w ++ '\x7d' :: t))) e ↔
      ∃ x ∈ Text.splitOn ',' w, Chooses ('\x7b' :: (s ++ x ++ t)) e := by
  -- Where the outer group ends is settled first: both sides are empty if it does not end.
  by_cases hopen : closes 1 (s ++ t) = true
  · obtain ⟨f, r, rfl, hf, -⟩ := exists_close_after hs hopen
    obtain ⟨before, last, first, more, hlast, haround, haround'⟩ := exists_alternatives_around hw s f
    have htext : s ++ '\x7b' :: (w ++ '\x7d' :: (f ++ '\x7d' :: r)) =
        (s ++ '\x7b' :: (w ++ '\x7d' :: f)) ++ '\x7d' :: r := by simp
    have htext' (x : List Char) : s ++ x ++ (f ++ '\x7d' :: r) = (s ++ x ++ f) ++ '\x7d' :: r := by
      simp
    rw [htext, chooses_group_iff ((closes_around hw 0 s f).trans hf), haround]
    have hright : ∀ x ∈ Text.splitOn ',' w,
        (Chooses ('\x7b' :: (s ++ x ++ (f ++ '\x7d' :: r))) e ↔
          ∃ y ∈ before ++ (last ++ x ++ first) :: more, ∃ e₁ e₂, Chooses y e₁ ∧ Chooses r e₂ ∧
            e = e₁ ++ e₂) := by
      intro x hx
      rw [htext', chooses_group_iff ((closes_choice hw hx 0 s f).trans hf), haround' x hx]
    refine Iff.trans (exists_mem_replace ?_ ?_) (exists_congr fun x => and_congr_right fun hx =>
      (hright x hx).symm)
    · exact Text.splitOn_ne_nil ',' w
    · simp only [hin last first _ hlast]
      constructor
      · rintro ⟨e₁, e₂, ⟨x, hx, he⟩, hrest⟩
        exact ⟨x, hx, e₁, e₂, he, hrest⟩
      · rintro ⟨x, hx, e₁, e₂, he, hrest⟩
        exact ⟨e₁, e₂, ⟨x, hx, he⟩, hrest⟩
  · constructor
    · intro h
      have hbalanced := h.balanced
      rw [Balanced, closes_open, closes_around hw] at hbalanced
      exact absurd hbalanced hopen
    · rintro ⟨x, hx, h⟩
      have hbalanced := h.balanced
      rw [Balanced, closes_open, closes_choice hw hx] at hbalanced
      exact absurd hbalanced hopen

/-- Choosing in a text with a group of which nothing is closed before is choosing in the texts with
one of its alternatives instead. -/
theorem chooses_iff_exists_choice (hw : IsBare w) (hs : '\x7d' ∉ s) :
    Chooses (s ++ '\x7b' :: (w ++ '\x7d' :: t)) e ↔
      ∃ x ∈ Text.splitOn ',' w, Chooses (s ++ x ++ t) e := by
  -- An alternative around the group ends with the group and a part of what is before it: the
  -- induction is on how long that is.
  induction hn : s.length using Nat.strongRecOn generalizing s t e with
  | _ n ih =>
  cases s with
  | nil =>
    simp only [List.nil_append, chooses_group_iff hw.balanced, alternatives_bare hw]
    refine exists_congr fun x => and_congr_right fun hx => ?_
    rw [chooses_bare_append_iff (hw.choice hx)]
    simp only [chooses_bare_iff (hw.choice hx)]
    constructor
    · rintro ⟨_, e₂, rfl, ht, rfl⟩
      exact ⟨e₂, ht, rfl⟩
    · rintro ⟨e₂, ht, rfl⟩
      exact ⟨x, e₂, rfl, ht, rfl⟩
  | cons c s =>
    obtain ⟨hclose, hrest⟩ := not_or.1 (mt List.mem_cons.2 hs)
    have hshort : ∀ last : List Char, last.Sublist s → last.length < n := by
      intro last hlast
      have := hlast.length_le
      rw [List.length_cons] at hn
      omega
    rcases char_cases c with rfl | rfl | hc
    · refine chooses_open_iff hw hrest fun last first e hlast => ?_
      exact ih last.length (hshort last hlast) (fun h => hrest (hlast.subset h)) rfl
    · exact absurd rfl hclose
    · have hstep (e' : List Char) : Chooses (s ++ '\x7b' :: (w ++ '\x7d' :: t)) e' ↔
          ∃ x ∈ Text.splitOn ',' w, Chooses (s ++ x ++ t) e' :=
        ih s.length (hshort s (List.Sublist.refl s)) hrest rfl
      simp only [List.cons_append, chooses_cons_iff hc, hstep]
      constructor
      · rintro ⟨e', ⟨x, hx, he⟩, rfl⟩
        exact ⟨x, hx, e', he, rfl⟩
      · rintro ⟨x, hx, e', he, rfl⟩
        exact ⟨e', ⟨x, hx, he⟩, rfl⟩

theorem mem_expandBraces_iff_chooses (hs : Balanced s) : e ∈ expandBraces s ↔ Chooses s e := by
  induction s using expandBraces_induction with
  | none s hnone =>
    rw [expandBraces_of_none hnone, List.mem_singleton, chooses_bare_iff (hs.bare_of_none hnone)]
  | group s g hg ih =>
    have hw := bare_of_firstGroup? hg
    have hclose := not_close_of_firstGroup? hs hg
    obtain rfl := text_of_firstGroup? hg
    rw [Group.text_eq] at hs
    have hbalanced : ∀ x ∈ Text.splitOn ',' g.inside, Balanced (g.before ++ x ++ g.after) := by
      intro x hx
      rw [Balanced, closes_choice hw hx, ← closes_around hw]
      exact hs
    rw [expandBraces_of_some hg, List.mem_flatMap, Group.text_eq, chooses_iff_exists_choice hw hclose]
    exact exists_congr fun x => and_congr_right fun hx => ih x hx (hbalanced x hx)

/-! ### Patterns without nested groups -/

/-- No brace is opened inside a group. -/
def Unnested (s : List Char) : Prop :=
  ∀ g : Group, g.text = s → Balanced g.inside → IsBare g.inside

inductive Part
  | plain (text : List Char)
  | group (inside : List Char)
deriving DecidableEq

namespace Part

def text : Part → List Char
  | plain text => text
  | group inside => '\x7b' :: (inside ++ ['\x7d'])

def choices : Part → List (List Char)
  | plain text => [text]
  | group inside => Text.splitOn ',' inside

def IsFlat : Part → Prop
  | plain text => IsBare text
  | group inside => IsBare inside

end Part

/-- A choice from each list, one written after another. The last choices vary first. -/
def product : List (List (List Char)) → List (List Char)
  | [] => [[]]
  | choices :: rest => choices.flatMap fun x => (product rest).map (x ++ ·)

theorem expandBraces_parts {parts : List Part} (h : ∀ p ∈ parts, p.IsFlat) :
    expandBraces (parts.flatMap Part.text) = product (parts.map Part.choices) := by
  induction parts with
  | nil => exact expandBraces_of_none rfl
  | cons p parts ih =>
    obtain ⟨hp, hparts⟩ := List.forall_mem_cons.1 h
    rw [List.flatMap_cons, List.map_cons, product, ← ih hparts]
    cases p with
    | plain text =>
      rw [Part.text, Part.choices, expandBraces_append hp]
      simp
    | group inside =>
      have hfirst := firstGroup?_group hp (parts.flatMap Part.text)
      have htext : (Part.group inside).text ++ parts.flatMap Part.text =
          '\x7b' :: (inside ++ '\x7d' :: parts.flatMap Part.text) := by
        simp [Part.text]
      rw [htext, expandBraces_of_some hfirst, Part.choices]
      exact List.flatMap_congr fun x hx => expandBraces_append (IsBare.choice hp hx) _

theorem exists_parts (hs : Balanced s) (hflat : Unnested s) :
    ∃ parts : List Part, (∀ p ∈ parts, p.IsFlat) ∧ parts.flatMap Part.text = s := by
  -- A group is taken off as a whole, so the induction is on the length.
  induction hn : s.length using Nat.strongRecOn generalizing s with
  | _ n ih =>
  cases s with
  | nil => exact ⟨[], by simp, rfl⟩
  | cons c s =>
    rcases char_cases c with rfl | rfl | hc
    · have hopen : closes (0 + (0 + 1)) s = true := by rwa [Balanced, closes_open] at hs
      obtain ⟨inside, r, rfl, hinside, hr⟩ := exists_close hopen
      have hbare : IsBare inside := hflat ⟨[], inside, r⟩ rfl hinside
      have hrest : Unnested r := by
        rintro g rfl hg
        exact hflat { g with before := '\x7b' :: (inside ++ '\x7d' :: g.before) }
          (by simp [Group.text]) hg
      obtain ⟨parts, hparts, rfl⟩ := ih r.length (by simp [← hn]; omega) hr hrest rfl
      refine ⟨.group inside :: parts, List.forall_mem_cons.2 ⟨hbare, hparts⟩, ?_⟩
      simp [Part.text]
    · simp [Balanced] at hs
    · have hrest : Unnested s := by
        rintro g rfl hg
        exact hflat { g with before := c :: g.before } rfl hg
      rw [Balanced, closes_char hc] at hs
      obtain ⟨parts, hparts, rfl⟩ := ih s.length (by simp [← hn]) hs hrest rfl
      refine ⟨.plain [c] :: parts, List.forall_mem_cons.2 ⟨?_, hparts⟩, rfl⟩
      exact List.forall_mem_singleton.2 hc

theorem append_open_inj {b b' r r' : List Char} (hb : IsBare b)
    (h : b ++ r = b' ++ '\x7b' :: r') : ∃ b'', b' = b ++ b'' ∧ r = b'' ++ '\x7b' :: r' := by
  rcases List.append_eq_append_iff.1 h with ⟨b'', rfl, hr⟩ | ⟨u, rfl, hu⟩
  · exact ⟨b'', rfl, hr⟩
  · cases u with
    | nil => exact ⟨[], by simp, hu.symm⟩
    | cons c u =>
      obtain ⟨rfl, -⟩ := List.cons.inj hu
      exact absurd (by simp) hb.not_open

theorem unnested_parts {parts : List Part} (h : ∀ p ∈ parts, p.IsFlat) :
    Unnested (parts.flatMap Part.text) := by
  induction parts with
  | nil =>
    intro g hg
    simp [Group.text] at hg
  | cons p parts ih =>
    obtain ⟨hp, hparts⟩ := List.forall_mem_cons.1 h
    intro g hg hinside
    rw [Group.text_eq, List.flatMap_cons] at hg
    have hlater (before : List Char) (htext : parts.flatMap Part.text =
        before ++ '\x7b' :: (g.inside ++ '\x7d' :: g.after)) : IsBare g.inside :=
      ih hparts ⟨before, g.inside, g.after⟩ (by rw [Group.text_eq, htext]) hinside
    cases p with
    | plain text =>
      obtain ⟨before, -, htext⟩ := append_open_inj hp hg.symm
      exact hlater before htext
    | group inside =>
      rw [Part.text, List.cons_append, List.append_assoc] at hg
      cases hbefore : g.before with
      | nil =>
        rw [hbefore] at hg
        rw [(close_unique hinside (IsBare.balanced hp) (List.cons.inj hg).2).1]
        exact hp
      | cons c before =>
        rw [hbefore] at hg
        obtain ⟨later, -, htext⟩ := append_open_inj hp (List.cons.inj hg).2.symm
        cases later with
        | nil => cases htext
        | cons c later => exact hlater later (List.cons.inj htext).2

/-- What expansion does to every pattern, and what it computes for a balanced one. It replaces the
first group by each of its alternatives until there are no groups, each time with one opening brace
less. A balanced pattern yields just the texts that come from choosing one alternative in each
group, from the outside. If no groups are nested, they are the choices from its parts in order. -/
theorem expandBraces_denotes (s : List Char) :
    (¬ HasGroup s → expandBraces s = [s]) ∧
    (HasGroup s → ∃ g, firstGroup? s = some g ∧ g.text = s ∧ IsBare g.inside ∧
      (expandBraces s = (Text.splitOn ',' g.inside).flatMap fun x =>
        expandBraces (g.before ++ x ++ g.after)) ∧
      ∀ x ∈ Text.splitOn ',' g.inside,
        (g.before ++ x ++ g.after).count '\x7b' < s.count '\x7b') ∧
    (∀ e ∈ expandBraces s, ¬ HasGroup e ∧ expandBraces e = [e]) ∧
    (Balanced s → (∀ e, e ∈ expandBraces s ↔ Chooses s e) ∧
      (Unnested s → ∃ parts : List Part, (∀ p ∈ parts, p.IsFlat) ∧ parts.flatMap Part.text = s ∧
        expandBraces s = product (parts.map Part.choices))) := by
  refine ⟨?_, ?_, ?_, ?_⟩
  · exact fun hno => expandBraces_of_none (firstGroup?_eq_none_iff.2 hno)
  · intro hgroup
    obtain ⟨g, hg⟩ := Option.ne_none_iff_exists'.1 (mt firstGroup?_eq_none_iff.1 (not_not.2 hgroup))
    refine ⟨g, hg, text_of_firstGroup? hg, bare_of_firstGroup? hg, expandBraces_of_some hg, ?_⟩
    intro x hx
    have := count_choice hg hx
    omega
  · intro e he
    have hno := not_hasGroup_of_mem he
    exact ⟨hno, expandBraces_of_none (firstGroup?_eq_none_iff.2 hno)⟩
  · intro hs
    refine ⟨fun e => mem_expandBraces_iff_chooses hs, fun hflat => ?_⟩
    obtain ⟨parts, hparts, rfl⟩ := exists_parts hs hflat
    exact ⟨parts, hparts, rfl, expandBraces_parts hparts⟩

/-- Groups in a group, and an empty alternative. -/
theorem expandBraces_denotes_nested :
    (∀ e, e ∈ ["a.x", "a.", "bc.x", "bc.", "bd.x", "bd."].map String.toList ↔
      Chooses "\x7ba,b\x7bc,d\x7d\x7d.\x7bx,\x7d".toList e) ∧
    ∃ parts : List Part, (∀ p ∈ parts, p.IsFlat) ∧
      parts.flatMap Part.text = "\x7ba,b\x7d/*.\x7bx,\x7d".toList ∧
      product (parts.map Part.choices) = ["a/*.x", "a/*.", "b/*.x", "b/*."].map String.toList := by
  constructor
  · intro e
    obtain ⟨-, -, -, hdenotes⟩ := expandBraces_denotes "\x7ba,b\x7bc,d\x7d\x7d.\x7bx,\x7d".toList
    have hexpand : expandBraces "\x7ba,b\x7bc,d\x7d\x7d.\x7bx,\x7d".toList =
        ["a.x", "a.", "bc.x", "bc.", "a.x", "a.", "bd.x", "bd."].map String.toList := by decide
    rw [← (hdenotes (by decide)).1 e, hexpand]
    exact ⟨(by decide : ∀ e ∈ _, e ∈ _) e, (by decide : ∀ e ∈ _, e ∈ _) e⟩
  · have hflat : ∀ p ∈ [Part.group "a,b".toList, .plain "/*.".toList, .group "x,".toList],
        p.IsFlat := by
      simp [Part.IsFlat, IsBare, brace]
    obtain ⟨-, -, -, hdenotes⟩ := expandBraces_denotes "\x7ba,b\x7d/*.\x7bx,\x7d".toList
    obtain ⟨parts, hparts, htext, hproduct⟩ := (hdenotes (by decide)).2 (unnested_parts hflat)
    exact ⟨parts, hparts, htext, hproduct.symm.trans (by decide)⟩

end QueryTypes.Glob
