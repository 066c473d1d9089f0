import Mathlib.Data.List.Chain
import Mathlib.Data.List.DropRight
import QueryTypes.Proofs.Text.Fields
import QueryTypes.Text.Comment

/-!
# Texts of comments

A description is made one line of a comment by steps that each look at a character and its
neighbour, so what a step has settled about neighbours is carried through the later ones. Main
statement: whatever a description says, its comment stays on its line and does not end before its
end, and nothing happens to a text that is such a line already.
-/

namespace QueryTypes.Text

/-- A text that can stand on a line of a comment. -/
structure IsCommentLine (s : List Char) : Prop where
  unended : ¬ ['*', '/'] <:+: s
  plain : ∀ c ∈ s, isBlank c = true → c = ' '
  single : ∀ c d, [c, d] <:+: s → isBlank c = true → isBlank d = false
  first : ∀ c ∈ s.head?, isBlank c = false
  last : ∀ c ∈ s.getLast?, isBlank c = false
  short : s.length ≤ 120

/-! ### Neighbours -/

/-- Neighbours that do not end a comment. -/
def Apart (a b : Char) : Prop := ¬ (a = '*' ∧ b = '/')

/-- Neighbours that are not both blank. -/
def Inked (a b : Char) : Prop := isBlank a = true → isBlank b = false

theorem isChain_iff_pairs {R : Char → Char → Prop} {s : List Char} :
    s.IsChain R ↔ ∀ a b, [a, b] <:+: s → R a b := by
  rw [List.isChain_iff_forall_rel_of_append_cons_cons]
  constructor
  · rintro h a b ⟨front, rest, rfl⟩
    exact h (show front ++ [a, b] ++ rest = front ++ a :: b :: rest by simp)
  · rintro h a b front rest rfl
    exact h a b ⟨front, rest, by simp⟩

theorem isChain_apart_iff {s : List Char} : s.IsChain Apart ↔ ¬ ['*', '/'] <:+: s := by
  rw [isChain_iff_pairs]
  constructor
  · exact fun h hend => h _ _ hend ⟨rfl, rfl⟩
  · rintro h a b hab ⟨rfl, rfl⟩
    exact h hab

theorem apart_of_ne_star {a b : Char} (h : a ≠ '*') : Apart a b := fun hab => h hab.1

theorem apart_of_ne_slash {a b : Char} (h : b ≠ '/') : Apart a b := fun hab => h hab.2

/-! ### Keeping the end of a comment out -/

theorem after?_end_eq_none {c : Char} {s : List Char} (h : after? ['*', '/'] (c :: s) = none) :
    ∀ d ∈ s.head?, Apart c d := by
  rintro d hd ⟨rfl, rfl⟩
  cases s with
  | nil => cases hd
  | cons e s =>
    obtain rfl := Option.some.inj hd
    simp [after?, List.isPrefixOf] at h

theorem after?_end_eq_some {c : Char} {s r : List Char} (h : after? ['*', '/'] (c :: s) = some r) :
    c = '*' ∧ s = '/' :: r := by
  cases s with
  | nil => simp [after?, List.isPrefixOf] at h
  | cons d s =>
    by_cases hc : c = '*' ∧ d = '/'
    · obtain ⟨rfl, rfl⟩ := hc
      obtain rfl : s = r := by simpa [after?, List.isPrefixOf] using h
      exact ⟨rfl, rfl⟩
    · simp only [after?, List.isPrefixOf, Bool.and_true, Bool.and_eq_true, beq_iff_eq] at h
      rw [if_neg fun heq => hc ⟨heq.1.symm, heq.2.symm⟩] at h
      cases h

/-- What is put in place of an end begins as the end does, so the first character stays. -/
theorem separated (n : Nat) (s : List Char) (hn : s.length ≤ n) :
    (replace.go ['*', '/'] ['*', ' ', '/'] n s).head? = s.head? ∧
      (replace.go ['*', '/'] ['*', ' ', '/'] n s).IsChain Apart := by
  induction n generalizing s with
  | zero =>
    obtain rfl : s = [] := List.length_eq_zero_iff.1 (Nat.le_zero.1 hn)
    exact ⟨rfl, .nil⟩
  | succ n ih =>
    cases s with
    | nil => exact ⟨rfl, .nil⟩
    | cons c s =>
      have hlength : s.length ≤ n := Nat.le_of_succ_le_succ hn
      rw [replace.go]
      split
      · rename_i r hr
        obtain ⟨rfl, rfl⟩ := after?_end_eq_some hr
        obtain ⟨-, hchain⟩ := ih r (Nat.le_of_succ_le hlength)
        refine ⟨rfl, ?_⟩
        change List.IsChain Apart ('*' :: ' ' :: '/' :: replace.go _ _ n r)
        rw [List.isChain_cons_cons, List.isChain_cons_cons, List.isChain_cons]
        exact ⟨apart_of_ne_slash (by decide), apart_of_ne_star (by decide),
          fun d _ => apart_of_ne_star (by decide), hchain⟩
      · rename_i hnone
        obtain ⟨hhead, hchain⟩ := ih s hlength
        refine ⟨rfl, List.isChain_cons.2 ⟨?_, hchain⟩⟩
        rw [hhead]
        exact after?_end_eq_none hnone

theorem isChain_separateEnds (s : List Char) : (separateEnds s).IsChain Apart :=
  (separated s.length s le_rfl).2

theorem separateEnds_eq_self {s : List Char} (h : s.IsChain Apart) : separateEnds s = s := by
  rw [separateEnds, replace]
  generalize s.length = n
  induction n generalizing s with
  | zero => rfl
  | succ n ih =>
    cases s with
    | nil => rfl
    | cons c s =>
      have hnone : after? ['*', '/'] (c :: s) = none := by
        cases hr : after? ['*', '/'] (c :: s) with
        | none => rfl
        | some r =>
          obtain ⟨rfl, rfl⟩ := after?_end_eq_some hr
          exact absurd ⟨rfl, rfl⟩ (List.isChain_cons_cons.1 h).1
      rw [replace.go, hnone]
      exact congrArg (c :: ·) (ih (List.isChain_cons.1 h).2)

/-! ### Single spaces -/

/-- The first character as it stands when blanks are collapsed. -/
theorem head?_collapse (s : List Char) :
    (collapse s).head? = s.head?.map fun c => if isBlank c then ' ' else c := by
  fun_induction collapse s with
  | case1 => rfl
  | case2 c hc => simp [hc]
  | case3 c hc d s hd ih => rw [ih]; simp [hc, hd]
  | case4 c hc d s hd ih => simp [hc]
  | case5 c s hc ih => simp [hc]

theorem plain_collapse {s : List Char} : ∀ c ∈ collapse s, isBlank c = true → c = ' ' := by
  fun_induction collapse s with
  | case1 => simp
  | case2 c hc => simp
  | case3 c hc d s hd ih => exact ih
  | case4 c hc d s hd ih => exact List.forall_mem_cons.2 ⟨fun _ => rfl, ih⟩
  | case5 c s hc ih => exact List.forall_mem_cons.2 ⟨fun hblank => absurd hblank hc, ih⟩

theorem isChain_inked_collapse (s : List Char) : (collapse s).IsChain Inked := by
  fun_induction collapse s with
  | case1 => exact .nil
  | case2 c hc => exact .singleton _
  | case3 c hc d s hd ih => exact ih
  | case4 c hc d s hd ih =>
    refine List.isChain_cons.2 ⟨fun e he _ => ?_, ih⟩
    rw [head?_collapse] at he
    simp_all
  | case5 c s hc ih => exact List.isChain_cons.2 ⟨fun _ _ hblank => absurd hblank hc, ih⟩

/-- A space comes between no star and slash, for it comes in place of what was between them. -/
theorem isChain_apart_collapse {s : List Char} (h : s.IsChain Apart) :
    (collapse s).IsChain Apart := by
  fun_induction collapse s with
  | case1 => exact .nil
  | case2 c hc => exact .singleton _
  | case3 c hc d s hd ih => exact ih (List.isChain_cons.1 h).2
  | case4 c hc d s hd ih =>
    exact List.isChain_cons.2 ⟨fun _ _ => apart_of_ne_star (by decide), ih (List.isChain_cons.1 h).2⟩
  | case5 c s hc ih =>
    obtain ⟨hhead, hrest⟩ := List.isChain_cons.1 h
    refine List.isChain_cons.2 ⟨fun e he => ?_, ih hrest⟩
    rw [head?_collapse] at he
    obtain ⟨d, hd, rfl⟩ := Option.map_eq_some_iff.1 he
    split
    · exact apart_of_ne_slash (by decide)
    · exact hhead d hd

theorem collapse_eq_self {s : List Char} (hplain : ∀ c ∈ s, isBlank c = true → c = ' ')
    (h : s.IsChain Inked) : collapse s = s := by
  fun_induction collapse s with
  | case1 => rfl
  | case2 c hc => rw [hplain c (by simp) hc]
  | case3 c hc d s hd ih =>
    exact absurd ((List.isChain_cons_cons.1 h).1 hc) (by simp [hd])
  | case4 c hc d s hd ih =>
    rw [ih (fun e he => hplain e (List.mem_cons_of_mem c he)) (List.isChain_cons.1 h).2,
      hplain c (by simp) hc]
  | case5 c s hc ih =>
    rw [ih (fun e he => hplain e (List.mem_cons_of_mem c he)) (List.isChain_cons.1 h).2]

/-! ### Cutting and trimming -/

theorem length_shorten (s : List Char) : (shorten s).length ≤ commentWidth := by
  rw [shorten]
  split
  · rw [List.length_append, List.length_take]
    exact Nat.add_le_of_le_sub (by decide) (Nat.min_le_left _ _)
  · omega

theorem isChain_shorten {R : Char → Char → Prop} {s : List Char} (h : s.IsChain R)
    (hdot : ∀ c, R c '.') : (shorten s).IsChain R := by
  rw [shorten]
  split
  · refine List.isChain_append.2 ⟨h.take _, ?_, ?_⟩
    · simp [hdot]
    · rintro c _ d hd
      obtain rfl := Option.some.inj hd
      exact hdot c
  · exact h

theorem mem_of_mem_shorten {s : List Char} {c : Char} (h : c ∈ shorten s) : c ∈ s ∨ c = '.' := by
  rw [shorten] at h
  split at h
  · rcases List.mem_append.1 h with h | h
    · exact .inl (List.mem_of_mem_take h)
    · exact .inr (by simpa using h)
  · exact .inl h

theorem trimBy_eq (p : Char → Bool) (s : List Char) : trimBy p s = (s.dropWhile p).rdropWhile p :=
  rfl

theorem trimBy_isInfix (p : Char → Bool) (s : List Char) : trimBy p s <:+: s :=
  (List.rdropWhile_prefix p _).isInfix.trans (List.dropWhile_suffix p).isInfix

theorem head?_trimBy (p : Char → Bool) (s : List Char) :
    ∀ c ∈ (trimBy p s).head?, p c = false := by
  intro c hc
  obtain ⟨rest, hrest⟩ := List.rdropWhile_prefix p (s.dropWhile p)
  have hfirst := List.head?_dropWhile_not p s
  rw [← hrest, List.head?_append, ← trimBy_eq, Option.mem_def.1 hc] at hfirst
  exact hfirst

theorem getLast?_trimBy (p : Char → Bool) (s : List Char) :
    ∀ c ∈ (trimBy p s).getLast?, p c = false := by
  intro c hc
  obtain ⟨hne, rfl⟩ := List.mem_getLast?_eq_getLast hc
  exact Bool.eq_false_iff.2 (List.rdropWhile_last_not p _ hne)

theorem trimBy_eq_self {p : Char → Bool} {s : List Char} (hfirst : ∀ c ∈ s.head?, p c = false)
    (hlast : ∀ c ∈ s.getLast?, p c = false) : trimBy p s = s := by
  have hfront : s.dropWhile p = s := by
    cases s with
    | nil => rfl
    | cons c s => exact List.dropWhile_cons_of_neg (by simp [hfirst c rfl])
  rw [trimBy_eq, hfront, List.rdropWhile_eq_self_iff]
  exact fun hne => by simp [hlast _ (List.getLast_mem_getLast? hne)]

/-! ### What is kept -/

/-- The characters of a text that are no blanks. -/
def ink (s : List Char) : List Char := s.filter fun c => !isBlank c

@[simp] theorem ink_append (s t : List Char) : ink (s ++ t) = ink s ++ ink t := List.filter_append ..

@[simp] theorem ink_reverse (s : List Char) : ink s.reverse = (ink s).reverse := List.filter_reverse ..

theorem ink_cons_blank {c : Char} (hc : isBlank c = true) (s : List Char) : ink (c :: s) = ink s :=
  List.filter_cons_of_neg (by simp [hc])

theorem ink_cons (c : Char) (s : List Char) : ink (c :: s) = ink [c] ++ ink s :=
  ink_append [c] s

theorem ink_replace {old new : List Char} (h : ink new = ink old) (s : List Char) :
    ink (replace old new s) = ink s := by
  rw [replace]
  generalize s.length = n
  induction n generalizing s with
  | zero => rfl
  | succ n ih =>
    cases s with
    | nil => rfl
    | cons c s =>
      rw [replace.go]
      split
      · rename_i rest hrest
        rw [after?_eq_some hrest, ink_append, ink_append, ih, h]
      · rw [ink_cons, ih, ← ink_cons]

theorem ink_collapse (s : List Char) : ink (collapse s) = ink s := by
  fun_induction collapse s with
  | case1 => rfl
  | case2 c hc => rw [ink_cons_blank hc, ink_cons_blank (by decide)]
  | case3 c hc d s hd ih => rw [ih, ink_cons_blank hc]
  | case4 c hc d s hd ih => rw [ink_cons_blank (by decide), ih, ink_cons_blank hc]
  | case5 c s hc ih => rw [ink_cons, ih, ← ink_cons]

theorem ink_dropWhile (s : List Char) : ink (s.dropWhile isBlank) = ink s := by
  induction s with
  | nil => rfl
  | cons c s ih =>
    rw [List.dropWhile_cons]
    split
    · rename_i hc
      rw [ih, ink_cons_blank hc]
    · rfl

theorem ink_trim (s : List Char) : ink (trim s) = ink s := by
  rw [trim, trimBy, ink_reverse, ink_dropWhile, ink_reverse, List.reverse_reverse, ink_dropWhile]

/-- A text is cut only in favour of the dots that mark the cut. -/
theorem ink_shorten (s : List Char) : ink (shorten s) = ink s ∨
    ∃ kept, kept <+: ink s ∧ ink (shorten s) = kept ++ ['.', '.', '.'] := by
  rw [shorten]
  split
  · refine .inr ⟨ink (s.take (commentWidth - 3)), (List.take_prefix _ s).filter _, ?_⟩
    rw [ink_append]
    rfl
  · exact .inl rfl

/-! ### Comment texts -/

/-- The line breaks that are looked for are spaces then, or gone. -/
def onOneLine (s : List Char) : List Char := (replace ['\n'] [' '] s).filter (· != '\r')

theorem commentText_eq (s : List Char) :
    commentText s = trim (shorten (collapse (separateEnds (onOneLine s)))) := rfl

theorem ink_onOneLine (s : List Char) : ink (onOneLine s) = ink s := by
  have hfilter (t : List Char) : ink (t.filter (· != '\r')) = ink t := by
    rw [ink, ink, List.filter_filter]
    refine List.filter_congr fun c _ => ?_
    by_cases hc : c = '\r'
    · rw [hc]
      decide
    · simp [hc]
  rw [onOneLine, hfilter, ink_replace (by decide)]

theorem onOneLine_eq_self {s : List Char} (h : ∀ c ∈ s, isBlank c = true → c = ' ') :
    onOneLine s = s := by
  have hnone : ∀ c ∈ s, c ≠ '\n' ∧ c ≠ '\r' := by
    intro c hc
    constructor
    · rintro rfl
      exact absurd (h _ hc (by decide)) (by decide)
    · rintro rfl
      exact absurd (h _ hc (by decide)) (by decide)
  have hreplace : replace ['\n'] [' '] s = s := by
    have hn : ∀ c ∈ s, c ≠ '\n' := fun c hc => (hnone c hc).1
    clear h hnone
    rw [replace]
    generalize s.length = n
    induction n generalizing s with
    | zero => rfl
    | succ n ih =>
      cases s with
      | nil => rfl
      | cons c s =>
        have hpart : after? ['\n'] (c :: s) = none := after?_eq_none fun hprefix =>
          hn c List.mem_cons_self (List.cons_prefix_cons.1 hprefix).1.symm
        rw [replace.go, hpart]
        exact congrArg (c :: ·) (ih fun d hd => hn d (List.mem_cons_of_mem c hd))
  rw [onOneLine, hreplace, List.filter_eq_self]
  exact fun c hc => bne_iff_ne.2 (hnone c hc).2

theorem isBlank_of_isLineEnd {c : Char} (h : isLineEnd c = true) : isBlank c = true := by
  simp only [isLineEnd, List.contains_eq_mem, List.mem_cons, List.not_mem_nil, or_false,
    decide_eq_true_eq] at h
  simp only [isBlank, blankRanges, List.any_cons, List.any_nil, Bool.or_false, Bool.or_eq_true,
    Bool.and_eq_true, decide_eq_true_eq]
  omega

namespace IsCommentLine

variable {s : List Char}

theorem isLineEnd_eq_false (h : IsCommentLine s) {c : Char} (hc : c ∈ s) : isLineEnd c = false := by
  cases hend : isLineEnd c with
  | false => rfl
  | true =>
    rw [h.plain c hc (isBlank_of_isLineEnd hend)] at hend
    exact absurd hend (by decide)

theorem commentText_eq_self (h : IsCommentLine s) : commentText s = s := by
  have hshort : shorten s = s := if_neg (Nat.not_lt.2 h.short)
  rw [commentText_eq, onOneLine_eq_self h.plain, separateEnds_eq_self (isChain_apart_iff.2 h.unended),
    collapse_eq_self h.plain (isChain_iff_pairs.2 h.single), hshort]
  exact trimBy_eq_self h.first h.last

end IsCommentLine

theorem isCommentLine_commentText (s : List Char) : IsCommentLine (commentText s) := by
  have hpart : commentText s <:+: shorten (collapse (separateEnds (onOneLine s))) :=
    trimBy_isInfix _ _
  have happart : (commentText s).IsChain Apart :=
    List.IsChain.infix (isChain_shorten (isChain_apart_collapse (isChain_separateEnds _))
      fun _ => apart_of_ne_slash (by decide)) hpart
  have hinked : (commentText s).IsChain Inked :=
    List.IsChain.infix (isChain_shorten (isChain_inked_collapse _) fun _ _ => by decide) hpart
  refine ⟨isChain_apart_iff.1 happart, ?_, isChain_iff_pairs.1 hinked, head?_trimBy _ _,
    getLast?_trimBy _ _, hpart.length_le.trans (length_shorten _)⟩
  intro c hc hblank
  rcases mem_of_mem_shorten (hpart.subset hc) with hc | rfl
  · exact plain_collapse c hc hblank
  · exact absurd hblank (by decide)

theorem ink_commentText (s : List Char) : ink (commentText s) = ink s ∨
    ∃ kept, kept <+: ink s ∧ ink (commentText s) = kept ++ ['.', '.', '.'] := by
  have hwhole : ink (collapse (separateEnds (onOneLine s))) = ink s := by
    rw [ink_collapse, separateEnds, ink_replace (by decide), ink_onOneLine]
  rw [commentText_eq, ink_trim, ← hwhole]
  exact ink_shorten _

/-- Descriptions stay in their comments. For every text: what stands in the comment has no end of a
comment in it, no line ends of any kind, no blanks at its ends and none beside each other, and at
most 120 characters; written again it is the same. A text is left as it is exactly if all of that
holds for it, and no other characters than blanks are lost unless the text is cut and ends in
dots. -/
theorem comment_stays (text : String) :
    IsCommentLine (comment text).toList ∧ (∀ c ∈ (comment text).toList, isLineEnd c = false) ∧
    comment (comment text) = comment text ∧ (comment text = text ↔ IsCommentLine text.toList) ∧
    (ink (comment text).toList = ink text.toList ∨ ∃ kept, kept <+: ink text.toList ∧
      ink (comment text).toList = kept ++ ['.', '.', '.']) := by
  have htext (s : String) : (comment s).toList = commentText s.toList := by
    rw [comment, String.toList_ofList]
  have hsame {s : String} (h : IsCommentLine s.toList) : comment s = s := by
    rw [comment, h.commentText_eq_self, String.ofList_toList]
  have hline : IsCommentLine (comment text).toList := by
    rw [htext]
    exact isCommentLine_commentText _
  refine ⟨hline, fun c hc => hline.isLineEnd_eq_false hc, hsame hline, ⟨?_, hsame⟩, ?_⟩
  · intro h
    rwa [h] at hline
  · rw [htext]
    exact ink_commentText _

/-- A carriage return between a star and a slash is taken out before ends of comments are looked
for. -/
example : comment "one\n two *\r/ three " = "one two * / three" := by decide

end QueryTypes.Text
