import QueryTypes.Glob.Set
import QueryTypes.Proofs.Text.Fields

/-!
# Characters of expanded patterns

Putting slashes for backslashes, taking `./` away in front and choosing alternatives brings no new
characters into a pattern but slashes.
-/

namespace QueryTypes

namespace Text

theorem mem_of_mem_replace {old new s : List Char} {c : Char} (hc : c ∈ replace old new s) :
    c ∈ new ∨ c ∈ s := by
  unfold replace at hc
  generalize s.length = n at hc
  induction n generalizing s with
  | zero => exact .inr hc
  | succ n ih =>
    cases s with
    | nil => exact .inr hc
    | cons d s =>
      simp only [replace.go] at hc
      split at hc
      · rename_i rest hrest
        have hsub : ∀ x ∈ rest, x ∈ d :: s := by
          intro x hx
          unfold after? at hrest
          split at hrest
          · obtain rfl := Option.some.inj hrest
            exact List.mem_of_mem_drop hx
          · simp at hrest
        rcases List.mem_append.1 hc with hc | hc
        · exact .inl hc
        · exact (ih hc).imp_right (hsub c)
      · rcases List.mem_cons.1 hc with rfl | hc
        · exact .inr List.mem_cons_self
        · exact (ih hc).imp_right (List.mem_cons_of_mem d)

end Text

namespace Glob

/-- A text whose group is this one. -/
def Group.text (g : Group) : List Char :=
  g.before ++ '\x7b' :: g.inside ++ '\x7d' :: g.after

/-- What was read since the last opening brace, with the brace. -/
def readSince : Option (List Char) → List Char
  | none => []
  | some inside => '\x7b' :: inside.reverse

theorem text_of_seekGroup {before s : List Char} {inside? : Option (List Char)} {g : Group}
    (h : seekGroup before inside? s = some g) : g.text = before.reverse ++ readSince inside? ++ s := by
  induction s generalizing before inside? with
  | nil => simp [seekGroup] at h
  | cons c s ih =>
    cases inside? with
    | none =>
      simp only [seekGroup] at h
      split at h
      · rename_i hc
        rw [ih h, hc]
        simp [readSince]
      · rw [ih h]
        simp [readSince]
    | some inside =>
      simp only [seekGroup] at h
      split at h
      · rename_i hc
        rw [ih h, hc]
        simp [readSince]
      · split at h
        · rename_i hc
          obtain rfl := Option.some.inj h
          rw [hc]
          simp [Group.text, readSince]
        · rw [ih h]
          simp [readSince]

def brace (c : Char) : Int := if c = '\x7b' then 1 else if c = '\x7d' then -1 else 0

theorem no_brace_of_seekGroup {before s : List Char} {inside? : Option (List Char)} {g : Group}
    (h : seekGroup before inside? s = some g)
    (hinside : ∀ i, inside? = some i → ∀ c ∈ i, brace c = 0) :
    ∀ c ∈ g.inside, brace c = 0 := by
  induction s generalizing before inside? with
  | nil => simp [seekGroup] at h
  | cons c s ih =>
    cases inside? with
    | none =>
      simp only [seekGroup] at h
      split at h
      · exact ih h (by simp)
      · exact ih h (by simp)
    | some inside =>
      simp only [seekGroup] at h
      split at h
      · exact ih h (by simp)
      · rename_i hopen
        split at h
        · obtain rfl := Option.some.inj h
          intro d hd
          exact hinside inside rfl d (List.mem_reverse.1 hd)
        · rename_i hclose
          refine ih h fun i hi d hd => ?_
          rw [← Option.some.inj hi] at hd
          rcases List.mem_cons.1 hd with rfl | hd
          · rw [brace, if_neg hopen, if_neg hclose]
          · exact hinside inside rfl d hd

theorem mem_of_mem_expand {n : Nat} {s e : List Char} {c : Char} (he : e ∈ expand n s)
    (hc : c ∈ e) : c ∈ s := by
  induction n generalizing s with
  | zero =>
    obtain rfl : e = s := by simpa [expand] using he
    exact hc
  | succ n ih =>
    simp only [expand] at he
    split at he
    · rwa [← List.mem_singleton.1 he]
    · rename_i g hg
      have hs : g.text = s := text_of_seekGroup hg
      obtain ⟨choice, hchoice, he⟩ := List.mem_flatMap.1 he
      have hmem := ih he
      rw [← hs, Group.text]
      simp only [List.mem_append, List.mem_cons] at hmem ⊢
      rcases hmem with (hmem | hmem) | hmem
      · exact .inl (.inl hmem)
      · exact .inl (.inr (.inr (Text.mem_of_mem_splitOn hchoice hmem).1))
      · exact .inr (.inr hmem)

end Glob

namespace GlobSet

theorem mem_of_mem_dropDots {n : Nat} {s : List Char} {c : Char} (hc : c ∈ normalize.dropDots n s) :
    c ∈ s := by
  induction n generalizing s with
  | zero => exact hc
  | succ n ih =>
    simp only [normalize.dropDots] at hc
    split at hc
    · exact List.mem_cons_of_mem _ (List.mem_cons_of_mem _ (ih hc))
    · exact hc

theorem mem_of_mem_expandAll {patterns : List String} {p : String} (hp : p ∈ expandAll patterns)
    {c : Char} (hc : c ∈ p.toList) : c = '/' ∨ ∃ pattern ∈ patterns, c ∈ pattern.toList := by
  obtain ⟨pattern, hpattern, hp⟩ := List.mem_flatMap.1 hp
  obtain ⟨e, he, rfl⟩ := List.mem_map.1 hp
  rw [String.toList_ofList] at hc
  rcases Text.mem_of_mem_replace (mem_of_mem_dropDots (Glob.mem_of_mem_expand he hc)) with hc | hc
  · exact .inl (List.mem_singleton.1 hc)
  · exact .inr ⟨pattern, hpattern, hc⟩

end GlobSet
end QueryTypes
