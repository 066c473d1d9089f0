import Mathlib.Data.List.Infix
import QueryTypes.Config.Override
import QueryTypes.Proofs.Glob.Expansion
import QueryTypes.Proofs.Outcome
import QueryTypes.Project.Session

/-!
# Lists of patterns given as arguments

A list given as an argument is cut at its commas, whether or not they stand between braces. What is
cut inside a group has a brace that is not closed, and neither reading a pattern nor expanding it
changes how many there are. Main statement: patterns joined by commas mean what they mean in a list
exactly if none has a comma.
-/

namespace QueryTypes

namespace Glob

/-- How many braces a text opens more than it closes. -/
def unclosed : List Char → Int
  | [] => 0
  | c :: s => brace c + unclosed s

@[simp] theorem unclosed_nil : unclosed [] = 0 := rfl

@[simp] theorem unclosed_cons (c : Char) (s : List Char) :
    unclosed (c :: s) = brace c + unclosed s := rfl

@[simp] theorem unclosed_append (s t : List Char) :
    unclosed (s ++ t) = unclosed s + unclosed t := by
  induction s with
  | nil => rw [List.nil_append, unclosed_nil, Int.zero_add]
  | cons c s ih => rw [List.cons_append, unclosed_cons, unclosed_cons, ih, Int.add_assoc]

theorem unclosed_eq_zero {s : List Char} (h : ∀ c ∈ s, brace c = 0) : unclosed s = 0 := by
  induction s with
  | nil => rfl
  | cons c s ih =>
    rw [unclosed_cons, h c (by simp), ih fun d hd => h d (List.mem_cons_of_mem _ hd)]
    rfl

theorem unclosed_reverse (s : List Char) : unclosed s.reverse = unclosed s := by
  induction s with
  | nil => rfl
  | cons c s ih =>
    rw [List.reverse_cons, unclosed_append, ih, unclosed_cons, unclosed_cons, unclosed_nil]
    omega

/-! ### Reading a pattern -/

theorem unclosed_dropWhile {p : Char → Bool} (hp : ∀ c, p c = true → brace c = 0) (s : List Char) :
    unclosed (s.dropWhile p) = unclosed s := by
  induction s with
  | nil => rfl
  | cons c s ih =>
    rw [List.dropWhile_cons]
    split
    · rename_i hc
      rw [ih, unclosed_cons, hp c hc, Int.zero_add]
    · rfl

theorem brace_of_isBlank {c : Char} (hc : Text.isBlank c = true) : brace c = 0 := by
  have hopen : Text.isBlank '\x7b' = false := by decide
  have hclose : Text.isBlank '\x7d' = false := by decide
  rw [brace, if_neg, if_neg]
  · rintro rfl
    exact Bool.false_ne_true (hclose.symm.trans hc)
  · rintro rfl
    exact Bool.false_ne_true (hopen.symm.trans hc)

theorem unclosed_trim (s : List Char) : unclosed (Text.trim s) = unclosed s := by
  rw [Text.trim, Text.trimBy, unclosed_reverse, unclosed_dropWhile fun _ => brace_of_isBlank,
    unclosed_reverse, unclosed_dropWhile fun _ => brace_of_isBlank]

theorem unclosed_replace (s : List Char) : unclosed (Text.replace ['\\'] ['/'] s) = unclosed s := by
  rw [Text.replace]
  generalize s.length = n
  induction n generalizing s with
  | zero => rfl
  | succ n ih =>
    cases s with
    | nil => rfl
    | cons c s =>
      rw [Text.replace.go]
      split
      · rename_i rest hrest
        rw [Text.after?_eq_some hrest, unclosed_append, unclosed_append, ih]
        rfl
      · rw [unclosed_cons, unclosed_cons, ih]

theorem unclosed_dropDots (n : Nat) (s : List Char) :
    unclosed (GlobSet.normalize.dropDots n s) = unclosed s := by
  induction n generalizing s with
  | zero => rfl
  | succ n ih =>
    simp only [GlobSet.normalize.dropDots]
    split
    · rw [ih, unclosed_cons, unclosed_cons]
      simp [brace]
    · rfl

theorem unclosed_normalize (p : String) : unclosed (GlobSet.normalize p) = unclosed p.toList := by
  rw [GlobSet.normalize, unclosed_dropDots, unclosed_replace]

/-! ### Expanding groups -/

theorem unclosed_of_mem_expand {n : Nat} {s e : List Char} (he : e ∈ expand n s) :
    unclosed e = unclosed s := by
  induction n generalizing s with
  | zero => rw [List.mem_singleton.1 he]
  | succ n ih =>
    simp only [expand] at he
    split at he
    · rw [List.mem_singleton.1 he]
    · rename_i g hg
      obtain ⟨choice, hchoice, he⟩ := List.mem_flatMap.1 he
      have hinside := no_brace_of_seekGroup hg (by simp)
      have hchosen : unclosed choice = 0 :=
        unclosed_eq_zero fun c hc => hinside c (Text.mem_of_mem_splitOn hchoice hc).1
      have htext : g.text = s := text_of_seekGroup hg
      have hopen : brace '\x7b' = 1 := rfl
      have hclose : brace '\x7d' = -1 := rfl
      rw [ih he, ← htext, Group.text]
      simp only [unclosed_append, unclosed_cons, hchosen, unclosed_eq_zero hinside, hopen, hclose]
      omega

theorem expand_ne_nil (n : Nat) (s : List Char) : expand n s ≠ [] := by
  induction n generalizing s with
  | zero => exact List.cons_ne_nil _ _
  | succ n ih =>
    rw [expand]
    split
    · exact List.cons_ne_nil _ _
    · rename_i g hg
      obtain ⟨choice, more, hchoices⟩ :=
        List.exists_cons_of_ne_nil (Text.splitOn_ne_nil ',' g.inside)
      rw [hchoices, List.flatMap_cons]
      exact fun hnil => ih _ (List.append_eq_nil_iff.1 hnil).1

/-- A pattern that can be given in a list: it is not blank at its ends, its braces are all closed,
and its commas stand where a brace is open. -/
structure IsListable (p : String) : Prop where
  ne_empty : p ≠ ""
  trimmed : Text.trimmed p = p
  closed : unclosed p.toList = 0
  commas : ∀ f r, p.toList = f ++ ',' :: r → 0 < unclosed f

instance (p : String) : Decidable (IsListable p) :=
  decidable_of_iff (p ≠ "" ∧ Text.trimmed p = p ∧ unclosed p.toList = 0 ∧
      ∀ f ∈ p.toList.inits, f ++ [','] <+: p.toList → 0 < unclosed f) <| by
    constructor
    · rintro ⟨hne, htrimmed, hclosed, hcommas⟩
      refine ⟨hne, htrimmed, hclosed, fun f r hsplit => hcommas f ?_ ?_⟩
      · exact (List.mem_inits _ _).2 ⟨',' :: r, hsplit.symm⟩
      · exact ⟨r, by rw [hsplit, List.append_assoc]; rfl⟩
    · rintro ⟨hne, htrimmed, hclosed, hcommas⟩
      refine ⟨hne, htrimmed, hclosed, fun f _ ⟨r, hsplit⟩ => hcommas f r ?_⟩
      rw [← hsplit, List.append_assoc]
      rfl

end Glob

namespace GlobSet

open Glob (unclosed IsListable)

variable {ps : List String}

theorem exists_of_mem_expandAll {e : String} (he : e ∈ expandAll ps) :
    ∃ p ∈ ps, unclosed e.toList = unclosed p.toList := by
  obtain ⟨p, hp, he⟩ := List.mem_flatMap.1 he
  obtain ⟨cs, hcs, rfl⟩ := List.mem_map.1 he
  refine ⟨p, hp, ?_⟩
  rw [String.toList_ofList, Glob.unclosed_of_mem_expand hcs, Glob.unclosed_normalize]

theorem exists_mem_expandAll {p : String} (hp : p ∈ ps) :
    ∃ e ∈ expandAll ps, unclosed e.toList = unclosed p.toList := by
  obtain ⟨cs, more, hcs⟩ := List.exists_cons_of_ne_nil
    (Glob.expand_ne_nil ((normalize p).count '\x7b') (normalize p))
  have hmem : cs ∈ Glob.expandBraces (normalize p) := by
    rw [Glob.expandBraces, hcs]
    exact List.mem_cons_self
  refine ⟨String.ofList cs, List.mem_flatMap.2 ⟨p, hp, List.mem_map_of_mem hmem⟩, ?_⟩
  rw [String.toList_ofList, Glob.unclosed_of_mem_expand hmem, Glob.unclosed_normalize]

end GlobSet

/-! ### Lists of patterns -/

section

open Glob (unclosed IsListable)

variable {ps : List String}

theorem commaList_joinWith (hne : ps ≠ []) (hps : ∀ p ∈ ps, IsListable p)
    (hcommas : ∀ p ∈ ps, ',' ∉ p.toList) : commaList (Text.joinWith "," ps) = ps := by
  have htrimmed : ps.map Text.trimmed = ps := by
    conv_rhs => rw [← List.map_id ps]
    exact List.map_congr_left fun p hp => (hps p hp).trimmed
  rw [commaList, Text.split_joinWith_of rfl hne hcommas, htrimmed, List.filter_eq_self]
  exact fun p hp => bne_iff_ne.2 (hps p hp).ne_empty

/-- What stands before a comma in a pattern is an item with a brace that is not closed. -/
theorem exists_unclosed_of_comma (hps : ∀ p ∈ ps, IsListable p) {p : String} (hp : p ∈ ps)
    (hcomma : ',' ∈ p.toList) :
    ∃ item ∈ commaList (Text.joinWith "," ps), 0 < unclosed item.toList := by
  obtain ⟨f, r, hsplit, hfirst⟩ := List.eq_append_cons_of_mem hcomma
  have hopen := (hps p hp).commas f r hsplit
  have hitem : unclosed (Text.trimmed (String.ofList f)).toList = unclosed f := by
    rw [Text.trimmed, String.toList_ofList, String.toList_ofList, Glob.unclosed_trim]
  refine ⟨Text.trimmed (String.ofList f), ?_, by rwa [hitem]⟩
  have hpiece : f ∈ Text.splitOn ',' (Text.joinWith "," ps).toList := by
    have hsep : ",".toList = [','] := rfl
    have hne : ps.map String.toList ≠ [] := List.ne_nil_of_mem (List.mem_map_of_mem hp)
    rw [Text.toList_joinWith_of hsep, Text.splitOn_joinOn_flatMap hne]
    refine List.mem_flatMap.2 ⟨p.toList, List.mem_map_of_mem hp, ?_⟩
    rw [hsplit, Text.splitOn_append hfirst]
    exact List.mem_cons_self
  have hpart : String.ofList f ∈ Text.split ',' (Text.joinWith "," ps) := List.mem_map_of_mem hpiece
  refine List.mem_filter.2 ⟨List.mem_map_of_mem hpart, ?_⟩
  rw [bne_iff_ne]
  intro hempty
  rw [← hitem, hempty] at hopen
  exact absurd hopen (by decide)

/-- A list given as an argument names what the same list names elsewhere exactly if it has no comma
but between its patterns. With one, some expanded pattern has a brace that is not closed. -/
theorem expandAll_commaList_iff (hne : ps ≠ []) (hps : ∀ p ∈ ps, IsListable p) :
    (GlobSet.expandAll (commaList (Text.joinWith "," ps)) = GlobSet.expandAll ps ↔
      ∀ p ∈ ps, ',' ∉ p.toList) ∧
    ∀ p ∈ ps, ',' ∈ p.toList →
      ∃ e ∈ GlobSet.expandAll (commaList (Text.joinWith "," ps)), 0 < unclosed e.toList := by
  have hunclosed : ∀ p ∈ ps, ',' ∈ p.toList →
      ∃ e ∈ GlobSet.expandAll (commaList (Text.joinWith "," ps)), 0 < unclosed e.toList := by
    intro p hp hcomma
    obtain ⟨item, hitem, hopen⟩ := exists_unclosed_of_comma hps hp hcomma
    obtain ⟨e, he, hsame⟩ := GlobSet.exists_mem_expandAll hitem
    exact ⟨e, he, hsame ▸ hopen⟩
  refine ⟨⟨?_, ?_⟩, hunclosed⟩
  · intro hsame p hp hcomma
    obtain ⟨e, he, hopen⟩ := hunclosed p hp hcomma
    rw [hsame] at he
    obtain ⟨q, hq, heq⟩ := GlobSet.exists_of_mem_expandAll he
    rw [heq, (hps q hq).closed] at hopen
    exact absurd hopen (by decide)
  · intro hcommas
    rw [commaList_joinWith hne hps hcommas]

end

namespace ClientConfig

variable {c : ClientConfig} {a : Arguments} {ps : List String}

theorem exists_override (c : ClientConfig)
    (hheaders : ∀ h ∈ a.headers, ∃ v, parseHeader h = .ok v) :
    ∃ c', c.override a = .ok c' ∧ c'.includes = ((given a.includes).map commaList).getD c.includes ∧
      c'.excludes = ((given a.excludes).map commaList).getD c.excludes := by
  rcases Outcome.mapM_cases parseHeader a.headers with ⟨vs, hvs⟩ | ⟨h, hh, err, herr, -⟩
  · obtain ⟨source, hsource⟩ : ∃ source, c.schema.override a = .ok source := by
      rw [SchemaSource.override, hvs]
      exact ⟨_, rfl⟩
    rw [ClientConfig.override, hsource]
    exact ⟨_, rfl, rfl, rfl⟩
  · obtain ⟨v, hv⟩ := hheaders h hh
    rw [hv] at herr
    cases herr

theorem getD_given_joinWith (hne : ps ≠ []) (hps : ∀ p ∈ ps, Glob.IsListable p) (l : List String) :
    ((given (some (Text.joinWith "," ps))).map commaList).getD l =
      commaList (Text.joinWith "," ps) := by
  have hempty : Text.joinWith "," ps ≠ "" := by
    have hsep : ",".toList = [','] := rfl
    obtain ⟨p, rest, rfl⟩ := List.exists_cons_of_ne_nil hne
    have hp : p.toList ≠ [] := mt String.toList_eq_nil_iff.1 (hps p (by simp)).ne_empty
    rw [← String.toList_inj.ne, Text.toList_joinWith_of hsep, List.map_cons]
    cases rest with
    | nil => exact hp
    | cons q rest =>
      rw [Text.joinOn_cons _ (by simp)]
      simp
  rw [given, Option.filter_some, if_pos (bne_iff_ne.2 hempty)]
  rfl

/-- Lists of patterns given as arguments. For every configured client and arguments with headers
that can be read: there is a client, and if patterns joined by commas are given to be included, they
are expanded as those of a client that lists them exactly if no pattern has a comma; if one has, an
expanded pattern has a brace that is not closed. So it is for the patterns to be excluded. -/
theorem override_lists_iff (c : ClientConfig)
    (hheaders : ∀ h ∈ a.headers, ∃ v, parseHeader h = .ok v) (hne : ps ≠ [])
    (hps : ∀ p ∈ ps, Glob.IsListable p) (origin : Option SchemaOrigin) (root : Location) :
    ∃ c', c.override a = .ok c' ∧
      let globs (c : ClientConfig) := (Project.ofClient c origin root).globs
      (a.includes = some (Text.joinWith "," ps) →
        (globs c' = globs { c' with includes := ps } ↔ ∀ p ∈ ps, ',' ∉ p.toList) ∧
        ∀ p ∈ ps, ',' ∈ p.toList → ∃ e ∈ (globs c').includes, 0 < Glob.unclosed e.toList) ∧
      (a.excludes = some (Text.joinWith "," ps) →
        (globs c' = globs { c' with excludes := ps } ↔ ∀ p ∈ ps, ',' ∉ p.toList) ∧
        ∀ p ∈ ps, ',' ∈ p.toList → ∃ e ∈ (globs c').excludes, 0 < Glob.unclosed e.toList) := by
  obtain ⟨c', hc', hincludes, hexcludes⟩ := exists_override c hheaders
  obtain ⟨hsame, hunclosed⟩ := expandAll_commaList_iff hne hps
  refine ⟨c', hc', fun hgiven => ?_, fun hgiven => ?_⟩
  · rw [hgiven, getD_given_joinWith hne hps] at hincludes
    rw [← hincludes] at hsame hunclosed
    refine ⟨Iff.trans ⟨?_, ?_⟩ hsame, hunclosed⟩
    · exact congrArg GlobSet.includes
    · exact congrArg fun l => GlobSet.mk root l (GlobSet.expandAll c'.excludes)
  · rw [hgiven, getD_given_joinWith hne hps] at hexcludes
    rw [← hexcludes] at hsame hunclosed
    refine ⟨Iff.trans ⟨?_, ?_⟩ hsame, hunclosed⟩
    · exact congrArg GlobSet.excludes
    · exact congrArg fun l => GlobSet.mk root (GlobSet.expandAll c'.includes) l

/-- A pattern with two endings: as an argument it is two patterns, and neither is for scripts. -/
theorem override_lists_iff_endings :
    let a : Arguments := { Arguments.none with includes := some "src/**/*.\x7bts,tsx\x7d" }
    ∃ c', standard.override a = .ok c' ∧
      let cut := (Project.ofClient c' none ["p"]).globs
      let listed :=
        (Project.ofClient { c' with includes := ["src/**/*.\x7bts,tsx\x7d"] } none ["p"]).globs
      c'.includes = ["src/**/*.\x7bts", "tsx\x7d"] ∧ cut ≠ listed ∧
        cut.matchesLocation ["p", "src", "a.ts"] = false ∧
        listed.matchesLocation ["p", "src", "a.ts"] = true := by
  intro a
  have hps : ∀ p ∈ ["src/**/*.\x7bts,tsx\x7d"], Glob.IsListable p := by decide
  have hheaders : ∀ h ∈ a.headers, ∃ v, parseHeader h = .ok v := by simp [a, Arguments.none]
  obtain ⟨c', hc', hincludes, -⟩ :=
    override_lists_iff standard hheaders (List.cons_ne_nil _ _) hps none ["p"]
  obtain ⟨hsame, -⟩ := hincludes rfl
  have hrun : standard.override a =
      .ok { standard with includes := ["src/**/*.\x7bts", "tsx\x7d"] } := by
    rfl
  obtain rfl := Except.ok.inj (hc'.symm.trans hrun)
  refine ⟨_, hc', rfl, ?_, by decide +kernel, by decide +kernel⟩
  intro heq
  exact hsame.1 heq _ List.mem_cons_self (by decide)

end ClientConfig

end QueryTypes
