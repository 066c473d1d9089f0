import Mathlib.Data.List.Infix
import Mathlib.Data.List.TakeWhile
import QueryTypes.Proofs.Text.Fields
import QueryTypes.Script.Template

/-!
# Templates embedded in a script

A script is written from templates with text between them, and the texts of the templates are read
back from it: each template is found where it begins, none is found elsewhere, and of each text
nothing is taken out but what is inserted into it.
-/

namespace QueryTypes.Template

/-- A name that templates are marked with. Letters, digits and the other characters of names are
neither blank nor backticks. -/
structure IsTag (tag : List Char) : Prop where
  ne_nil : tag ≠ []
  no_blank : ∀ c ∈ tag, Text.isBlank c = false
  no_tick : tick ∉ tag

/-- A part of the text of a template. -/
inductive Part
  | plain (c : Char)
  | escaped (c : Char)
  | insert (inside : List Char)
deriving DecidableEq, Repr

namespace Part

def text : Part → List Char
  | plain c => [c]
  | escaped c => ['\\', c]
  | insert inside => '$' :: '\x7b' :: (inside ++ ['\x7d'])

/-- What is kept of a part: an escape as it is written, and nothing of what is inserted. -/
def kept : Part → List Char
  | plain c => [c]
  | escaped c => ['\\', c]
  | insert _ => []

def IsFit : Part → Prop
  | plain c => c ≠ tick ∧ c ≠ '\\'
  | escaped _ => True
  | insert inside => '\x7d' ∉ inside ∧ tick ∉ inside ∧ '\\' ∉ inside

instance : DecidablePred IsFit := fun p => by
  cases p <;> unfold IsFit <;> infer_instance

end Part

def bodyText (parts : List Part) : List Char := parts.flatMap Part.text

def keptText (parts : List Part) : List Char := parts.flatMap Part.kept

/-- Where something is kept, nothing seems to be inserted. -/
def Unopened : List Part → Prop
  | [] => True
  | p :: parts =>
    (∀ v ∈ p.kept.tails, v ≠ [] → ¬ ['$', '\x7b'] <+: v ++ bodyText parts) ∧ Unopened parts

instance decidableUnopened : DecidablePred Unopened
  | [] => inferInstanceAs (Decidable True)
  | p :: parts =>
    have := decidableUnopened parts
    inferInstanceAs (Decidable
      ((∀ v ∈ p.kept.tails, v ≠ [] → ¬ ['$', '\x7b'] <+: v ++ bodyText parts) ∧ Unopened parts))

/-- A template with the text in front of it. -/
structure Embedded where
  before : List Char
  blanks : List Char
  parts : List Part

/-- The templates one after the other, and the text behind the last one. -/
def script (tag : List Char) : List Embedded → List Char → List Char
  | [], last => last
  | e :: es, last =>
    e.before ++ (tag ++ (e.blanks ++ tick :: (bodyText e.parts ++ tick :: script tag es last)))

/-- The last character of a text, or the one in front of it, goes on as a name. -/
def continued (before : Option Char) (s : List Char) : Bool :=
  (s.getLast?.or before).any continuesName

/-- The text starts with the tag, blanks and a backtick. -/
def Opens (tag s : List Char) : Prop :=
  ∃ blanks rest, s = tag ++ (blanks ++ tick :: rest) ∧ ∀ c ∈ blanks, Text.isBlank c = true

/-- A template begins somewhere in the text, where no longer name ends with the tag. -/
def Begins (tag s : List Char) : Prop :=
  ∃ front rest, s = front ++ rest ∧ continued none front = false ∧ Opens tag rest

structure Embedded.IsFit (tag : List Char) (e : Embedded) : Prop where
  not_begins : ¬ Begins tag e.before
  apart : continued none e.before = false
  blanks : ∀ c ∈ e.blanks, Text.isBlank c = true
  parts : ∀ p ∈ e.parts, p.IsFit
  unopened : Unopened e.parts

/-! ## The text of one template -/

theorem body?_tick (t : List Char) : body? (tick :: t) = some ([], t) := by
  rw [body?.eq_def]
  exact if_pos rfl

theorem body?_escape (c : Char) (t : List Char) :
    body? ('\\' :: c :: t) = (body? t).map fun p => ('\\' :: c :: p.1, p.2) := by
  rw [body?.eq_def]
  rfl

theorem body?_cons {c : Char} (hc : c ≠ tick) (hc' : c ≠ '\\') (t : List Char) :
    body? (c :: t) = (body? t).map fun p => (c :: p.1, p.2) := by
  rw [body?.eq_def]
  simp only [if_neg hc, if_neg hc']

theorem body?_append {s t : List Char} (htick : tick ∉ s) (hslash : '\\' ∉ s) :
    body? (s ++ t) = (body? t).map fun p => (s ++ p.1, p.2) := by
  induction s with
  | nil => simp
  | cons c s ih =>
    obtain ⟨hc, htick⟩ := not_or.1 (mt List.mem_cons.2 htick)
    obtain ⟨hc', hslash⟩ := not_or.1 (mt List.mem_cons.2 hslash)
    rw [List.cons_append, body?_cons (Ne.symm hc) (Ne.symm hc'), ih htick hslash, Option.map_map]
    rfl

theorem body?_part {p : Part} (hp : p.IsFit) (t : List Char) :
    body? (p.text ++ t) = (body? t).map fun q => (p.text ++ q.1, q.2) := by
  cases p with
  | plain c => exact body?_cons hp.1 hp.2 t
  | escaped c => exact body?_escape c t
  | insert inside =>
    obtain ⟨-, htick, hslash⟩ := hp
    have hkinds : tick ≠ '$' ∧ tick ≠ '\x7b' ∧ tick ≠ '\x7d' := by decide
    exact body?_append (by simp [Part.text, htick, hkinds]) (by simp [Part.text, hslash])

/-- The text of a template ends at the first backtick that nothing escapes. -/
theorem body?_bodyText {parts : List Part} (h : ∀ p ∈ parts, p.IsFit) (t : List Char) :
    body? (bodyText parts ++ tick :: t) = some (bodyText parts, t) := by
  induction parts with
  | nil => exact body?_tick t
  | cons p parts ih =>
    have hrest := ih fun q hq => h q (List.mem_cons_of_mem _ hq)
    rw [bodyText, List.flatMap_cons, List.append_assoc, body?_part (h p (by simp))]
    rw [bodyText] at hrest
    rw [hrest]
    rfl

theorem isBlank_tick : Text.isBlank tick = false := by decide

theorem dropWhile_blanks {blanks : List Char} (h : ∀ c ∈ blanks, Text.isBlank c = true)
    (r : List Char) : (blanks ++ tick :: r).dropWhile Text.isBlank = tick :: r := by
  rw [List.dropWhile_append_of_pos h, List.dropWhile_cons_of_neg (by simp [isBlank_tick])]

theorem here?_embedded {blanks : List Char} (hblanks : ∀ c ∈ blanks, Text.isBlank c = true)
    {parts : List Part} (hparts : ∀ p ∈ parts, p.IsFit) (tag t : List Char) :
    here? tag (tag ++ (blanks ++ tick :: (bodyText parts ++ tick :: t))) =
      some (bodyText parts, t) := by
  simp only [here?, Text.after?_append, Option.bind_eq_bind, Option.bind_some,
    dropWhile_blanks hblanks, if_true]
  exact body?_bodyText hparts t

theorem opens_iff {tag s : List Char} : Opens tag s ↔
    ((Text.after? tag s).bind fun r => (r.dropWhile Text.isBlank).head?) = some tick := by
  constructor
  · rintro ⟨blanks, rest, rfl, hblanks⟩
    rw [Text.after?_append, Option.bind_some, dropWhile_blanks hblanks]
    rfl
  · intro h
    obtain ⟨r, hr, hquote⟩ := Option.bind_eq_some_iff.1 h
    obtain ⟨rest, hrest⟩ := List.head?_eq_some_iff.1 hquote
    have hsplit := List.takeWhile_append_dropWhile (p := Text.isBlank) (l := r)
    rw [hrest] at hsplit
    exact ⟨r.takeWhile Text.isBlank, rest, by rw [hsplit]; exact Text.after?_eq_some hr,
      fun c hc => List.mem_takeWhile_imp hc⟩

theorem opens_of_here? {tag s : List Char} {p : List Char × List Char} (h : here? tag s = some p) :
    Opens tag s := by
  rw [opens_iff]
  obtain ⟨r, hr, hquote⟩ := Option.bind_eq_some_iff.1 h
  rw [hr, Option.bind_some]
  split at hquote
  · simp at hquote
  next c t hdrop =>
    split at hquote
    next hc => rw [hdrop, hc, List.head?_cons]
    next => simp at hquote

instance (tag s : List Char) : Decidable (Opens tag s) := decidable_of_iff _ opens_iff.symm

instance (tag s : List Char) : Decidable (Begins tag s) :=
  decidable_of_iff
    (∃ i < s.length + 1, continued none (s.take i) = false ∧ Opens tag (s.drop i))
    ⟨fun ⟨i, _, hi⟩ => ⟨s.take i, s.drop i, (List.take_append_drop i s).symm, hi⟩,
      fun ⟨front, rest, hs, hi⟩ => ⟨front.length, by
        rw [hs, List.length_append]; omega, by simpa [hs] using hi⟩⟩

instance (tag : List Char) (e : Embedded) : Decidable (e.IsFit tag) :=
  decidable_of_iff (¬ Begins tag e.before ∧ continued none e.before = false ∧
      e.blanks.all Text.isBlank = true ∧ (∀ p ∈ e.parts, p.IsFit) ∧ Unopened e.parts)
    ⟨fun ⟨h, h', h'', h₁, h₂⟩ => ⟨h, h', List.all_eq_true.1 h'', h₁, h₂⟩,
      fun ⟨h, h', h'', h₁, h₂⟩ => ⟨h, h', List.all_eq_true.2 h'', h₁, h₂⟩⟩

instance (tag : List Char) : Decidable (IsTag tag) :=
  decidable_of_iff (tag ≠ [] ∧ (tag.all fun c => !Text.isBlank c) = true ∧ tick ∉ tag)
    ⟨fun ⟨h, h', h''⟩ => ⟨h, by simpa using h', h''⟩, fun ⟨h, h', h''⟩ => ⟨h, by simpa using h', h''⟩⟩

/-! ## The search for templates -/

theorem continued_cons (before : Option Char) (c : Char) (s : List Char) :
    continued before (c :: s) = continued (some c) s := by
  rw [continued, continued, List.getLast?_cons]
  cases s.getLast? <;> rfl

theorem continued_eq {before : Option Char} (h : before.any continuesName = false)
    (s : List Char) : continued before s = continued none s := by
  unfold continued
  cases s.getLast? with
  | none => exact h
  | some c => rfl

theorem scan_nil {tag : List Char} (htag : IsTag tag) (n : Nat) (before : Option Char) :
    scan tag n before [] = [] := by
  have hnone : here? tag [] = none := by
    obtain ⟨c, tag, rfl⟩ := List.exists_cons_of_ne_nil htag.ne_nil
    rfl
  cases n with
  | zero => rfl
  | succ n => simp [scan.eq_def, hnone]

theorem scan_of_here? {tag s b r : List Char} {before : Option Char} {n : Nat}
    (hbefore : before.any continuesName = false) (h : here? tag s = some (b, r)) :
    scan tag (n + 1) before s = b :: scan tag n (some tick) r := by
  simp [scan.eq_def _ (n + 1), hbefore, h]

/-- The search passes over a text in which no template begins. -/
theorem scan_append {tag s t : List Char} {before : Option Char} {n : Nat}
    (h : ∀ u v, s = u ++ v → v ≠ [] → continued before u = false → here? tag (v ++ t) = none) :
    ∃ last, last.any continuesName = continued before s ∧
      scan tag (s.length + n) before (s ++ t) = scan tag n last t := by
  induction s generalizing before with
  | nil => exact ⟨before, rfl, by simp⟩
  | cons c s ih =>
    have hnone : (if before.any continuesName then none else here? tag (c :: (s ++ t))) = none := by
      split
      next => rfl
      next hbefore => exact h [] (c :: s) rfl (by simp) (by simpa [continued] using hbefore)
    obtain ⟨last, hlast, hscan⟩ := @ih (some c) fun u v hs hv hu =>
      h (c :: u) v (by rw [hs]; rfl) hv (by rwa [continued_cons])
    refine ⟨last, by rw [hlast, continued_cons], ?_⟩
    rw [List.cons_append, List.length_cons, Nat.add_right_comm, scan, hnone]
    exact hscan

/-- No tag stands behind a tag with blanks in such a way that it ends in them. -/
theorem not_tag_in_blanks {tag blanks front rest : List Char} (htag : IsTag tag) (hfront : front ≠ [])
    (hblanks : ∀ c ∈ blanks, Text.isBlank c = true) :
    tag ++ blanks ≠ front ++ (tag ++ rest) := by
  intro heq
  have hmem : ∀ c ∈ tag, c ∉ blanks := by
    intro c hc hb
    have hblank := htag.no_blank c hc
    rw [hblanks c hb] at hblank
    simp at hblank
  have hlen := List.length_pos_iff.2 hfront
  rcases List.append_eq_append_iff.1 heq with ⟨a, -, hb⟩ | ⟨a, ha, hrest⟩
  · obtain ⟨c, tag, rfl⟩ := List.exists_cons_of_ne_nil htag.ne_nil
    exact hmem c (by simp) (by rw [hb]; simp)
  · rcases List.append_eq_append_iff.1 hrest with ⟨b, hb, -⟩ | ⟨b, hb, hblanks'⟩
    · -- the tag would be longer than itself
      have htwice := congrArg List.length ha
      rw [hb, List.length_append, List.length_append] at htwice
      omega
    · have hne : b ≠ [] := by
        rintro rfl
        have hsame := congrArg List.length (ha.symm.trans hb)
        rw [List.length_append, List.append_nil] at hsame
        omega
      obtain ⟨c, b, rfl⟩ := List.exists_cons_of_ne_nil hne
      exact hmem c (by rw [hb]; simp) (by rw [hblanks']; simp)

/-- In front of the end or of a tag no template begins that does not stand there whole. -/
theorem here?_before_tag {tag u v t : List Char} (htag : IsTag tag) (hclear : ¬ Begins tag (u ++ v))
    (hu : continued none u = false) (hv : v ≠ []) (ht : t = [] ∨ tag <+: t) :
    here? tag (v ++ t) = none := by
  rw [Option.eq_none_iff_forall_ne_some]
  intro p hp
  obtain ⟨blanks, r, heq, hblanks⟩ := opens_of_here? hp
  rw [← List.append_assoc] at heq
  have hnotick : ¬ ∃ more, tag ++ more = tick :: r := by
    rintro ⟨more, hmore⟩
    obtain ⟨c, tag, rfl⟩ := List.exists_cons_of_ne_nil htag.ne_nil
    exact htag.no_tick (by rw [(List.cons.inj hmore).1]; simp)
  rcases List.append_eq_append_iff.1 heq with ⟨a, ha, hrest⟩ | ⟨a, rfl, hrest⟩
  · -- the backtick stands in the rest, so a tag would reach into the blanks of another one
    rcases ht with rfl | ⟨more, rfl⟩
    · simp at hrest
    · rcases List.append_eq_append_iff.1 hrest with ⟨b, rfl, -⟩ | ⟨b, hb, hr⟩
      · exact not_tag_in_blanks htag hv hblanks ha
      · cases b with
        | nil =>
          have hself : tag ++ blanks ≠ v ++ (tag ++ []) := not_tag_in_blanks htag hv hblanks
          rw [List.append_nil] at hb
          exact hself (by rw [List.append_nil, ha, hb])
        | cons c b =>
          obtain ⟨rfl, -⟩ := List.cons.inj hr
          exact htag.no_tick (by rw [hb]; simp)
  · cases a with
    | nil =>
      rcases ht with rfl | ⟨more, rfl⟩
      · simp at hrest
      · exact hnotick ⟨more, by simpa using hrest.symm⟩
    | cons c a =>
      obtain ⟨rfl, -⟩ := List.cons.inj hrest
      exact hclear ⟨u, _, rfl, hu, blanks, a, by simp, hblanks⟩

/-- The texts of the templates are what the search finds. -/
theorem scan_script {tag : List Char} (htag : IsTag tag) {es : List Embedded}
    (hes : ∀ e ∈ es, e.IsFit tag) {last : List Char} (hlast : ¬ Begins tag last)
    {before : Option Char} (hbefore : before.any continuesName = false) {n : Nat}
    (hn : (script tag es last).length < n) :
    scan tag n before (script tag es last) = es.map fun e => bodyText e.parts := by
  have hpast : ∀ {s t : List Char} {before : Option Char} (k : Nat), ¬ Begins tag s →
      before.any continuesName = false → (t = [] ∨ tag <+: t) →
      ∃ b, b.any continuesName = continued before s ∧
        scan tag (s.length + k) before (s ++ t) = scan tag k b t := by
    intro s t before k hs hb ht
    refine scan_append ?_
    rintro u v rfl hv hu
    exact here?_before_tag htag hs (by rwa [← continued_eq hb]) hv ht
  induction es generalizing before n with
  | nil =>
    rw [script] at hn
    obtain ⟨k, rfl⟩ := Nat.exists_eq_add_of_lt hn
    obtain ⟨b, -, hscan⟩ := hpast (k + 1) hlast hbefore (.inl rfl)
    rw [List.append_nil] at hscan
    rw [script, Nat.add_assoc, hscan, scan_nil htag]
    rfl
  | cons e es ih =>
    have he := hes e (by simp)
    have hrest := fun f hf => hes f (List.mem_cons_of_mem e hf)
    rw [script] at hn ⊢
    simp only [List.length_append, List.length_cons] at hn
    obtain ⟨k, rfl⟩ : ∃ k, n = e.before.length + (k + 1) := ⟨n - e.before.length - 1, by omega⟩
    obtain ⟨b, hb, hscan⟩ := hpast (k + 1) he.not_begins hbefore (.inr (List.prefix_append tag _))
    rw [continued_eq hbefore, he.apart] at hb
    rw [hscan, scan_of_here? hb (here?_embedded he.blanks he.parts tag _),
      ih hrest (by decide) (by omega), List.map_cons]

/-! ## What is inserted -/

theorem cut?_append {s : List Char} {c : Char} (h : c ∉ s) (t : List Char) :
    Text.cut? c (s ++ c :: t) = some (s, t) := by
  induction s with
  | nil => simp [Text.cut?]
  | cons d s ih =>
    obtain ⟨hd, hs⟩ := not_or.1 (mt List.mem_cons.2 h)
    simp [Text.cut?, Ne.symm hd, ih hs]

theorem dropInserts_append {s t : List Char} {n : Nat}
    (h : ∀ v ∈ s.tails, v ≠ [] → ¬ ['$', '\x7b'] <+: v ++ t) :
    dropInserts (s.length + n) (s ++ t) = s ++ dropInserts n t := by
  induction s with
  | nil => simp
  | cons c s ih =>
    rw [List.tails_cons] at h
    have hrest := ih fun v hv => h v (List.mem_cons_of_mem _ hv)
    have hnone := Text.after?_eq_none (h (c :: s) (by simp) (by simp))
    rw [List.cons_append] at hnone ⊢
    rw [List.length_cons, Nat.add_right_comm, dropInserts]
    simp only [hnone, hrest, List.cons_append]

theorem dropInserts_insert {inside t : List Char} {n : Nat} (h : '\x7d' ∉ inside) :
    dropInserts (n + 1) ((Part.insert inside).text ++ t) = dropInserts n t := by
  have hafter : Text.after? ['$', '\x7b'] ((Part.insert inside).text ++ t) =
      some (inside ++ '\x7d' :: t) := by
    rw [show (Part.insert inside).text ++ t = ['$', '\x7b'] ++ (inside ++ '\x7d' :: t) by
      simp [Part.text], Text.after?_append]
  rw [Part.text, List.cons_append] at hafter ⊢
  rw [dropInserts]
  simp only [hafter, cut?_append h]

theorem dropInserts_bodyText {parts : List Part} (hparts : ∀ p ∈ parts, p.IsFit)
    (hopen : Unopened parts) {n : Nat} (hn : (bodyText parts).length ≤ n) :
    dropInserts n (bodyText parts) = keptText parts := by
  induction parts generalizing n with
  | nil => cases n <;> rfl
  | cons p parts ih =>
    have hrest := fun {n} => @ih (fun q hq => hparts q (List.mem_cons_of_mem _ hq)) hopen.2 n
    rw [bodyText, List.flatMap_cons, ← bodyText] at hn ⊢
    rw [keptText, List.flatMap_cons, ← keptText]
    rw [List.length_append] at hn
    have hkept : p.text = p.kept → dropInserts n (p.text ++ bodyText parts) =
        p.kept ++ keptText parts := by
      intro hp
      obtain ⟨k, rfl⟩ := Nat.exists_eq_add_of_le (Nat.le_of_add_right_le hn)
      rw [hp, dropInserts_append hopen.1, hrest (by omega)]
    cases p with
    | plain c => exact hkept rfl
    | escaped c => exact hkept rfl
    | insert inside =>
      have hfit := hparts (.insert inside) (by simp)
      have hpos : (Part.insert inside).text.length = inside.length + 3 := by simp [Part.text]
      obtain ⟨k, rfl⟩ : ∃ k, n = k + 1 := ⟨n - 1, by omega⟩
      rw [dropInserts_insert hfit.1, hrest (by omega)]
      rfl

/-- From a script the texts of its templates are read back, in order and without anything else:
each one as it is written but for what is inserted, escapes and all. -/
theorem texts_script {tag : List Char} (htag : IsTag tag) {es : List Embedded}
    (hes : ∀ e ∈ es, e.IsFit tag) {last : List Char} (hlast : ¬ Begins tag last) :
    texts tag (script tag es last) = es.map fun e => keptText e.parts := by
  rw [texts, scan_script htag hes hlast rfl (Nat.lt_succ_self _), List.map_map]
  apply List.map_congr_left
  intro e he
  exact dropInserts_bodyText (hes e he).parts (hes e he).unopened le_rfl

def pageScript : List Embedded :=
  [⟨"const n = my.gql`no`, x = `gql;`;\nconst q = ".toList, " \n".toList,
      "query Q \x7b a(b: \"$".toList.map .plain ++ [.escaped '\x60', .insert "Part".toList] ++
        "\") \x7d".toList.map .plain⟩,
    ⟨[], [], [.insert [], .escaped '$']⟩]

theorem texts_script_page :
    IsTag "gql".toList ∧ (∀ e ∈ pageScript, e.IsFit "gql".toList) ∧
      ¬ Begins "gql".toList "; egql`no`".toList ∧
      texts "gql".toList (script "gql".toList pageScript "; egql`no`".toList) =
        ["query Q \x7b a(b: \"$\\\x60\") \x7d".toList, "\\$".toList] := by
  have htag : IsTag "gql".toList := by decide
  have hes : ∀ e ∈ pageScript, e.IsFit "gql".toList := by decide +kernel
  have hlast : ¬ Begins "gql".toList "; egql`no`".toList := by decide +kernel
  refine ⟨htag, hes, hlast, ?_⟩
  rw [texts_script htag hes hlast]
  decide +kernel

end QueryTypes.Template
