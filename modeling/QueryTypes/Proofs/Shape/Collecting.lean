import QueryTypes.Proofs.Document.Involved
import QueryTypes.Proofs.Shape.Occurrences

/-!
# Collecting without a limit

The rules of collecting, with no bound on the fragments inside each other. Whatever fragments spread
each other, collecting comes to an end: inside a fragment there are fewer that can still be entered,
and everything else leads to smaller selections. What comes out is what the bounded search gives,
and it depends only on the fragments that are led to.
-/

namespace QueryTypes.Level

/-- A selection with others inside it: their condition, and the fragments that they stand in. -/
inductive Opens (table : Table Fragment) (visiting : List String) :
    Selection → Option String → List Selection → List String → Prop
  | inline {c : Option Name} {ds : List Directive} {below : List Selection} {o : Option Origin} :
      Opens table visiting (.inline c ds below o) (c.map Name.text) below visiting
  | spread {n : Name} {ds : List Directive} {o : Option Origin} {f : Fragment} :
      n.text ∉ visiting → table.get? n.text = some f →
        Opens table visiting (.spread n ds o) (some f.condition.text) f.selections
          (n.text :: visiting)

/-- Collecting from the first selection to the last one, or to the first one that fails. -/
inductive Yields (s : Schema) (table : Table Fragment) :
    List String → NamedType → Bool → List Selection → Except ShapeError (List Occurrence) → Prop
  | nil {visiting : List String} {parent : NamedType} {conditional : Bool} :
      Yields s table visiting parent conditional [] (.ok [])
  | field {visiting : List String} {parent : NamedType} {conditional : Bool} {h : FieldHead}
      {b : Option Origin} {below rest : List Selection}
      {later : Except ShapeError (List Occurrence)} :
      Yields s table visiting parent conditional rest later →
        Yields s table visiting parent conditional (.field h b below :: rest)
          (later.map (⟨h.key, h.name, parent, below, conditional⟩ :: ·))
  /-- inside a fragment the fragment is passed over -/
  | again {visiting : List String} {parent : NamedType} {conditional : Bool} {n : Name}
      {ds : List Directive} {o : Option Origin} {rest : List Selection}
      {later : Except ShapeError (List Occurrence)} :
      n.text ∈ visiting → Yields s table visiting parent conditional rest later →
        Yields s table visiting parent conditional (.spread n ds o :: rest) later
  | unknown {visiting : List String} {parent : NamedType} {conditional : Bool} {n : Name}
      {ds : List Directive} {o : Option Origin} {rest : List Selection} :
      n.text ∉ visiting → table.get? n.text = none →
        Yields s table visiting parent conditional (.spread n ds o :: rest)
          (.error (.unknownFragment n.text))
  | barred {visiting inside : List String} {parent : NamedType} {conditional : Bool}
      {sel : Selection} {c : Option String} {below rest : List Selection} {e : ShapeError} :
      Opens table visiting sel c below inside → conditionType s parent c = .error e →
        Yields s table visiting parent conditional (sel :: rest) (.error e)
  | failing {visiting inside : List String} {parent target : NamedType} {conditional : Bool}
      {sel : Selection} {c : Option String} {below rest : List Selection} {e : ShapeError} :
      Opens table visiting sel c below inside → conditionType s parent c = .ok target →
        Yields s table inside target (conditional || !alwaysApplies s target parent) below
          (.error e) →
        Yields s table visiting parent conditional (sel :: rest) (.error e)
  | entered {visiting inside : List String} {parent target : NamedType} {conditional : Bool}
      {sel : Selection} {c : Option String} {below rest : List Selection}
      {here : List Occurrence} {later : Except ShapeError (List Occurrence)} :
      Opens table visiting sel c below inside → conditionType s parent c = .ok target →
        Yields s table inside target (conditional || !alwaysApplies s target parent) below
          (.ok here) →
        Yields s table visiting parent conditional rest later →
        Yields s table visiting parent conditional (sel :: rest) (later.map (here ++ ·))

variable {s : Schema} {table table' : Table Fragment} {visiting inside : List String}
  {parent : NamedType} {conditional : Bool} {ss rest below : List Selection} {sel : Selection}
  {c : Option String} {r : Except ShapeError (List Occurrence)} {n : Nat}

/-! ### Collecting comes to an end -/

theorem Opens.exists_yields (h : Opens table visiting sel c below inside)
    (hbelow : ∀ parent conditional, ∃ r, Yields s table inside parent conditional below r)
    (hrest : ∃ later, Yields s table visiting parent conditional rest later) :
    ∃ r, Yields s table visiting parent conditional (sel :: rest) r := by
  cases ht : conditionType s parent c with
  | error e => exact ⟨_, .barred h ht⟩
  | ok target =>
    obtain ⟨inner, hinner⟩ := hbelow target (conditional || !alwaysApplies s target parent)
    cases inner with
    | error e => exact ⟨_, .failing h ht hinner⟩
    | ok here =>
      obtain ⟨later, hlater⟩ := hrest
      exact ⟨_, .entered h ht hinner hlater⟩

theorem exists_yields_of_unseen (n : Nat) (ss : List Selection) (visiting : List String)
    (parent : NamedType) (conditional : Bool) (h : table.unseen visiting ≤ n) :
    ∃ r, Yields s table visiting parent conditional ss r := by
  cases ss with
  | nil => exact ⟨_, .nil⟩
  | cons sel rest =>
    have hless : Selection.weights rest < Selection.weights (sel :: rest) := by
      cases sel <;> simp only [Selection.weights, Selection.weight] <;> omega
    have hrest : ∃ later, Yields s table visiting parent conditional rest later :=
      exists_yields_of_unseen n rest visiting parent conditional h
    cases sel with
    | field head b below =>
      obtain ⟨later, hlater⟩ := hrest
      exact ⟨_, .field hlater⟩
    | inline c ds below o =>
      have hbelow : Selection.weights below < Selection.weights (.inline c ds below o :: rest) := by
        simp only [Selection.weights, Selection.weight]
        omega
      exact Opens.inline.exists_yields
        (fun parent conditional => exists_yields_of_unseen n below visiting parent conditional h)
        hrest
    | spread name ds o =>
      by_cases hname : name.text ∈ visiting
      · obtain ⟨later, hlater⟩ := hrest
        exact ⟨_, .again hname hlater⟩
      · cases hf : table.get? name.text with
        | none => exact ⟨_, .unknown hname hf⟩
        | some f =>
          have hfewer := Table.unseen_cons_lt hf hname
          have hn : n - 1 < n := by omega
          exact (Opens.spread hname hf).exists_yields
            (fun parent conditional => exists_yields_of_unseen (n - 1) f.selections
              (name.text :: visiting) parent conditional (by omega)) hrest
-- first the fragments that can still be entered, then the size of what is left
termination_by (n, Selection.weights ss)

/-- Whatever fragments spread each other, collecting comes to an end. -/
theorem exists_yields (s : Schema) (table : Table Fragment) (visiting : List String)
    (parent : NamedType) (conditional : Bool) (ss : List Selection) :
    ∃ r, Yields s table visiting parent conditional ss r :=
  exists_yields_of_unseen _ ss visiting parent conditional (Nat.le_refl _)

/-! ### The bounded search -/

theorem Opens.occurrence_eq (h : Opens table visiting sel c below inside)
    (hn : table.unseen visiting < n) : ∃ m, table.unseen inside < m ∧ ∀ parent conditional,
      occurrence s (followOf s table n visiting) parent conditional sel = (do
        let target ← conditionType s parent c
        collect s table m inside target (conditional || !alwaysApplies s target parent) below) := by
  cases h with
  | inline =>
    refine ⟨n, hn, fun parent conditional => ?_⟩
    rw [occurrence, collect_eq]
  | spread hname hf =>
    have hfewer := Table.unseen_cons_lt hf hname
    obtain ⟨m, rfl⟩ : ∃ m, n = m + 1 := ⟨n - 1, by omega⟩
    refine ⟨m, by omega, fun parent conditional => ?_⟩
    rw [occurrence, followOf, if_neg (by simpa using hname), hf]

theorem collect_cons : collect s table n visiting parent conditional (sel :: rest) = (do
    let here ← occurrence s (followOf s table n visiting) parent conditional sel
    let later ← collect s table n visiting parent conditional rest
    return here ++ later) := by
  rw [collect_eq, occurrences]

theorem Yields.collect (h : Yields s table visiting parent conditional ss r)
    (hn : table.unseen visiting < n) :
    Level.collect s table n visiting parent conditional ss = r := by
  induction h generalizing n with
  | nil => rw [collect_eq, occurrences]
  | @field _ _ _ _ _ _ _ later _ ih =>
    rw [collect_cons, occurrence, ih hn]
    cases later <;> rfl
  | @again _ _ _ _ _ _ _ later hname _ ih =>
    obtain ⟨m, rfl⟩ : ∃ m, n = m + 1 := ⟨n - 1, by omega⟩
    rw [collect_cons, occurrence, followOf, if_pos (by simpa using hname), ih hn]
    cases later <;> rfl
  | unknown hname hf =>
    obtain ⟨m, rfl⟩ : ∃ m, n = m + 1 := ⟨n - 1, by omega⟩
    rw [collect_cons, occurrence, followOf, if_neg (by simpa using hname), hf]
    rfl
  | barred hopens ht =>
    obtain ⟨m, -, heq⟩ := hopens.occurrence_eq hn
    rw [collect_cons, heq, ht]
    rfl
  | failing hopens ht _ ih =>
    obtain ⟨m, hm, heq⟩ := hopens.occurrence_eq hn
    rw [collect_cons, heq, ht]
    simp only [bind, Except.bind, ih hm]
  | @entered _ _ _ _ _ _ _ _ _ _ later hopens ht _ _ ih ihrest =>
    obtain ⟨m, hm, heq⟩ := hopens.occurrence_eq hn
    rw [collect_cons, heq, ht, ihrest hn]
    simp only [bind, Except.bind, ih hm]
    cases later <;> rfl

/-- The outcome is what the bounded search gives, if it goes on for as many fragments as are left. -/
theorem yields_iff (hn : table.unseen visiting < n) :
    Yields s table visiting parent conditional ss r ↔
      collect s table n visiting parent conditional ss = r := by
  constructor
  · intro h
    exact h.collect hn
  · intro h
    obtain ⟨r', hr'⟩ := exists_yields s table visiting parent conditional ss
    rwa [← h, hr'.collect hn]

theorem Yields.unique {r' : Except ShapeError (List Occurrence)}
    (h : Yields s table visiting parent conditional ss r)
    (h' : Yields s table visiting parent conditional ss r') : r = r' := by
  rw [← h.collect (Nat.lt_succ_self _), h'.collect (Nat.lt_succ_self _)]

theorem conditionType_ne_endless : conditionType s parent c ≠ .error .endless := by
  cases c with
  | none => simp [conditionType]
  | some c =>
    rw [conditionType]
    cases s.type? c with
    | none => simp
    | some t => by_cases ht : t.isComposite = true <;> simp [ht]

theorem Yields.ne_endless (h : Yields s table visiting parent conditional ss r) :
    r ≠ .error .endless := by
  induction h with
  | nil => simp
  | field _ ih => exact Outcome.map_ne_error ih
  | again _ _ ih => exact ih
  | unknown => simp
  | barred _ ht =>
    intro heq
    rw [Except.error.inj heq] at ht
    exact conditionType_ne_endless ht
  | failing _ _ _ ih => exact ih
  | entered _ _ _ _ _ ih => exact Outcome.map_ne_error ih

/-! ### What collecting depends on -/

theorem Opens.congr (h : Opens table visiting sel c below inside)
    (hsame : AgreeOn table table' (sel :: rest)) :
    Opens table' visiting sel c below inside ∧ AgreeOn table table' below := by
  cases h with
  | inline =>
    refine ⟨.inline, hsame.of_leads fun n hn => .spread ?_⟩
    exact List.mem_append_left _ hn
  | @spread name ds o f hname hf =>
    have hspread : Leads table (Selection.allSpreads (.spread name ds o :: rest)) name.text :=
      .spread List.mem_cons_self
    refine ⟨.spread hname (by rw [← hsame _ hspread, hf]), hsame.of_leads fun n hn => ?_⟩
    rw [← spreadsOf_of_get? hf] at hn
    exact .through hspread hn

/-- Collecting depends only on the fragments that the selections lead to. -/
theorem Yields.congr (h : Yields s table visiting parent conditional ss r)
    (hsame : AgreeOn table table' ss) : Yields s table' visiting parent conditional ss r := by
  induction h with
  | nil => exact .nil
  | field _ ih => exact .field (ih hsame.tail)
  | again hname _ ih => exact .again hname (ih hsame.tail)
  | unknown hname hf =>
    refine .unknown hname ?_
    rw [← hsame _ (.spread List.mem_cons_self), hf]
  | barred hopens ht => exact .barred (hopens.congr hsame).1 ht
  | failing hopens ht _ ih =>
    obtain ⟨hopens', hbelow⟩ := hopens.congr hsame
    exact .failing hopens' ht (ih hbelow)
  | entered hopens ht _ _ ih ihrest =>
    obtain ⟨hopens', hbelow⟩ := hopens.congr hsame
    exact .entered hopens' ht (ih hbelow) (ihrest hsame.tail)

end QueryTypes.Level
