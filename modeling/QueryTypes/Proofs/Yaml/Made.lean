import QueryTypes.Proofs.Text.Fields
import QueryTypes.Proofs.Yaml.Circular

/-!
# How making data fails

A scalar breaks down where its text has no value of the type that its tag names. Main statement:
where the data of a text breaks down, there is such a scalar in its document, or a mapping that is
to be a point in time or stands for its own text, or the text has an escape that is too far.
-/

namespace QueryTypes.Yaml

namespace Data

/-- A text without a value of the type that a tag names. -/
inductive Mistold : String → String → Fault → Prop
  | bool {text word : String} (hword : word = String.ofList (text.toList.map Char.toLower))
      (htrue : word ∉ Plain.trueWords) (hfalse : word ∉ Plain.falseWords) :
      Mistold (standard "bool") text (.missingKey word)
  | int {text : String} {f : Fault} (h : Plain.int text = .error (.breakdown f)) :
      Mistold (standard "int") text f
  | float {text : String} {f : Fault} (h : Plain.float text = .error (.breakdown f)) :
      Mistold (standard "float") text f
  | noMoment {text : String} (h : Plain.moment? false text.toList = none) :
      Mistold (standard "timestamp") text
        (.missingAttribute "'NoneType' object has no attribute 'groupdict'")
  | noSuchMoment {text : String} {m : Plain.Moment}
      (hm : Plain.moment? false text.toList = some m) (h : m.exists_ = false) :
      Mistold (standard "timestamp") text (.badValue "day is out of range for month")

theorem standard_eq_append (name : String) : standard name = standard "" ++ name := by
  unfold standard
  rw [String.append_empty]

/-- The name of a standard tag. -/
theorem after?_standard (name : String) :
    (Text.after? (standard "").toList (standard name).toList).map String.ofList = some name := by
  rw [standard_eq_append name, String.toList_append, Text.after?_append, Option.map_some,
    String.ofList_toList]

theorem eq_standard {tag name : String}
    (h : (Text.after? (standard "").toList tag.toList).map String.ofList = some name) :
    tag = standard name := by
  obtain ⟨r, hr, rfl⟩ := Option.map_eq_some_iff.1 h
  rw [standard_eq_append, ← String.toList_inj, String.toList_append, String.toList_ofList]
  exact Text.after?_eq_some hr

theorem ofScalar_breakdown_iff {tag text : String} {f : Fault} :
    ofScalar tag text = .error (.breakdown f) ↔ Mistold tag text f := by
  constructor
  · intro h
    rw [ofScalar] at h
    split at h
    · cases h
    · next htag =>
      obtain rfl := eq_standard htag
      dsimp only at h
      split at h
      · cases h
      · next htrue =>
        split at h
        · cases h
        · next hfalse =>
          obtain rfl := ReadError.breakdown.inj (Except.error.inj h)
          exact .bool rfl (by simpa using htrue) (by simpa using hfalse)
    · next htag =>
      obtain rfl := eq_standard htag
      refine .int ?_
      cases hint : Plain.int text with
      | error e => simpa [hint, Except.map] using h
      | ok n => simp [hint, Except.map] at h
    · next htag =>
      obtain rfl := eq_standard htag
      refine .float ?_
      cases hfloat : Plain.float text with
      | error e => simpa [hfloat, Except.map] using h
      | ok x => simp [hfloat, Except.map] at h
    · cases h
    · cases hbytes : base64? text with
      | none => simp [hbytes] at h
      | some b => simp [hbytes] at h
    · next htag =>
      obtain rfl := eq_standard htag
      split at h
      · next hm =>
        obtain rfl := ReadError.breakdown.inj (Except.error.inj h)
        exact .noMoment hm
      · next m hm =>
        split at h
        · cases h
        · next hexists =>
          obtain rfl := ReadError.breakdown.inj (Except.error.inj h)
          exact .noSuchMoment hm (by simpa using hexists)
    · cases h
  · intro h
    cases h with
    | bool hword htrue hfalse =>
      subst hword
      simp only [ofScalar, after?_standard]
      rw [if_neg (by simpa using htrue), if_neg (by simpa using hfalse)]
    | int h => simp only [ofScalar, after?_standard, h, Except.map]
    | float h => simp only [ofScalar, after?_standard, h, Except.map]
    | noMoment h => simp only [ofScalar, after?_standard, h]
    | noSuchMoment hm h => simp [ofScalar, after?_standard, hm, h]

end Data

namespace Graph

variable {g : Graph}

/-- A part that is in a document. -/
def HasPart (g : Graph) : Part → Prop
  | .key n | .other n => g.Has n
  | .wrong => True

theorem hasPart_of_mem_getD {α : Type} {x : Option α} {f : α → List Part} {part : Part}
    (h : ∀ a, x = some a → ∀ part ∈ f a, g.HasPart part)
    (hpart : part ∈ (x.map f).getD [.wrong]) : g.HasPart part := by
  cases x with
  | none =>
    obtain rfl := List.mem_singleton.1 hpart
    trivial
  | some a => exact h a rfl part hpart

theorem Has.parts {n : Node} {part : Part} (h : g.Has n) (hpart : part ∈ g.parts n) :
    g.HasPart part := by
  have hpairs {pairs : List (Node × Node)} (hpairs : g.pairsOf n = some pairs) :
      ∀ part ∈ pairs.flatMap fun p => [.key p.1, .other p.2], g.HasPart part := by
    intro part hpart
    obtain ⟨p, hp, hpart⟩ := List.mem_flatMap.1 hpart
    rcases List.mem_cons.1 hpart with rfl | hpart
    · exact (h.pairsOf hpairs hp).1
    · obtain rfl := List.mem_singleton.1 hpart
      exact (h.pairsOf hpairs hp).2
  rw [Graph.parts] at hpart
  split at hpart
  · refine hasPart_of_mem_getD (fun items hitems part hpart => ?_) hpart
    obtain ⟨m, hm, rfl⟩ := List.mem_map.1 hpart
    exact h.itemsOf hitems hm
  · refine hasPart_of_mem_getD (fun items hitems part hpart => ?_) hpart
    obtain ⟨m, hm, hpart⟩ := List.mem_flatMap.1 hpart
    split at hpart
    · next k v hresolved =>
      have hpair := (h.itemsOf hitems hm).pairs hresolved List.mem_cons_self
      rcases List.mem_cons.1 hpart with rfl | hpart
      · exact hpair.1
      · obtain rfl := List.mem_singleton.1 hpart
        exact hpair.2
    · obtain rfl := List.mem_singleton.1 hpart
      trivial
  · exact hasPart_of_mem_getD (fun _ h => hpairs h) hpart
  · exact hasPart_of_mem_getD (fun _ h => hpairs h) hpart
  · cases hpart

/-- Why a node cannot be begun although it follows the grammar: the text of a scalar is no value of
its type, a mapping is to be a point in time, or a text is asked of a mapping that stands for its own
text. -/
inductive Faulty (g : Graph) : Fault → Prop
  | scalar {n : Node} {tag text : String} {f : Fault} (hn : g.Has n)
      (htag : tag = g.tagOf n ∨ tag = Data.keyTag (g.tagOf n))
      (htext : g.textOf (g.size + 2) n = .ok text) (h : Data.Mistold tag text f) : Faulty g f
  | untimely {n : Node} (hn : g.Has n) (hmapping : ∃ k tag pairs, g.resolved n = .mapping k tag pairs) :
      Faulty g (.wrongType "expected string or bytes-like object, got 'list'")
  | text (h : g.Circular g.Says) : Faulty g .endless

theorem eq_endless_of_textOf {depth : Nat} {n : Node} {f : Fault}
    (h : g.textOf depth n = .error (.breakdown f)) : f = .endless := by
  induction depth generalizing n with
  | zero => exact (ReadError.breakdown.inj (Except.error.inj h)).symm
  | succ depth ih =>
    rw [textOf] at h
    split at h
    · cases h
    · split at h
      · exact ih h
      · cases h
    · cases h

theorem exists_mapping_of_isUntimely {tag : String} {n : Node} (h : g.isUntimely tag n = true) :
    ∃ k tag pairs, g.resolved n = .mapping k tag pairs := by
  rw [isUntimely, Bool.and_eq_true] at h
  cases hn : g.resolved n with
  | mapping k tag pairs => exact ⟨k, tag, pairs, rfl⟩
  | _ => simp [hn] at h

theorem faulty_of_begin? {n : Node} {tag : String} {f : Fault} (hg : g.Bounded) (hn : g.Has n)
    (htag : tag = g.tagOf n ∨ tag = Data.keyTag (g.tagOf n))
    (h : g.begin? tag n = .error (.breakdown f)) : g.Faulty f := by
  rw [begin?] at h
  split at h
  · cases h
  · split at h
    · cases h
    · rcases Outcome.bind_eq_error_iff.1 h with htext | ⟨text, htext, h⟩
      · obtain rfl := eq_endless_of_textOf htext
        exact .text (circular_of_textOf hg (.start hn) (Nat.zero_add _) htext)
      · split at h
        · next huntimely =>
          obtain rfl := ReadError.breakdown.inj (Except.error.inj h)
          exact .untimely hn (exists_mapping_of_isUntimely huntimely)
        · rcases Outcome.bind_eq_error_iff.1 h with h | ⟨_, -, h⟩
          · exact .scalar hn htag htext (Data.ofScalar_breakdown_iff.1 h)
          · cases h

theorem faulty_of_meet {part : Part} {f : Fault} (hg : g.Bounded) (hpart : g.HasPart part)
    (h : g.meet part = .error (.breakdown f)) : g.Faulty f := by
  cases part with
  | key n =>
    rcases Outcome.bind_eq_error_iff.1 h with h | ⟨r, -, h⟩
    · exact faulty_of_begin? hg hpart (.inr rfl) h
    · cases r <;> cases h
  | other n =>
    rcases Outcome.bind_eq_error_iff.1 h with h | ⟨r, -, h⟩
    · exact faulty_of_begin? hg hpart (.inl rfl) h
    · cases r <;> cases h
  | wrong => cases h

theorem has_of_meet {part : Part} {n : Node} (hpart : g.HasPart part)
    (h : g.meet part = .ok (some n)) : g.Has n := by
  cases part with
  | key m =>
    obtain ⟨r, -, h⟩ := Outcome.bind_eq_ok_iff.1 h
    cases r <;> cases h
  | other m =>
    obtain ⟨r, -, h⟩ := Outcome.bind_eq_ok_iff.1 h
    cases r with
    | none =>
      obtain rfl := Option.some.inj (Except.ok.inj h)
      exact hpart
    | some d => cases h
  | wrong => cases h

theorem unknown_subset (known : List Nat) (ns : List Node) : (g.unknown known ns).1 ⊆ ns := by
  induction ns generalizing known with
  | nil => exact List.Subset.refl _
  | cons n ns ih =>
    rw [unknown]
    split
    · split
      · exact List.subset_cons_of_subset _ (ih _)
      · exact List.cons_subset_cons _ (ih _)
    · exact List.cons_subset_cons _ (ih _)

theorem faulty_of_fill {turns : Nat} {known : List Nat} {waiting : List Node} {f : Fault}
    (hg : g.Bounded) (hwaiting : ∀ n ∈ waiting, g.Has n) (h : g.fill turns known waiting = .error (.breakdown f)) :
    g.Faulty f := by
  induction turns generalizing known waiting with
  | zero => cases h
  | succ turns ih =>
    cases waiting with
    | nil => cases h
    | cons n waiting =>
      have hn := hwaiting n List.mem_cons_self
      rw [fill] at h
      rcases Outcome.bind_eq_error_iff.1 h with h | ⟨met, hmet, h⟩
      · obtain ⟨front, part, rest, hparts, -, hpart⟩ := Outcome.mapM_eq_error_iff.1 h
        exact faulty_of_meet hg (hn.parts (hparts ▸ by simp)) hpart
      · refine ih (fun m hm => ?_) h
        rcases List.mem_append.1 hm with hm | hm
        · exact hwaiting m (List.mem_cons_of_mem _ hm)
        · obtain ⟨_, hm, rfl⟩ := List.mem_filterMap.1 (unknown_subset _ _ hm)
          obtain ⟨part, hpart, hmeet⟩ := (Outcome.mem_of_mapM hmet).2 _ hm
          exact has_of_meet (hn.parts hpart) hmeet

theorem faulty_of_check {f : Fault} (hg : g.Bounded) (h : g.check = .error (.breakdown f)) : g.Faulty f := by
  have hroot : g.HasPart (.other g.root) := .root
  rcases Outcome.bind_eq_error_iff.1 h with h | ⟨met, hmet, h⟩
  · exact faulty_of_meet hg hroot h
  · refine faulty_of_fill hg (fun n hn => ?_) h
    obtain rfl := Option.mem_toList.1 hn
    exact has_of_meet hroot hmet

end Graph

/-- Why the data of a text cannot be made although the text follows the grammar. -/
inductive Data.Unmade (s : List Char) : Fault → Prop
  | text {f : Fault} (h : FarEscape s f) : Unmade s f
  | node {g : Graph} {f : Fault} (hg : Graph.ofText s = .ok (some g)) (h : g.Faulty f) : Unmade s f

theorem Data.unmade_of_ofText {s : List Char} {f : Fault}
    (h : Data.ofText s = .error (.breakdown f)) : Data.Unmade s f := by
  rcases Outcome.bind_eq_error_iff.1 h with h | ⟨g, hg, h⟩
  · rcases (Graph.ends_ofText s).1 _ h with hf | ⟨f', hf, hfar⟩
    · cases hf
    · obtain rfl := ReadError.breakdown.inj hf
      exact .text hfar
  · cases g with
    | none => cases h
    | some g =>
      have hbounded : g.Bounded := (Graph.ends_ofText s).2 _ hg g rfl
      rcases Outcome.bind_eq_error_iff.1 h with h | ⟨_, -, h⟩
      · exact .node hg (Graph.faulty_of_check hbounded h)
      · cases h

/-- Data of a text that is inside itself comes from a node that holds itself. -/
theorem Data.circular_of_ofText {s : List Char} {d : Data} (hd : Data.ofText s = .ok d)
    (h : d.Looped) : ∃ g, Graph.ofText s = .ok (some g) ∧ g.Circular g.Holds := by
  obtain ⟨g, hg, hd⟩ := Outcome.bind_eq_ok_iff.1 hd
  cases g with
  | none =>
    obtain rfl := Except.ok.inj hd
    cases h
  | some g =>
    have hbounded : g.Bounded := (Graph.ends_ofText s).2 _ hg g rfl
    obtain ⟨_, -, hd⟩ := Outcome.bind_eq_ok_iff.1 hd
    obtain rfl := Except.ok.inj hd
    exact ⟨g, hg, Graph.circular_of_value hbounded (.start .root) (Nat.zero_add _) h⟩

end QueryTypes.Yaml
