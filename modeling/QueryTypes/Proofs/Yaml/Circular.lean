import Mathlib.Data.List.Nodup
import Mathlib.Data.List.Perm.Subperm
import Mathlib.Logic.Relation
import QueryTypes.Proofs.Table
import QueryTypes.Proofs.Yaml.Parsed
import QueryTypes.Yaml.Data

/-!
# Data inside itself

On the way to a node no number comes twice as long as no node is met again, and the numbers of a
document are bounded, so what is as deep as the bound allows meets a node again. Main statements:
data that does not end is made of a node that holds itself, and a text that does not end is that of
a mapping that stands for its own text.
-/

namespace QueryTypes.Yaml

open Relation (TransGen)

/-- Data that is inside itself somewhere. -/
inductive Data.Looped : Data → Prop
  | again : Looped .again
  | item {xs : List Data} {x : Data} (hx : x ∈ xs) (h : Looped x) : Looped (.list xs)
  | value {ps : List (Data × Data)} {p : Data × Data} (hp : p ∈ ps) (h : Looped p.2) :
      Looped (.map ps)

namespace Data

theorem looped_list_iff {xs : List Data} : Looped (.list xs) ↔ ∃ x ∈ xs, Looped x := by
  constructor
  · rintro ⟨⟩
    next x h hx => exact ⟨x, hx, h⟩
  · rintro ⟨x, hx, h⟩
    exact .item hx h

theorem looped_map_iff {ps : List (Data × Data)} : Looped (.map ps) ↔ ∃ p ∈ ps, Looped p.2 := by
  constructor
  · rintro ⟨⟩
    next p h hp => exact ⟨p, hp, h⟩
  · rintro ⟨p, hp, h⟩
    exact .value hp h

theorem snd_of_mem_setText {k : String} {v : Data} {ps : List (Data × Data)} {q : Data × Data}
    (hq : q ∈ setText k v ps) : q.2 = v ∨ ∃ p ∈ ps, p.2 = q.2 := by
  induction ps with
  | nil =>
    obtain rfl := List.mem_singleton.1 hq
    exact .inl rfl
  | cons p ps ih =>
    have hrest (h : q ∈ p :: setText k v ps) : q.2 = v ∨ ∃ p' ∈ p :: ps, p'.2 = q.2 := by
      rcases List.mem_cons.1 h with rfl | h
      · exact .inr ⟨q, List.mem_cons_self, rfl⟩
      · rcases ih h with h | ⟨p', hp', h⟩
        · exact .inl h
        · exact .inr ⟨p', List.mem_cons_of_mem _ hp', h⟩
    rw [setText.eq_def] at hq
    split at hq
    · next heq => cases heq
    · next heq =>
      obtain ⟨rfl, rfl⟩ := List.cons.inj heq
      split at hq
      · rcases List.mem_cons.1 hq with rfl | hq
        · exact .inl rfl
        · exact .inr ⟨q, List.mem_cons_of_mem _ hq, rfl⟩
      · exact hrest hq
    · next heq =>
      obtain ⟨rfl, rfl⟩ := List.cons.inj heq
      exact hrest hq

theorem snd_of_mem_foldl_setPair {ps acc : List (Data × Data)} {q : Data × Data}
    (hq : q ∈ ps.foldl setPair acc) : ∃ p ∈ acc ++ ps, p.2 = q.2 := by
  induction ps generalizing acc with
  | nil => exact ⟨q, by simpa using hq, rfl⟩
  | cons p ps ih =>
    obtain ⟨r, hr, hrq⟩ := ih hq
    rcases List.mem_append.1 hr with hr | hr
    · have hset : r.2 = p.2 ∨ ∃ p' ∈ acc, p'.2 = r.2 := by
        rw [setPair] at hr
        split at hr
        · exact snd_of_mem_setText hr
        · rcases List.mem_append.1 hr with hr | hr
          · exact .inr ⟨r, hr, rfl⟩
          · exact .inl (congrArg Prod.snd (List.mem_singleton.1 hr))
      rcases hset with h | ⟨p', hp', h⟩
      · exact ⟨p, by simp, h.symm.trans hrq⟩
      · exact ⟨p', List.mem_append_left _ hp', h.trans hrq⟩
    · exact ⟨r, List.mem_append_right _ (List.mem_cons_of_mem _ hr), hrq⟩

theorem exists_of_looped_ofPairs {ps : List (Data × Data)} (h : Looped (ofPairs ps)) :
    ∃ p ∈ ps, Looped p.2 := by
  obtain ⟨q, hq, h⟩ := looped_map_iff.1 h
  obtain ⟨p, hp, hpq⟩ := snd_of_mem_foldl_setPair hq
  exact ⟨p, hp, hpq ▸ h⟩

theorem not_looped_of_ofScalar {tag text : String} {d : Data} (hd : ofScalar tag text = .ok d) :
    ¬Looped d := by
  intro h
  rw [ofScalar] at hd
  split at hd
  · cases hd
    cases h
  · dsimp only at hd
    split at hd
    · cases hd
      cases h
    · split at hd
      · cases hd
        cases h
      · cases hd
  · obtain ⟨n, -, rfl⟩ := Outcome.map_eq_ok_iff.1 hd
    cases h
  · obtain ⟨x, -, rfl⟩ := Outcome.map_eq_ok_iff.1 hd
    cases h
  · cases hd
    cases h
  · cases hbytes : base64? text with
    | none => simp [hbytes] at hd
    | some b =>
      obtain rfl : .bytes b = d := by simpa [hbytes] using hd
      cases h
  · split at hd
    · cases hd
    · split at hd
      · cases hd
        cases h
      · cases hd
  · cases hd

end Data

namespace Graph

/-- The nodes of a document: the one it begins with, those that have a name, and those inside. -/
inductive Has (g : Graph) : Node → Prop
  | root : Has g g.root
  | named {a : String} {n : Node} (h : (a, n) ∈ g.named) : Has g n
  | item {number : Nat} {tag : Option String} {items : List Node} {n : Node}
      (h : Has g (.sequence number tag items)) (hn : n ∈ items) : Has g n
  | key {number : Nat} {tag : Option String} {pairs : List (Node × Node)} {p : Node × Node}
      (h : Has g (.mapping number tag pairs)) (hp : p ∈ pairs) : Has g p.1
  | value {number : Nat} {tag : Option String} {pairs : List (Node × Node)} {p : Node × Node}
      (h : Has g (.mapping number tag pairs)) (hp : p ∈ pairs) : Has g p.2

variable {g : Graph}

theorem Has.of_resolved {n m : Node} (h : g.Has n) (hm : g.resolved n = m) (hne : m ≠ .absent) :
    g.Has m := by
  cases n with
  | reference a =>
    rw [resolved] at hm
    cases hlookup : g.named.lookup a with
    | none => exact absurd (by simpa [hlookup] using hm.symm) hne
    | some n =>
      obtain rfl : n = m := by simpa [hlookup] using hm
      exact .named (Table.mem_of_lookup hlookup)
  | _ => exact hm ▸ h

theorem Has.items {n m : Node} {number : Nat} {tag : Option String} {items : List Node}
    (h : g.Has n) (hn : g.resolved n = .sequence number tag items) (hm : m ∈ items) : g.Has m :=
  .item (h.of_resolved hn Node.noConfusion) hm

/-- Both sides of a pair. -/
def HasPair (g : Graph) (p : Node × Node) : Prop := g.Has p.1 ∧ g.Has p.2

theorem Has.pairs {n : Node} {number : Nat} {tag : Option String} {pairs : List (Node × Node)}
    {p : Node × Node} (h : g.Has n) (hn : g.resolved n = .mapping number tag pairs)
    (hp : p ∈ pairs) : g.HasPair p :=
  have hmapping := h.of_resolved hn Node.noConfusion
  ⟨.key hmapping hp, .value hmapping hp⟩

theorem hasPair_of_flattened {depth : Nat} {open_ : List Nat} {pairs ps : List (Node × Node)}
    (h : ∀ p ∈ pairs, g.HasPair p) (hps : g.flattened depth open_ pairs = some ps) :
    ∀ p ∈ ps, g.HasPair p := by
  induction depth generalizing open_ pairs ps with
  | zero =>
    obtain rfl := Option.some.inj hps
    simp
  | succ depth ih =>
    rw [flattened, List.partition_eq_filter_filter] at hps
    dsimp only at hps
    obtain ⟨merged, hmerged, hps⟩ := Option.bind_eq_some_iff.1 hps
    obtain rfl := Option.some.inj hps
    -- what a mapping gives that is merged
    have hmapping {n : Node} (hn : g.Has n) {number : Nat} {tag : Option String}
        {inner qs : List (Node × Node)} (hresolved : g.resolved n = .mapping number tag inner)
        (hqs : (if open_.contains number then some []
          else g.flattened depth (number :: open_) inner) = some qs) : ∀ q ∈ qs, g.HasPair q := by
      split at hqs
      · obtain rfl := Option.some.inj hqs
        simp
      · exact ih (fun p hp => hn.pairs hresolved hp) hqs
    intro p hp
    rcases List.mem_append.1 hp with hp | hp
    · obtain ⟨qs, hqs, hp⟩ := List.mem_flatten.1 hp
      obtain ⟨q, hq, hqs⟩ := Outcome.exists_of_mapM_eq_some hmerged qs hqs
      have hvalue := (h q (List.mem_filter.1 hq).1).2
      split at hqs
      · next hresolved =>
        obtain ⟨ms, hms, rfl⟩ := Option.map_eq_some_iff.1 hqs
        obtain ⟨m, hm, hp⟩ := List.mem_flatten.1 hp
        obtain ⟨n, hn, hnm⟩ := Outcome.exists_of_mapM_eq_some hms m (List.mem_reverse.1 hm)
        split at hnm
        · next hinner => exact hmapping (hvalue.items hresolved hn) hinner hnm p hp
        · cases hnm
      · split at hqs
        · next hinner => exact hmapping hvalue hinner hqs p hp
        · cases hqs
    · exact h p (List.mem_filter.1 hp).1

theorem Has.itemsOf {n m : Node} {items : List Node} (h : g.Has n)
    (hitems : g.itemsOf n = some items) (hm : m ∈ items) : g.Has m := by
  rw [Graph.itemsOf] at hitems
  split at hitems
  · next hresolved =>
    obtain rfl := Option.some.inj hitems
    exact h.items hresolved hm
  · cases hitems

theorem Has.pairsOf {n : Node} {pairs : List (Node × Node)} {p : Node × Node} (h : g.Has n)
    (hpairs : g.pairsOf n = some pairs) (hp : p ∈ pairs) : g.HasPair p := by
  rw [Graph.pairsOf] at hpairs
  split at hpairs
  · next hresolved => exact hasPair_of_flattened (fun _ hq => h.pairs hresolved hq) hpairs p hp
  · cases hpairs

/-! ### Numbers -/

theorem Has.within {n : Node} (hg : g.Bounded) (h : g.Has n) : n.Within g.size := by
  induction h with
  | root => exact hg.root
  | named h => exact hg.named _ _ h
  | item _ hn ih =>
    cases ih with
    | sequence _ _ hitems => exact hitems _ hn
  | key _ hp ih =>
    cases ih with
    | mapping _ _ hkeys _ => exact hkeys _ hp
  | value _ hp ih =>
    cases ih with
    | mapping _ _ _ hvalues => exact hvalues _ hp

theorem Has.number?_le {n : Node} {k : Nat} (hg : g.Bounded) (h : g.Has n)
    (hk : g.number? n = some k) : k ≤ g.size := by
  rw [number?] at hk
  split at hk
  · next hresolved =>
    obtain rfl := Option.some.inj hk
    cases (h.of_resolved hresolved Node.noConfusion).within hg with
    | sequence _ hnumber _ => exact hnumber
  · next hresolved =>
    obtain rfl := Option.some.inj hk
    cases (h.of_resolved hresolved Node.noConfusion).within hg with
    | mapping _ hnumber _ _ => exact hnumber
  · cases hk

theorem number?_of_itemsOf {n : Node} {items : List Node} (h : g.itemsOf n = some items) :
    ∃ k, g.number? n = some k := by
  rw [itemsOf] at h
  split at h
  · next hresolved => exact ⟨_, by rw [number?, hresolved]⟩
  · cases h

theorem number?_of_pairsOf {n : Node} {pairs : List (Node × Node)} (h : g.pairsOf n = some pairs) :
    ∃ k, g.number? n = some k := by
  rw [pairsOf] at h
  split at h
  · next hresolved => exact ⟨_, by rw [number?, hresolved]⟩
  · cases h

/-- What comes to itself along a relation, be it under another name. -/
def Circular (g : Graph) (R : Node → Node → Prop) : Prop :=
  ∃ n m k, g.Has n ∧ TransGen R n m ∧ g.number? n = some k ∧ g.number? m = some k

/-- The numbers on a way to a node, each once. -/
structure OnWay (g : Graph) (R : Node → Node → Prop) (way : List Nat) (n : Node) : Prop where
  has : g.Has n
  nodup : way.Nodup
  before : ∀ k ∈ way, ∃ m, g.Has m ∧ g.number? m = some k ∧ TransGen R m n

namespace OnWay

variable {R : Node → Node → Prop} {way : List Nat} {n m : Node} {k : Nat}

theorem start (h : g.Has n) : g.OnWay R [] n := ⟨h, .nil, nofun⟩

theorem length_le (hg : g.Bounded) (h : g.OnWay R way n) : way.length ≤ g.size + 1 := by
  have hsubset : way ⊆ List.range (g.size + 1) := by
    intro k hk
    obtain ⟨m, hm, hmk, -⟩ := h.before k hk
    exact List.mem_range.2 (Nat.lt_succ_of_le (hm.number?_le hg hmk))
  calc way.length ≤ (List.range (g.size + 1)).length :=
        (List.subperm_of_subset h.nodup hsubset).length_le
    _ = g.size + 1 := List.length_range

theorem circular (h : g.OnWay R way n) (hk : g.number? n = some k) (hmem : k ∈ way) :
    g.Circular R := by
  obtain ⟨m, hm, hmk, hmn⟩ := h.before k hmem
  exact ⟨m, n, k, hm, hmn, hmk, hk⟩

theorem step (h : g.OnWay R way n) (hk : g.number? n = some k) (hnew : k ∉ way) (hm : g.Has m)
    (hstep : R n m) : g.OnWay R (k :: way) m := by
  refine ⟨hm, List.nodup_cons.2 ⟨hnew, h.nodup⟩, fun j hj => ?_⟩
  rcases List.mem_cons.1 hj with rfl | hj
  · exact ⟨n, h.has, hk, .single hstep⟩
  · obtain ⟨l, hl, hlj, hln⟩ := h.before j hj
    exact ⟨l, hl, hlj, hln.tail hstep⟩

end OnWay

/-! ### Texts -/

/-- A mapping and what is behind its equals sign. -/
def Says (g : Graph) (n m : Node) : Prop :=
  ∃ number tag pairs p, g.resolved n = .mapping number tag pairs ∧
    pairs.find? (fun p => g.tagOf p.1 == Data.standard "value") = some p ∧ p.2 = m

theorem circular_of_textOf (hg : g.Bounded) {depth : Nat} {way : List Nat} {n : Node} {f : Fault}
    (hway : g.OnWay g.Says way n) (hdepth : way.length + depth = g.size + 2)
    (h : g.textOf depth n = .error (.breakdown f)) : g.Circular g.Says := by
  induction depth generalizing way n with
  | zero =>
    have hlength := hway.length_le hg
    omega
  | succ depth ih =>
    rw [textOf] at h
    split at h
    · cases h
    · next number tag pairs hresolved =>
      have hk : g.number? n = some number := by rw [number?, hresolved]
      split at h
      · next p hp =>
        by_cases hmem : number ∈ way
        · exact hway.circular hk hmem
        · have hvalue := (hway.has.pairs hresolved (List.mem_of_find?_eq_some hp)).2
          refine ih (hway.step hk hmem hvalue ⟨_, _, _, _, hresolved, hp, rfl⟩) ?_ h
          rw [List.length_cons]
          omega
      · cases h
    · cases h

/-! ### Data -/

/-- A sequence and its items, or a mapping and its values. -/
inductive Holds (g : Graph) (n : Node) : Node → Prop
  | item {items : List Node} {m : Node} (htag : Container.ofTag? (g.tagOf n) = some .list)
      (hitems : g.itemsOf n = some items) (hm : m ∈ items) : Holds g n m
  | value {pairs : List (Node × Node)} {p : Node × Node}
      (htag : Container.ofTag? (g.tagOf n) = some .map)
      (hpairs : g.pairsOf n = some pairs) (hp : p ∈ pairs) : Holds g n p.2

/-- What is made at once does not hold anything. -/
theorem not_looped_of_begin? {tag : String} {n : Node} :
    ¬(((g.begin? tag n).toOption.join).getD .null).Looped := by
  intro h
  cases hbegin : g.begin? tag n with
  | error e =>
    rw [hbegin] at h
    cases h
  | ok made =>
    rw [hbegin] at h
    rw [begin?] at hbegin
    split at hbegin
    · obtain rfl := Except.ok.inj hbegin
      cases h
    · split at hbegin
      · cases hbegin
      · obtain ⟨text, -, hbegin⟩ := Outcome.bind_eq_ok_iff.1 hbegin
        split at hbegin
        · cases hbegin
        · obtain ⟨d, hd, hbegin⟩ := Outcome.bind_eq_ok_iff.1 hbegin
          obtain rfl := Except.ok.inj hbegin
          exact Data.not_looped_of_ofScalar hd h

theorem circular_of_value (hg : g.Bounded) {depth : Nat} {way : List Nat} {n : Node}
    (hway : g.OnWay g.Holds way n) (hdepth : way.length + depth = g.size + 2)
    (h : (g.value depth way n).Looped) : g.Circular g.Holds := by
  induction depth generalizing way n with
  | zero =>
    have hlength := hway.length_le hg
    omega
  | succ depth ih =>
    -- what is held by a node that is not on the way to it
    have hheld {k : Nat} {m : Node} (hk : g.number? n = some k) (hmem : k ∉ way) (hm : g.Has m)
        (hholds : g.Holds n m) (h : (g.value depth (k :: way) m).Looped) : g.Circular g.Holds := by
      refine ih (hway.step hk hmem hm hholds) ?_ h
      rw [List.length_cons]
      omega
    rw [value] at h
    dsimp only at h
    split at h
    · next hany =>
      obtain ⟨k, hk, hmem⟩ := (Option.any_eq_true _ _).1 hany
      exact hway.circular hk (List.contains_iff_mem.1 hmem)
    · next hany =>
      have hnew {k : Nat} (hk : g.number? n = some k) : k ∉ way := by simpa [hk] using hany
      split at h
      · next htag =>
        obtain ⟨x, hx, h⟩ := Data.looped_list_iff.1 h
        obtain ⟨m, hm, rfl⟩ := List.mem_map.1 hx
        cases hitems : g.itemsOf n with
        | none => simp [hitems] at hm
        | some items =>
          obtain ⟨k, hk⟩ := number?_of_itemsOf hitems
          rw [hitems, Option.getD_some] at hm
          rw [hk] at h
          exact hheld hk (hnew hk) (hway.has.itemsOf hitems hm) (.item htag hitems hm) h
      · obtain ⟨x, hx, h⟩ := Data.looped_list_iff.1 h
        obtain ⟨_, -, rfl⟩ := List.mem_map.1 hx
        cases h
      · next htag =>
        obtain ⟨_, hq, h⟩ := Data.exists_of_looped_ofPairs h
        obtain ⟨p, hp, rfl⟩ := List.mem_map.1 hq
        cases hpairs : g.pairsOf n with
        | none => simp [hpairs] at hp
        | some pairs =>
          obtain ⟨k, hk⟩ := number?_of_pairsOf hpairs
          rw [hpairs, Option.getD_some] at hp
          rw [hk] at h
          exact hheld hk (hnew hk) (hway.has.pairsOf hpairs hp).2 (.value htag hpairs hp) h
      · cases h
      · exact absurd h not_looped_of_begin?

end Graph

end QueryTypes.Yaml
