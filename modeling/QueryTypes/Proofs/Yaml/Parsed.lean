import QueryTypes.Proofs.Yaml.Scanned
import QueryTypes.Yaml.Node

/-!
# How parsing fails

Parsing fails against the grammar, or as scanning did where it ended. The numbers of sequences and
mappings stay below the bound of their document. Main statements: where the document of a text
breaks down, the text has an escape that is too far, and the numbers of a document are bounded.
-/

namespace QueryTypes.Yaml

open Outcome (Ends Keeps)

namespace Node

/-- The numbers of a node and of all nodes inside it are bounded. -/
inductive Within (size : Nat) : Node → Prop
  | scalar (tag : Option String) (plain : Bool) (text : String) : Within size (.scalar tag plain text)
  | reference (name : String) : Within size (.reference name)
  | sequence {number : Nat} {items : List Node} (tag : Option String) (hnumber : number ≤ size)
      (hitems : ∀ n ∈ items, Within size n) : Within size (.sequence number tag items)
  | mapping {number : Nat} {pairs : List (Node × Node)} (tag : Option String)
      (hnumber : number ≤ size) (hkeys : ∀ p ∈ pairs, Within size p.1)
      (hvalues : ∀ p ∈ pairs, Within size p.2) : Within size (.mapping number tag pairs)

/-- What parsing keeps: why scanning ended, no more tokens, and the bound of the nodes so far. -/
structure Kept (ended : Option ReadError) (size : Nat) (r : Reading) : Prop where
  failure : r.failure = ended
  tokens : r.tokens.length ≤ size
  anchors : ∀ a ∈ r.anchors, ∀ n, a.2 = some n → Within size n

variable {α : Type} {ended : Option ReadError} {size : Nat}

/-- Parsing fails against the grammar or for the reason for which scanning ended. -/
abbrev Parses (ended : Option ReadError) (size : Nat) (post : α → Prop) (x : Parse α) : Prop :=
  Keeps (Kept ended size) (fun e => e = .malformed ∨ ended = some e) post x

/-- The items of a sequence. -/
def ItemsWithin (size : Nat) (ns : List Node) : Prop := ∀ n ∈ ns, Within size n

/-- The pairs of a mapping. -/
def PairsWithin (size : Nat) (ps : List (Node × Node)) : Prop :=
  ∀ p ∈ ps, Within size p.1 ∧ Within size p.2

theorem ItemsWithin.cons {n : Node} {ns : List Node} (hn : Within size n) (h : ItemsWithin size ns) :
    ItemsWithin size (n :: ns) :=
  List.forall_mem_cons.2 ⟨hn, h⟩

theorem PairsWithin.cons {p : Node × Node} {ps : List (Node × Node)} (hk : Within size p.1)
    (hv : Within size p.2) (h : PairsWithin size ps) : PairsWithin size (p :: ps) :=
  List.forall_mem_cons.2 ⟨⟨hk, hv⟩, h⟩

theorem PairsWithin.mapping {number : Nat} {ps : List (Node × Node)} (h : PairsWithin size ps)
    (tag : Option String) (hnumber : number ≤ size) : Within size (.mapping number tag ps) :=
  .mapping tag hnumber (fun p hp => (h p hp).1) fun p hp => (h p hp).2

variable {post : α → Prop}

theorem parses_malformed : Parses ended size post malformed := .throw (.inl rfl)

theorem parses_unless {p : Prop} [Decidable p] {x : Parse α} (h : Parses ended size post x) :
    Parses ended size post (if p then do malformed; x else x) :=
  .before parses_malformed h

theorem parses_peek? : Parses ended size (fun _ => True) peek? := by
  intro r hr
  have hfailure := hr.failure
  rcases r with ⟨_ | ⟨t, ts⟩, failure, handles, anchors⟩
  · cases failure with
    | none => exact Ends.ok ⟨trivial, hr⟩
    | some e => exact Ends.error (.inr hfailure.symm)
  · exact Ends.ok ⟨trivial, hr⟩

theorem parses_advance : Parses ended size (fun _ => True) advance :=
  .modify fun _ h => ⟨h.failure, Nat.le_trans (by simp) h.tokens, h.anchors⟩

theorem parses_place : Parses ended size (· ≤ size) place := .bind .get fun _ h => .pure h.tokens

theorem parses_isNext (ts : List Token) : Parses ended size (fun _ => True) (isNext ts) :=
  .bind parses_peek? fun _ _ => .pure trivial

theorem parses_accept (t : Token) : Parses ended size (fun _ => True) (accept t) :=
  .bind (parses_isNext _) fun _ _ => .ite (.bind parses_advance fun _ _ => .pure trivial)
    (.pure trivial)

theorem parses_expect (t : Token) : Parses ended size (fun _ => True) (expect t) :=
  .bind (parses_accept _) fun _ _ => .ite parses_malformed (.pure trivial)

theorem parses_properties : Parses ended size (fun _ => True) properties := by
  refine .bind parses_peek? fun t _ => ?_
  split
  · refine .bind parses_advance fun _ _ => .bind parses_peek? fun t _ => ?_
    split
    · exact .bind parses_advance fun _ _ => .pure trivial
    · exact .pure trivial
  · refine .bind parses_advance fun _ _ => .bind parses_peek? fun t _ => ?_
    split
    · exact .bind parses_advance fun _ _ => .pure trivial
    · exact .pure trivial
  · exact .pure trivial

theorem parses_fullTag (t : Option (Option String × String)) :
    Parses ended size (fun _ => True) (fullTag t) := by
  rw [fullTag.eq_def]
  split
  · exact .pure trivial
  · exact .pure trivial
  · refine .bind .get fun _ _ => ?_
    split
    · exact .pure trivial
    · exact parses_malformed

theorem parses_setAnchor (a : String) {n : Option Node} (hn : ∀ m, n = some m → Within size m) :
    Parses ended size (fun _ => True) (setAnchor a n) :=
  .modify fun _ h => ⟨h.failure, h.tokens, List.forall_mem_cons.2 ⟨hn, h.anchors⟩⟩

/-- Whatever a part of a document is to be, it is parsed as it should with some fuel. -/
structure PartsParse (ended : Option ReadError) (size n : Nat) : Prop where
  node (inBlock unindented : Bool) : Parses ended size (Within size) (node inBlock unindented n)
  content (inBlock unindented optional : Bool) (tag : Option String) :
    Parses ended size (Within size) (content inBlock unindented optional tag n)
  nodeUnless (stops : List Token) (inBlock unindented : Bool) :
    Parses ended size (Within size) (nodeUnless stops inBlock unindented n)
  blockItems : Parses ended size (ItemsWithin size) (blockItems n)
  unindentedItems : Parses ended size (ItemsWithin size) (unindentedItems n)
  blockPairs : Parses ended size (PairsWithin size) (blockPairs n)
  flowItems (first : Bool) : Parses ended size (ItemsWithin size) (flowItems first n)
  flowPairs (first : Bool) : Parses ended size (PairsWithin size) (flowPairs first n)

namespace PartsParse

variable {n : Nat}

theorem node_succ (h : PartsParse ended size n) (inBlock unindented : Bool) :
    Parses ended size (Within size) (Node.node inBlock unindented (n + 1)) := by
  rw [Node.node]
  refine .bind parses_peek? fun t _ => ?_
  split
  · refine .bind parses_advance fun _ _ => .bind .get fun _ _ => ?_
    exact parses_unless (.pure (.reference _))
  · refine .bind parses_properties fun properties _ => .bind (parses_fullTag _) fun tag _ => ?_
    refine .bind parses_peek? fun _ _ => ?_
    obtain ⟨_ | a, -⟩ := properties
    · exact .bind (h.content _ _ _ _) fun _ hn => .pure hn
    · have hcontent : Parses ended size (Within size) (do
          setAnchor a none
          let result ← Node.content inBlock unindented true tag n
          setAnchor a (some result)
          return result) := by
        refine .bind (parses_setAnchor _ nofun) fun _ _ => .bind (h.content _ _ _ _) fun r hr => ?_
        refine .bind (parses_setAnchor _ fun m hm => ?_) fun _ _ => .pure hr
        exact Option.some.inj hm ▸ hr
      exact .bind .get fun _ _ => parses_unless hcontent

theorem content_succ (h : PartsParse ended size n) (inBlock unindented optional : Bool)
    (tag : Option String) :
    Parses ended size (Within size) (Node.content inBlock unindented optional tag (n + 1)) := by
  rw [Node.content]
  refine .bind parses_peek? fun t _ => ?_
  split
  · exact .bind parses_advance fun _ _ => .pure (.scalar _ _ _)
  · refine .bind parses_place fun _ hnumber => .bind parses_advance fun _ _ => ?_
    exact .bind (h.flowItems _) fun _ hitems => .pure (.sequence _ hnumber hitems)
  · refine .bind parses_place fun _ hnumber => .bind parses_advance fun _ _ => ?_
    exact .bind (h.flowPairs _) fun _ hpairs => .pure (hpairs.mapping _ hnumber)
  · refine .bind parses_place fun _ hnumber => .ite ?_ (.ite ?_ (.ite ?_ ?_))
    · exact .bind h.unindentedItems fun _ hitems => .pure (.sequence _ hnumber hitems)
    · refine .bind parses_advance fun _ _ => .bind h.blockItems fun _ hitems => ?_
      exact .pure (.sequence _ hnumber hitems)
    · refine .bind parses_advance fun _ _ => .bind h.blockPairs fun _ hpairs => ?_
      exact .pure (hpairs.mapping _ hnumber)
    · exact .ite (.pure (.scalar _ _ _)) parses_malformed

theorem nodeUnless_succ (h : PartsParse ended size n) (stops : List Token)
    (inBlock unindented : Bool) :
    Parses ended size (Within size) (Node.nodeUnless stops inBlock unindented (n + 1)) := by
  rw [Node.nodeUnless]
  exact .bind (parses_isNext _) fun _ _ => .ite (.pure (.scalar _ _ _)) (h.node _ _)

theorem blockItems_succ (h : PartsParse ended size n) :
    Parses ended size (ItemsWithin size) (Node.blockItems (n + 1)) := by
  rw [Node.blockItems]
  refine .bind (parses_accept _) fun _ _ => .ite ?_ (.bind (parses_expect _) fun _ _ => .pure nofun)
  refine .bind (h.nodeUnless _ _ _) fun _ hitem => .bind h.blockItems fun _ hrest => ?_
  exact .pure (.cons hitem hrest)

theorem unindentedItems_succ (h : PartsParse ended size n) :
    Parses ended size (ItemsWithin size) (Node.unindentedItems (n + 1)) := by
  rw [Node.unindentedItems]
  refine .bind (parses_accept _) fun _ _ => .ite ?_ (.pure nofun)
  refine .bind (h.nodeUnless _ _ _) fun _ hitem => .bind h.unindentedItems fun _ hrest => ?_
  exact .pure (.cons hitem hrest)

/-- A value behind a key, if it is there, and the rest. -/
theorem value_succ (h : PartsParse ended size n) (stops : List Token) (inBlock unindented : Bool)
    {f : Node → Parse α} {post : α → Prop}
    (hf : ∀ v, Within size v → Parses ended size post (f v)) : Parses ended size post (do
      let v ← if ← accept .value then Node.nodeUnless stops inBlock unindented n else pure .absent
      f v) := by
  refine .bind (parses_accept _) fun _ _ => .ite (.bind (h.nodeUnless _ _ _) hf) ?_
  exact .bind (.pure (.scalar _ _ _)) hf

theorem blockPairs_succ (h : PartsParse ended size n) :
    Parses ended size (PairsWithin size) (Node.blockPairs (n + 1)) := by
  rw [Node.blockPairs]
  refine .bind (parses_accept _) fun _ _ => .ite ?_ (.bind (parses_expect _) fun _ _ => .pure nofun)
  refine .bind (h.nodeUnless _ _ _) fun _ hk => h.value_succ _ _ _ fun _ hv => ?_
  exact .bind h.blockPairs fun _ hrest => .pure (.cons hk hv hrest)

/-- A comma, unless it is the first part, and the rest. -/
theorem comma_succ (first : Bool) {x : Parse α} {post : α → Prop} (hx : Parses ended size post x) :
    Parses ended size post (do
      if !first then
        expect .comma
      x) :=
  .before (parses_expect _) hx

theorem flowItems_succ (h : PartsParse ended size n) (first : Bool) :
    Parses ended size (ItemsWithin size) (Node.flowItems first (n + 1)) := by
  rw [Node.flowItems]
  refine .bind (parses_accept _) fun _ _ => .ite (.pure nofun) (comma_succ _ ?_)
  refine .bind parses_place fun _ hnumber => .bind (parses_accept _) fun _ _ => .ite ?_ ?_
  · refine .bind (h.nodeUnless _ _ _) fun k hk => h.value_succ _ _ _ fun v hv => ?_
    have hpair : PairsWithin size [(k, v)] := .cons hk hv nofun
    exact .bind (h.flowItems _) fun _ hrest => .pure (.cons (hpair.mapping none hnumber) hrest)
  · refine .bind (parses_accept _) fun _ _ => .ite (.pure nofun) (.bind (h.node _ _) fun _ hn => ?_)
    exact .bind (h.flowItems _) fun _ hrest => .pure (.cons hn hrest)

theorem flowPairs_succ (h : PartsParse ended size n) (first : Bool) :
    Parses ended size (PairsWithin size) (Node.flowPairs first (n + 1)) := by
  rw [Node.flowPairs]
  refine .bind (parses_accept _) fun _ _ => .ite (.pure nofun) (comma_succ _ ?_)
  refine .bind (parses_accept _) fun _ _ => .ite ?_ ?_
  · refine .bind (h.nodeUnless _ _ _) fun _ hk => h.value_succ _ _ _ fun _ hv => ?_
    exact .bind (h.flowPairs _) fun _ hrest => .pure (.cons hk hv hrest)
  · refine .bind (parses_accept _) fun _ _ => .ite (.pure nofun) (.bind (h.node _ _) fun _ hk => ?_)
    exact .bind (h.flowPairs _) fun _ hrest => .pure (.cons hk (.scalar _ _ _) hrest)

end PartsParse

theorem partsParse (ended : Option ReadError) (size n : Nat) : PartsParse ended size n := by
  induction n with
  | zero =>
    constructor <;> intros <;> exact parses_malformed
  | succ n ih =>
    exact ⟨ih.node_succ, ih.content_succ, ih.nodeUnless_succ, ih.blockItems_succ,
      ih.unindentedItems_succ, ih.blockPairs_succ, ih.flowItems_succ, ih.flowPairs_succ⟩

theorem parses_directives (n : Nat) (versioned : Bool) (own : List (String × String)) :
    Parses ended size (fun _ => True) (directives n versioned own) := by
  induction n generalizing versioned own with
  | zero => exact parses_malformed
  | succ n ih =>
    refine .bind parses_peek? fun t _ => ?_
    split
    · exact parses_unless (.bind parses_advance fun _ _ => ih _ _)
    · exact parses_unless (.bind parses_advance fun _ _ => ih _ _)
    · exact .bind parses_advance fun _ _ => ih _ _
    · exact .pure trivial

theorem parses_skipEnds (n : Nat) : Parses ended size (fun _ => True) (skipEnds n) := by
  induction n with
  | zero => exact .pure trivial
  | succ n ih => exact .bind (parses_accept _) fun _ _ => .ite ih (.pure trivial)

theorem parses_finish (fuel : Nat) : Parses ended size (fun _ => True) (finish fuel) := by
  refine .bind (parses_skipEnds _) fun _ _ => .bind parses_peek? fun _ _ => .ite ?_ (.pure trivial)
  exact .bind (parses_directives _ _ _) fun _ _ => .bind (parses_expect _) fun _ _ => parses_malformed

theorem parses_single (fuel : Nat) :
    Parses ended size (fun root => ∀ n, root = some n → Within size n) (single fuel) := by
  have hend (root : Node) (hroot : Within size root) :
      Parses ended size (fun root => ∀ n, root = some n → Within size n) (do
        finish fuel
        return some root) :=
    .bind (parses_finish _) fun _ _ => .pure fun _ hn => Option.some.inj hn ▸ hroot
  have hnode := (partsParse ended size fuel).node true false
  have habsent : Within size .absent := .scalar _ _ _
  refine .bind parses_peek? fun t _ => .ite (.pure nofun) (.ite ?_ ?_)
  · refine .bind (parses_skipEnds _) fun _ _ => .bind parses_peek? fun _ _ => .ite (.pure nofun) ?_
    refine .bind (parses_directives _ _ _) fun _ _ => ?_
    refine .bind (.modify fun _ h => ⟨h.failure, h.tokens, h.anchors⟩) fun _ _ => ?_
    refine .bind (parses_expect _) fun _ _ => .bind parses_peek? fun _ _ => ?_
    exact .ite (.bind (.pure habsent) hend) (.bind hnode hend)
  · exact .bind parses_peek? fun _ _ => .ite (.bind (.pure habsent) hend) (.bind hnode hend)

end Node

namespace Graph

open Node (Within)

/-- The numbers of all nodes of a document are bounded. -/
structure Bounded (g : Graph) : Prop where
  root : Within g.size g.root
  named : ∀ a n, (a, n) ∈ g.named → Within g.size n

/-- The document of a text breaks down on nothing but an escape that is too far, and its numbers are
bounded. -/
theorem ends_ofText (text : List Char) :
    Ends (Misread text) (fun g => ∀ g', g = some g' → g'.Bounded) (ofText text) := by
  have hsingle := Node.parses_single (4 * (Token.ofText text).1.length + 8)
    ⟨(Token.ofText text).1, (Token.ofText text).2, Node.usualHandles, []⟩
    ⟨rfl, Nat.le_refl _, nofun⟩
  refine ⟨fun e he => ?_, fun g hg g' hg' => ?_⟩
  · rcases Outcome.bind_eq_error_iff.1 he with he | ⟨_, -, he⟩
    · rcases hsingle.1 e he with rfl | hended
      · exact misread_malformed
      · exact Token.misread_of_ofText hended
    · cases he
  · obtain ⟨⟨root, r⟩, hrun, hg⟩ := Outcome.bind_eq_ok_iff.1 hg
    obtain ⟨hroot, hr⟩ := hsingle.2 _ hrun
    obtain rfl := Except.ok.inj hg
    obtain ⟨n, hn, rfl⟩ := Option.map_eq_some_iff.1 hg'
    refine ⟨hroot n hn, fun a m hm => ?_⟩
    obtain ⟨b, hb, hbm⟩ := List.mem_filterMap.1 hm
    obtain ⟨m', hm', heq⟩ := Option.map_eq_some_iff.1 hbm
    exact (Prod.mk.inj heq).2 ▸ hr.anchors b hb m' hm'

end Graph

end QueryTypes.Yaml
