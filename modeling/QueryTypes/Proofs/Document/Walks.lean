import QueryTypes.Proofs.Execution.Collect
import QueryTypes.Proofs.Text.Sorted

/-!
# Walks and searches

Two ways to go through selections depth first. A walk enters a fragment wherever it is spread,
except inside itself; a search enters each fragment once. Both meet the fields that some way leads
to, and they meet the keys in the same order: when a walk enters a fragment that is done, all that
it meets there was met before.
-/

namespace QueryTypes

/-- A way through inline fragments and fragments to a field, on which every selection passes. -/
inductive Way (table : Table Fragment) (pass : Selection → Bool) :
    List Selection → FieldNode → Prop
  | field {ss below : List Selection} {h : FieldHead} {b : Option Origin} :
      .field h b below ∈ ss → pass (.field h b below) = true → Way table pass ss ⟨h, below⟩
  | inline {ss below : List Selection} {c : Option Name} {ds : List Directive}
      {o : Option Origin} {node : FieldNode} :
      .inline c ds below o ∈ ss → pass (.inline c ds below o) = true →
        Way table pass below node → Way table pass ss node
  | spread {ss : List Selection} {n : Name} {ds : List Directive} {o : Option Origin}
      {f : Fragment} {node : FieldNode} :
      .spread n ds o ∈ ss → pass (.spread n ds o) = true → table.get? n.text = some f →
        Way table pass f.selections node → Way table pass ss node

/-- The fields in reading order, for fragments that are entered again and again. -/
inductive Walks (table : Table Fragment) : List String → List Selection → List FieldNode → Prop
  | nil {visiting : List String} : Walks table visiting [] []
  | field {visiting : List String} {h : FieldHead} {b : Option Origin}
      {below rest : List Selection} {nodes : List FieldNode} :
      Walks table visiting rest nodes →
        Walks table visiting (.field h b below :: rest) (⟨h, below⟩ :: nodes)
  | inline {visiting : List String} {c : Option Name} {ds : List Directive}
      {below rest : List Selection} {o : Option Origin} {inner nodes : List FieldNode} :
      Walks table visiting below inner → Walks table visiting rest nodes →
        Walks table visiting (.inline c ds below o :: rest) (inner ++ nodes)
  | again {visiting : List String} {n : Name} {ds : List Directive} {o : Option Origin}
      {rest : List Selection} {nodes : List FieldNode} :
      n.text ∈ visiting → Walks table visiting rest nodes →
        Walks table visiting (.spread n ds o :: rest) nodes
  | spread {visiting : List String} {n : Name} {ds : List Directive} {o : Option Origin}
      {f : Fragment} {rest : List Selection} {inner nodes : List FieldNode} :
      n.text ∉ visiting → table.get? n.text = some f →
        Walks table (n.text :: visiting) f.selections inner → Walks table visiting rest nodes →
        Walks table visiting (.spread n ds o :: rest) (inner ++ nodes)

/-- The fields in reading order, for fragments that are entered once. -/
inductive Searches (table : Table Fragment) :
    List String → List Selection → List FieldNode → List String → Prop
  | nil {seen : List String} : Searches table seen [] [] seen
  | field {seen seen' : List String} {h : FieldHead} {b : Option Origin}
      {below rest : List Selection} {nodes : List FieldNode} :
      Searches table seen rest nodes seen' →
        Searches table seen (.field h b below :: rest) (⟨h, below⟩ :: nodes) seen'
  | inline {seen seen' seen'' : List String} {c : Option Name} {ds : List Directive}
      {below rest : List Selection} {o : Option Origin} {inner nodes : List FieldNode} :
      Searches table seen below inner seen' → Searches table seen' rest nodes seen'' →
        Searches table seen (.inline c ds below o :: rest) (inner ++ nodes) seen''
  | again {seen seen' : List String} {n : Name} {ds : List Directive} {o : Option Origin}
      {rest : List Selection} {nodes : List FieldNode} :
      n.text ∈ seen → Searches table seen rest nodes seen' →
        Searches table seen (.spread n ds o :: rest) nodes seen'
  | spread {seen seen' seen'' : List String} {n : Name} {ds : List Directive}
      {o : Option Origin} {f : Fragment} {rest : List Selection} {inner nodes : List FieldNode} :
      n.text ∉ seen → table.get? n.text = some f →
        Searches table (n.text :: seen) f.selections inner seen' →
        Searches table seen' rest nodes seen'' →
        Searches table seen (.spread n ds o :: rest) (inner ++ nodes) seen''

/-! ### The first field of each key -/

namespace FieldNode

def Known (nodes : List FieldNode) (k : String) : Prop := ∃ node ∈ nodes, node.key = k

/-- Puts a field behind others unless its key is known. -/
def note (nodes : List FieldNode) (node : FieldNode) : List FieldNode :=
  if nodes.any (·.key == node.key) then nodes else nodes ++ [node]

variable {nodes found : List FieldNode} {node : FieldNode} {k : String}

theorem note_of_known (h : Known nodes node.key) : note nodes node = nodes := by
  rw [note, if_pos (by simpa [Known] using h)]

theorem note_of_new (h : ¬ Known nodes node.key) : note nodes node = nodes ++ [node] := by
  rw [note, if_neg (by simpa [Known] using h)]

theorem known_note (h : Known nodes k ∨ node.key = k) : Known (note nodes node) k := by
  by_cases hnode : Known nodes node.key
  · rw [note_of_known hnode]
    exact h.elim id fun hk => hk ▸ hnode
  · rw [note_of_new hnode]
    rcases h with ⟨m, hm, hk⟩ | hk
    · exact ⟨m, List.mem_append_left _ hm, hk⟩
    · exact ⟨node, by simp, hk⟩

theorem known_foldl (h : Known nodes k ∨ Known found k) : Known (found.foldl note nodes) k := by
  induction found generalizing nodes with
  | nil => exact h.resolve_right (by simp [Known])
  | cons node found ih =>
    refine ih ?_
    rcases h with h | ⟨m, hm, hk⟩
    · exact .inl (known_note (.inl h))
    · rcases List.mem_cons.1 hm with rfl | hm
      · exact .inl (known_note (.inr hk))
      · exact .inr ⟨m, hm, hk⟩

theorem foldl_note_of_known (h : ∀ node ∈ found, Known nodes node.key) :
    found.foldl note nodes = nodes := by
  induction found with
  | nil => rfl
  | cons node found ih =>
    rw [List.foldl_cons, note_of_known (h node List.mem_cons_self)]
    exact ih fun m hm => h m (List.mem_cons_of_mem _ hm)

theorem find?_foldl_note (k : String) (nodes found : List FieldNode) :
    (found.foldl note nodes).find? (·.key == k) =
      (nodes.find? (·.key == k)).or (found.find? (·.key == k)) := by
  induction found generalizing nodes with
  | nil => simp
  | cons node found ih =>
    rw [List.foldl_cons, ih, List.find?_cons]
    by_cases hnode : Known nodes node.key
    · rw [note_of_known hnode]
      cases hk : node.key == k with
      | false => rfl
      | true =>
        obtain ⟨m, hm, hkey⟩ := hnode
        have hsome : (nodes.find? (·.key == k)).isSome = true :=
          List.find?_isSome.2 ⟨m, hm, by rw [hkey]; exact hk⟩
        rw [Option.or_of_isSome hsome, Option.or_of_isSome hsome]
    · rw [note_of_new hnode, List.find?_append, List.find?_singleton, Option.or_assoc]
      cases node.key == k with
      | false => simp
      | true => simp

theorem map_key_foldl_note (nodes found : List FieldNode) :
    (found.foldl note nodes).map key =
      nodes.map key ++ ((found.map key).filter (· ∉ nodes.map key)).eraseDups := by
  induction found generalizing nodes with
  | nil => simp
  | cons node found ih =>
    have hknown : Known nodes node.key ↔ node.key ∈ nodes.map key := by simp [Known]
    rw [List.foldl_cons, ih, List.map_cons]
    by_cases hnode : Known nodes node.key
    · rw [note_of_known hnode, List.filter_cons_of_neg (by simpa using hknown.1 hnode)]
    · rw [note_of_new hnode, List.filter_cons_of_pos (by simpa using mt hknown.2 hnode),
        List.eraseDups_cons, List.filter_filter, List.map_append, List.append_assoc]
      simp [beq_eq_decide, Bool.and_comm]

/-- Fields that come to the same when they are noted have their keys in the same order. -/
theorem keys_eq_of_foldl (h : nodes.foldl note [] = found.foldl note []) :
    (nodes.map key).eraseDups = (found.map key).eraseDups ∧
      ∀ k, nodes.find? (·.key == k) = found.find? (·.key == k) := by
  constructor
  · have hkeys := congrArg (List.map key) h
    simpa [map_key_foldl_note] using hkeys
  · intro k
    have hfind := congrArg (List.find? (·.key == k)) h
    simpa [find?_foldl_note] using hfind

end FieldNode

/-! ### A walk against a search -/

mutual
/-- The fields of a selection are among the given ones and its fragments were seen. -/
def Covers (nodes : List FieldNode) (seen : List String) : Selection → Prop
  | .field h _ below => ⟨h, below⟩ ∈ nodes
  | .spread n _ _ => n.text ∈ seen
  | .inline _ _ below _ => CoversAll nodes seen below

def CoversAll (nodes : List FieldNode) (seen : List String) : List Selection → Prop
  | [] => True
  | sel :: rest => Covers nodes seen sel ∧ CoversAll nodes seen rest
end

/-- Fragments that were seen are covered, apart from those that are being visited. -/
structure Complete (table : Table Fragment) (visiting seen : List String)
    (nodes : List FieldNode) : Prop where
  entered : ∀ n ∈ visiting, n ∈ seen
  covered : ∀ n ∈ seen, n ∉ visiting →
    ∀ f, table.get? n = some f → CoversAll nodes seen f.selections

variable {table : Table Fragment} {visiting seen seen' : List String} {ss : List Selection}
  {nodes nodes' walked : List FieldNode} {node : FieldNode}

mutual
theorem Covers.mono (hnodes : ∀ n ∈ nodes, n ∈ nodes') (hseen : ∀ n ∈ seen, n ∈ seen') :
    (sel : Selection) → Covers nodes seen sel → Covers nodes' seen' sel
  | .field .., h => hnodes _ h
  | .spread .., h => hseen _ h
  | .inline _ _ ss _, h => CoversAll.mono hnodes hseen ss h

theorem CoversAll.mono (hnodes : ∀ n ∈ nodes, n ∈ nodes') (hseen : ∀ n ∈ seen, n ∈ seen') :
    (ss : List Selection) → CoversAll nodes seen ss → CoversAll nodes' seen' ss
  | [], _ => trivial
  | sel :: rest, h => ⟨Covers.mono hnodes hseen sel h.1, CoversAll.mono hnodes hseen rest h.2⟩
end

theorem CoversAll.of_mem {sel : Selection} (h : CoversAll nodes seen ss) (hsel : sel ∈ ss) :
    Covers nodes seen sel := by
  induction ss with
  | nil => simp at hsel
  | cons sel' rest ih =>
    rcases List.mem_cons.1 hsel with rfl | hsel
    · exact h.1
    · exact ih h.2 hsel

theorem Complete.mono (h : Complete table visiting seen nodes) (hnodes : ∀ n ∈ nodes, n ∈ nodes') :
    Complete table visiting seen nodes' where
  entered := h.entered
  covered n hn hnew f hf := (h.covered n hn hnew f hf).mono hnodes (fun _ hm => hm) f.selections

theorem Complete.enter (h : Complete table visiting seen nodes) (n : String) :
    Complete table (n :: visiting) (n :: seen) nodes where
  entered m hm := by
    rcases List.mem_cons.1 hm with rfl | hm
    · exact List.mem_cons_self
    · exact List.mem_cons_of_mem _ (h.entered m hm)
  covered m hm hnew f hf := by
    obtain ⟨hne, hnew⟩ := not_or.1 (List.mem_cons.not.1 hnew)
    have hm' := (List.mem_cons.1 hm).resolve_left hne
    exact (h.covered m hm' hnew f hf).mono (fun _ hx => hx) (fun _ => List.mem_cons_of_mem _) _

theorem Complete.leave {n : String} {f : Fragment}
    (h : Complete table (n :: visiting) seen nodes) (hf : table.get? n = some f)
    (hcovers : CoversAll nodes seen f.selections) : Complete table visiting seen nodes where
  entered m hm := h.entered m (List.mem_cons_of_mem _ hm)
  covered m hm hnew f' hf' := by
    by_cases hne : m = n
    · subst hne
      obtain rfl := Option.some.inj (hf.symm.trans hf')
      exact hcovers
    · exact h.covered m hm (by simp [hne, hnew]) f' hf'

/-- A walk meets nothing new in what is covered. -/
theorem Walks.mem_of_covered (h : Walks table visiting ss walked)
    (hcovered : ∀ n ∈ seen, n ∉ visiting →
      ∀ f, table.get? n = some f → CoversAll nodes seen f.selections)
    (hss : CoversAll nodes seen ss) : ∀ node ∈ walked, node ∈ nodes := by
  induction h with
  | nil => simp
  | field _ ih =>
    intro node hnode
    rcases List.mem_cons.1 hnode with rfl | hnode
    · exact hss.1
    · exact ih hcovered hss.2 node hnode
  | inline _ _ ih ih' =>
    intro node hnode
    rcases List.mem_append.1 hnode with hnode | hnode
    · exact ih hcovered hss.1 node hnode
    · exact ih' hcovered hss.2 node hnode
  | again _ _ ih => exact ih hcovered hss.2
  | spread hnew hf _ _ ih ih' =>
    intro node hnode
    rcases List.mem_append.1 hnode with hnode | hnode
    · refine ih (fun m hm hm' => hcovered m hm fun h => hm' (List.mem_cons_of_mem _ h)) ?_ node hnode
      exact hcovered _ hss.1 hnew _ hf
    · exact ih' hcovered hss.2 node hnode

/-- What a search makes of selections that a walk goes through, after the given fields. -/
structure Searched (table : Table Fragment) (visiting seen : List String) (nodes : List FieldNode)
    (ss : List Selection) (walked found : List FieldNode) (seen' : List String) : Prop where
  searches : Searches table seen ss found seen'
  grows : ∀ n ∈ seen, n ∈ seen'
  complete : Complete table visiting seen' (nodes ++ found)
  covers : CoversAll (nodes ++ found) seen' ss
  within : ∀ node ∈ found, node ∈ walked
  first : ∀ known, (∀ node ∈ nodes, FieldNode.Known known node.key) →
    walked.foldl FieldNode.note known = found.foldl FieldNode.note known

theorem known_of_append {known found : List FieldNode}
    (h : ∀ node ∈ nodes, FieldNode.Known known node.key) :
    ∀ node ∈ nodes ++ found, FieldNode.Known (found.foldl FieldNode.note known) node.key := by
  intro node hnode
  rcases List.mem_append.1 hnode with hnode | hnode
  · exact FieldNode.known_foldl (.inl (h node hnode))
  · exact FieldNode.known_foldl (.inr ⟨node, hnode, rfl⟩)

theorem Searches.append {sel : Selection} {rest : List Selection} {seen'' : List String}
    (h : Searches table seen [sel] nodes seen') (h' : Searches table seen' rest nodes' seen'') :
    Searches table seen (sel :: rest) (nodes ++ nodes') seen'' := by
  cases h with
  | field hnil =>
    cases hnil
    exact .field h'
  | inline hbelow hnil =>
    cases hnil
    rw [List.append_nil]
    exact .inline hbelow h'
  | again hn hnil =>
    cases hnil
    exact .again hn h'
  | spread hn hf hbelow hnil =>
    cases hnil
    rw [List.append_nil]
    exact .spread hn hf hbelow h'

theorem Searched.cons {sel : Selection} {rest : List Selection} {seen'' : List String}
    {found walked' found' : List FieldNode}
    (h : Searched table visiting seen nodes [sel] walked found seen')
    (h' : Searched table visiting seen' (nodes ++ found) rest walked' found' seen'') :
    Searched table visiting seen nodes (sel :: rest) (walked ++ walked') (found ++ found')
      seen'' where
  searches := h.searches.append h'.searches
  grows n hn := h'.grows n (h.grows n hn)
  complete := by
    rw [← List.append_assoc]
    exact h'.complete
  covers := by
    rw [← List.append_assoc]
    exact ⟨Covers.mono (fun _ => List.mem_append_left _) h'.grows sel h.covers.1, h'.covers⟩
  within node hnode := by
    rcases List.mem_append.1 hnode with hnode | hnode
    · exact List.mem_append_left _ (h.within node hnode)
    · exact List.mem_append_right _ (h'.within node hnode)
  first known hknown := by
    rw [List.foldl_append, List.foldl_append, h.first known hknown]
    exact h'.first _ (known_of_append hknown)

theorem Complete.searched_nil (h : Complete table visiting seen nodes) :
    Searched table visiting seen nodes [] [] [] seen where
  searches := .nil
  grows _ hn := hn
  complete := by
    rw [List.append_nil]
    exact h
  covers := trivial
  within _ hnode := hnode
  first _ _ := rfl

theorem Complete.searched_field (h : Complete table visiting seen nodes) (f : FieldHead)
    (b : Option Origin) (below : List Selection) :
    Searched table visiting seen nodes [.field f b below] [⟨f, below⟩] [⟨f, below⟩] seen where
  searches := .field .nil
  grows _ hn := hn
  complete := h.mono fun _ => List.mem_append_left _
  covers := ⟨List.mem_append_right _ List.mem_cons_self, trivial⟩
  within _ hnode := hnode
  first _ _ := rfl

theorem Searched.inline {c : Option Name} {ds : List Directive} {o : Option Origin}
    {found : List FieldNode} (h : Searched table visiting seen nodes ss walked found seen') :
    Searched table visiting seen nodes [.inline c ds ss o] walked found seen' where
  searches := by
    rw [← List.append_nil found]
    exact .inline h.searches .nil
  grows := h.grows
  complete := h.complete
  covers := ⟨h.covers, trivial⟩
  within := h.within
  first := h.first

/-- A fragment that is being visited, or all of which is covered. -/
theorem Complete.searched_seen {n : Name} {ds : List Directive} {o : Option Origin}
    (h : Complete table visiting seen nodes) (hn : n.text ∈ seen)
    (hwalked : ∀ node ∈ walked, node ∈ nodes) :
    Searched table visiting seen nodes [.spread n ds o] walked [] seen where
  searches := .again hn .nil
  grows _ hn := hn
  complete := by
    rw [List.append_nil]
    exact h
  covers := ⟨hn, trivial⟩
  within := by simp
  first known hknown := FieldNode.foldl_note_of_known fun node hnode => hknown node (hwalked node hnode)

theorem Searched.spread {n : Name} {ds : List Directive} {o : Option Origin} {f : Fragment}
    {found : List FieldNode} (hn : n.text ∉ seen) (hf : table.get? n.text = some f)
    (h : Searched table (n.text :: visiting) (n.text :: seen) nodes f.selections walked found seen') :
    Searched table visiting seen nodes [.spread n ds o] walked found seen' where
  searches := by
    rw [← List.append_nil found]
    exact .spread hn hf h.searches .nil
  grows m hm := h.grows m (List.mem_cons_of_mem _ hm)
  complete := h.complete.leave hf h.covers
  covers := ⟨h.grows _ List.mem_cons_self, trivial⟩
  within := h.within
  first := h.first

/-- Wherever a walk goes a search can go, and notes the same fields first. -/
theorem Walks.searched (h : Walks table visiting ss walked)
    (hcomplete : Complete table visiting seen nodes) :
    ∃ found seen', Searched table visiting seen nodes ss walked found seen' := by
  induction h generalizing seen nodes with
  | nil => exact ⟨[], seen, hcomplete.searched_nil⟩
  | @field _ f b below _ _ _ ih =>
    have hfield := hcomplete.searched_field f b below
    obtain ⟨found, seen', hrest⟩ := ih hfield.complete
    exact ⟨_, _, hfield.cons hrest⟩
  | inline _ _ ih ih' =>
    obtain ⟨inner, seen₁, hinner⟩ := ih hcomplete
    obtain ⟨found, seen', hrest⟩ := ih' hinner.complete
    exact ⟨_, _, hinner.inline.cons hrest⟩
  | @again _ n ds o _ _ hn _ ih =>
    have hseen : Searched table _ seen nodes [.spread n ds o] [] [] seen :=
      hcomplete.searched_seen (hcomplete.entered _ hn) (by simp)
    obtain ⟨found, seen', hrest⟩ := ih hseen.complete
    exact ⟨_, _, hseen.cons hrest⟩
  | @spread _ n ds o f _ inner _ hnew hf hwalks _ ih ih' =>
    by_cases hn : n.text ∈ seen
    -- the walk goes through the fragment once more, where there is nothing to note
    · have hcovered := hcomplete.covered _ hn hnew f hf
      have hwalked : ∀ node ∈ inner, node ∈ nodes :=
        hwalks.mem_of_covered (fun m hm hm' => hcomplete.covered m hm fun h =>
          hm' (List.mem_cons_of_mem _ h)) hcovered
      have hseen : Searched table _ seen nodes [.spread n ds o] inner [] seen :=
        hcomplete.searched_seen hn hwalked
      obtain ⟨found, seen', hrest⟩ := ih' hseen.complete
      exact ⟨_, _, hseen.cons hrest⟩
    · obtain ⟨inner', seen₁, hinner⟩ := ih (hcomplete.enter n.text)
      have hspread : Searched table _ seen nodes [.spread n ds o] inner inner' seen₁ :=
        .spread hn hf hinner
      obtain ⟨found, seen', hrest⟩ := ih' hspread.complete
      exact ⟨_, _, hspread.cons hrest⟩

theorem complete_nil : Complete table [] [] [] := ⟨by simp, by simp⟩

/-! ### What both meet -/

theorem Way.mono {pass : Selection → Bool} {ss' : List Selection} (h : Way table pass ss node)
    (hss : ∀ sel ∈ ss, sel ∈ ss') : Way table pass ss' node := by
  cases h with
  | field hmem hp => exact .field (hss _ hmem) hp
  | inline hmem hp hw => exact .inline (hss _ hmem) hp hw
  | spread hmem hp hf hw => exact .spread (hss _ hmem) hp hf hw

theorem Way.mem_of_covers (hcomplete : Complete table [] seen nodes)
    (h : Way table (fun _ => true) ss node) (hss : CoversAll nodes seen ss) : node ∈ nodes := by
  induction h with
  | field hmem _ => exact hss.of_mem hmem
  | inline hmem _ _ ih => exact ih (hss.of_mem hmem)
  | spread hmem _ hf _ ih => exact ih (hcomplete.covered _ (hss.of_mem hmem) (by simp) _ hf)

theorem Walks.way (h : Walks table visiting ss walked) (hnode : node ∈ walked) :
    Way table (fun _ => true) ss node := by
  have later : ∀ {sel : Selection} {rest : List Selection}, Way table (fun _ => true) rest node →
      Way table (fun _ => true) (sel :: rest) node :=
    fun h => h.mono fun _ => List.mem_cons_of_mem _
  induction h with
  | nil => simp at hnode
  | field _ ih =>
    rcases List.mem_cons.1 hnode with rfl | hnode
    · exact .field List.mem_cons_self rfl
    · exact later (ih hnode)
  | inline _ _ ih ih' =>
    rcases List.mem_append.1 hnode with hnode | hnode
    · exact .inline List.mem_cons_self rfl (ih hnode)
    · exact later (ih' hnode)
  | again _ _ ih => exact later (ih hnode)
  | spread _ hf _ _ ih ih' =>
    rcases List.mem_append.1 hnode with hnode | hnode
    · exact .spread List.mem_cons_self rfl hf (ih hnode)
    · exact later (ih' hnode)

/-- A walk from outside all fragments meets every field that a way leads to, and a search finds
them with the same first field for each key. -/
theorem Walks.spec (h : Walks table [] ss walked) :
    (∀ node, node ∈ walked ↔ Way table (fun _ => true) ss node) ∧
      ∃ found seen', Searches table [] ss found seen' ∧
        (∀ node, node ∈ found ↔ Way table (fun _ => true) ss node) ∧
        (walked.map FieldNode.key).eraseDups = (found.map FieldNode.key).eraseDups ∧
        ∀ k, walked.find? (·.key == k) = found.find? (·.key == k) := by
  obtain ⟨found, seen', hfound⟩ := h.searched complete_nil
  have hmem : ∀ node, Way table (fun _ => true) ss node → node ∈ found :=
    fun node hw => hw.mem_of_covers hfound.complete hfound.covers
  refine ⟨fun node => ⟨h.way, fun hw => hfound.within node (hmem node hw)⟩, found, seen',
    hfound.searches, fun node => ⟨fun hnode => h.way (hfound.within node hnode), hmem node⟩, ?_⟩
  exact FieldNode.keys_eq_of_foldl (hfound.first [] (by simp))

/-- Where a walk ends, an executor comes to an end too. -/
theorem Walks.exists_collects {E : Execution} (h : Walks E.fragments visiting ss walked)
    (t : NamedType) (hseen : ∀ n ∈ visiting, n ∈ seen) :
    ∃ nodes seen', Execution.Collects E t seen ss nodes seen' := by
  have excluded : ∀ {sel : Selection} {rest : List Selection} {seen : List String},
      E.admits sel.directives = false → (∃ nodes seen', Execution.Collects E t seen rest nodes seen') →
        ∃ nodes seen', Execution.Collects E t seen (sel :: rest) nodes seen' := by
    rintro sel rest seen hd ⟨nodes, seen', hrest⟩
    exact ⟨nodes, seen', .excluded hd hrest⟩
  induction h generalizing seen with
  | nil => exact ⟨[], seen, .nil⟩
  | @field _ f _ _ _ _ _ ih =>
    cases hd : E.admits f.directives with
    | false => exact excluded hd (ih hseen)
    | true =>
      obtain ⟨nodes, seen', hrest⟩ := ih hseen
      exact ⟨_, seen', .field hd hrest⟩
  | @inline _ c ds _ _ _ _ _ _ _ ih ih' =>
    cases hd : E.admits ds with
    | false => exact excluded hd (ih' hseen)
    | true =>
      cases hc : E.meets t (c.map Name.text) with
      | false =>
        obtain ⟨nodes, seen', hrest⟩ := ih' hseen
        exact ⟨nodes, seen', .inlineUnmet hd hc hrest⟩
      | true =>
        obtain ⟨inner, seen₁, hinner⟩ := ih hseen
        obtain ⟨nodes, seen', hrest⟩ := ih' fun n hn => hinner.seen_subset n (hseen n hn)
        exact ⟨_, seen', .inline hd hc hinner hrest⟩
  | @again _ n ds _ _ _ hn _ ih =>
    cases hd : E.admits ds with
    | false => exact excluded hd (ih hseen)
    | true =>
      obtain ⟨nodes, seen', hrest⟩ := ih hseen
      exact ⟨nodes, seen', .spreadSeen hd (hseen _ hn) hrest⟩
  | @spread visiting n ds _ f _ _ _ hnew hf _ _ ih ih' =>
    cases hd : E.admits ds with
    | false => exact excluded hd (ih' hseen)
    | true =>
      by_cases hn : n.text ∈ seen
      · obtain ⟨nodes, seen', hrest⟩ := ih' hseen
        exact ⟨nodes, seen', .spreadSeen hd hn hrest⟩
      · have hlater : ∀ m ∈ visiting, m ∈ n.text :: seen :=
          fun m hm => List.mem_cons_of_mem _ (hseen m hm)
        cases hc : E.meets t (some f.condition.text) with
        | false =>
          obtain ⟨nodes, seen', hrest⟩ := ih' hlater
          exact ⟨nodes, seen', .spreadUnmet hd hn hf hc hrest⟩
        | true =>
          have hinside : ∀ m ∈ n.text :: visiting, m ∈ n.text :: seen := fun m hm =>
            (List.mem_cons.1 hm).elim (fun h => h ▸ List.mem_cons_self) (hlater m)
          obtain ⟨inner, seen₁, hinner⟩ := ih hinside
          obtain ⟨nodes, seen', hrest⟩ := ih' fun m hm => hinner.seen_subset m (hlater m hm)
          exact ⟨_, seen', .spread hd hn hf hc hinner hrest⟩

end QueryTypes
