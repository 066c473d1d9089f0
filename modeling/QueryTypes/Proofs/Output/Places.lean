import QueryTypes.Output.Place
import QueryTypes.Proofs.Document.Identifier
import QueryTypes.Proofs.Text.Fields
import QueryTypes.Proofs.Tree.Sound

/-!
# Places of modules

A module stands in a directory that depends on its source, under a name that depends on the name of
its definition. Two modules have one place exactly if they share both. What is put next to its
sources goes to an output without a slash, which is one segment or the directory of the source
itself.
-/

namespace QueryTypes

namespace Path

theorem rootOf_of_head {s : String} {c : Char} {r : List Char} (h : s.toList = c :: r)
    (hc : c ≠ '/') : (ofText s).root = .here := by
  rw [ofText, h]
  unfold rootOf
  split <;> simp_all

theorem resolve_child {cwd : Location} {p : Path} {s : String} (hroot : (ofText s).root = .here)
    (hdots : ".." ∉ (ofText s).segments) :
    resolve cwd (p.child s) = resolve cwd p ++ (ofText s).segments := by
  have hne : ∀ n ∈ (ofText s).segments, n ≠ ".." := by
    rintro n hn rfl
    exact hdots hn
  have hrelative : (ofText s).isAbsolute = false := by rw [isAbsolute, hroot]; rfl
  rw [child, join, hrelative, if_neg Bool.false_ne_true, resolve, resolve]
  change collapse (if p.isAbsolute then _ else _) = _
  cases p.isAbsolute with
  | true => exact collapse_append _ hne
  | false =>
    rw [if_neg Bool.false_ne_true, if_neg Bool.false_ne_true, ← List.append_assoc]
    exact collapse_append _ hne

end Path

namespace Placement

variable {p : Placement} {s s' : Option Path} {n n' first : String} {more : List String}

/-- The directory for what comes from a source, before the way there is taken. -/
def base (p : Placement) (s : Option Path) : Path :=
  match p.beside, s with
  | true, some s => s.parent.child p.output
  | _, _ => Path.ofText p.output

def folder (p : Placement) (s : Option Path) : Location := Path.resolve p.cwd (p.base s)

/-- What a module adds to its directory. -/
def leaf (p : Placement) (n : String) : List String := (Path.ofText (p.fileName n)).segments

theorem head_fileName (p : Placement) (hn : IsIdentifier n) :
    ∃ c r, (p.fileName n).toList = c :: r ∧ c ≠ '/' ∧ c ≠ '.' := by
  obtain ⟨c, r, hr, hc⟩ := hn.exists_cons
  refine ⟨c, r ++ ("." ++ p.extension).toList, ?_, ?_, ?_⟩
  · rw [fileName, String.append_assoc, String.toList_append, hr, List.cons_append]
  · rintro rfl
    exact absurd hc (by decide)
  · rintro rfl
    exact absurd hc (by decide)

theorem leaf_eq (hext : Text.split '/' p.extension = first :: more) (hn : IsIdentifier n) :
    p.leaf n = (n ++ "." ++ first) :: more.filter fun s => s != "" && s != "." := by
  -- only the extension can bring further segments
  have hslash : '/' ∉ (n ++ ".").toList := by
    rw [String.toList_append, List.mem_append]
    rintro (hmem | hmem)
    · exact hn.not_mem (by decide) hmem
    · exact absurd hmem (by decide)
  obtain ⟨c, r, hr, hc⟩ := hn.exists_cons
  have hkept : (n ++ "." ++ first != "" && n ++ "." ++ first != ".") = true := by
    rw [Bool.and_eq_true, bne_iff_ne, bne_iff_ne, ← String.toList_inj.ne, ← String.toList_inj.ne]
    constructor
    · simp [hr]
    · intro heq
      simp [hr] at heq
  rw [leaf, Path.ofText, fileName, Text.split_append hslash hext, List.filter_cons, if_pos hkept]

theorem leaf_inj (hn : IsIdentifier n) (hn' : IsIdentifier n') (h : p.leaf n = p.leaf n') :
    n = n' := by
  obtain ⟨first, more, hext⟩ := Text.exists_split '/' p.extension
  rw [leaf_eq hext hn, leaf_eq hext hn'] at h
  have hfirst := (List.cons.inj h).1
  rwa [String.append_left_inj, String.append_left_inj] at hfirst

theorem length_leaf (hn : IsIdentifier n) (hn' : IsIdentifier n') :
    (p.leaf n).length = (p.leaf n').length := by
  obtain ⟨first, more, hext⟩ := Text.exists_split '/' p.extension
  rw [leaf_eq hext hn, leaf_eq hext hn', List.length_cons, List.length_cons]

theorem dots_not_mem_leaf (hext : ".." ∉ Text.split '/' p.extension) (hn : IsIdentifier n) :
    ".." ∉ p.leaf n := by
  obtain ⟨first, more, hsplit⟩ := Text.exists_split '/' p.extension
  rw [hsplit] at hext
  rw [leaf_eq hsplit hn]
  intro hmem
  rcases List.mem_cons.1 hmem with heq | hmem
  · obtain ⟨c, r, hr, hc⟩ := hn.exists_cons
    have hlist := congrArg String.toList heq
    simp only [String.toList_append, hr, List.cons_append] at hlist
    obtain rfl := (List.cons.inj hlist).1
    exact absurd hc (by decide)
  · exact hext (List.mem_cons_of_mem _ (List.mem_filter.1 hmem).1)

/-- Where a module stands. -/
def spot (p : Placement) (s : Option Path) (n : String) : Location := p.folder s ++ p.leaf n

theorem resolve_module (hext : ".." ∉ Text.split '/' p.extension) (hn : IsIdentifier n) :
    Path.resolve p.cwd (p.module s n) = p.spot s n := by
  obtain ⟨c, r, hr, hslash, -⟩ := p.head_fileName hn
  exact Path.resolve_child (Path.rootOf_of_head hr hslash) (dots_not_mem_leaf hext hn)

theorem append_leaf_eq_iff {l l' : Location} (hn : IsIdentifier n) (hn' : IsIdentifier n') :
    l ++ p.leaf n = l' ++ p.leaf n' ↔ l = l' ∧ n = n' := by
  constructor
  · intro h
    obtain ⟨hl, hleaf⟩ := List.append_inj' h (length_leaf hn hn')
    exact ⟨hl, leaf_inj hn hn' hleaf⟩
  · rintro ⟨rfl, rfl⟩
    rfl

theorem spot_eq_iff (hn : IsIdentifier n) (hn' : IsIdentifier n') :
    p.spot s n = p.spot s' n' ↔ p.folder s = p.folder s' ∧ n = n' :=
  append_leaf_eq_iff hn hn'

/-! ### The shared module -/

/-- The directory for the shared module when it is given no file of its own. -/
def sharedFolder (p : Placement) (sources : List Path) : Location :=
  Path.resolve p.cwd (
    if p.beside then
      let dirs := sources.map fun s => Path.resolve p.cwd s.parent
      (Path.ofLocation (if dirs.isEmpty then p.cwd else Path.commonStart dirs)).child p.output
    else Path.ofText p.output)

theorem isIdentifier_globalTypes : IsIdentifier "globalTypes" := by decide

theorem resolve_shared (hfile : given p.sharedFile = none)
    (hext : ".." ∉ Text.split '/' p.extension) (sources : List Path) :
    Path.resolve p.cwd (p.shared sources) = p.sharedFolder sources ++ p.leaf "globalTypes" := by
  obtain ⟨c, r, hr, hslash, -⟩ := p.head_fileName isIdentifier_globalTypes
  rw [shared, hfile]
  exact Path.resolve_child (Path.rootOf_of_head hr hslash) (dots_not_mem_leaf hext isIdentifier_globalTypes)

theorem spot_eq_shared_iff (hfile : given p.sharedFile = none)
    (hext : ".." ∉ Text.split '/' p.extension) (hn : IsIdentifier n) (sources : List Path) :
    p.spot s n = Path.resolve p.cwd (p.shared sources) ↔
      p.folder s = p.sharedFolder sources ∧ n = "globalTypes" := by
  rw [resolve_shared hfile hext]
  exact append_leaf_eq_iff hn isIdentifier_globalTypes

end Placement
end QueryTypes

/-! ### Outputs that are accepted -/

namespace QueryTypes.Request

/-- Files go next to their sources. -/
def PutsBeside (r : Request) : Bool := r.target.besideSources && r.besideSources

variable {flags : Flags} {r : Request}

theorem outputPath_ne_empty (r : Request) : r.outputPath ≠ "" := by
  rw [outputPath]
  cases hgiven : given r.output with
  | none => decide
  | some o =>
    obtain ⟨-, ho⟩ := Option.filter_eq_some_iff.1 hgiven
    simpa using ho

theorem given_given (s : Option String) : given (given s) = given s := by
  rw [given, given, Option.filter_filter]
  simp

/-- What acceptance says of a request. -/
theorem accepted_of_ofFlags (hr : Request.ofFlags flags = .ok r) :
    r.output = given flags.output ∧ r.flat = flags.flat ∧
      (r.PutsBeside = true → r.output.any (·.contains '/') = false) := by
  unfold Request.ofFlags at hr
  split at hr
  · cases hr
  · dsimp only at hr
    split at hr
    · cases hr
    · split at hr
      · cases hr
      · rename_i hslash
        obtain rfl := Except.ok.inj hr
        refine ⟨rfl, rfl, fun hbeside => ?_⟩
        rw [PutsBeside, besideSources] at hbeside
        rwa [hbeside, Bool.true_and, Bool.not_eq_true] at hslash

theorem slash_not_mem_of_putsBeside (hr : Request.ofFlags flags = .ok r) (hbeside : r.PutsBeside = true) :
    '/' ∉ r.outputPath.toList := by
  obtain ⟨houtput, -, hslash⟩ := accepted_of_ofFlags hr
  have hsingle := hslash hbeside
  rw [outputPath, houtput, given_given]
  rw [houtput] at hsingle
  cases hgiven : given flags.output with
  | none => decide
  | some o =>
    rw [hgiven, Option.any_some, String.contains_char_eq, decide_eq_false_iff_not] at hsingle
    exact hsingle

theorem segments_outputPath (hr : Request.ofFlags flags = .ok r) (hbeside : r.PutsBeside = true) :
    (Path.ofText r.outputPath).segments = if r.outputPath = "." then [] else [r.outputPath] := by
  rw [Path.ofText, Text.split, Text.splitOn_of_not_mem (slash_not_mem_of_putsBeside hr hbeside)]
  by_cases hdot : r.outputPath = "."
  · simp [hdot]
  · simp [hdot, r.outputPath_ne_empty]

theorem root_outputPath (hr : Request.ofFlags flags = .ok r) (hbeside : r.PutsBeside = true) :
    (Path.ofText r.outputPath).root = .here := by
  have hslash := slash_not_mem_of_putsBeside hr hbeside
  cases hchars : r.outputPath.toList with
  | nil => exact absurd (String.toList_eq_nil_iff.1 hchars) r.outputPath_ne_empty
  | cons c cs =>
    refine Path.rootOf_of_head hchars ?_
    rintro rfl
    exact hslash (hchars ▸ List.mem_cons_self)

theorem putsBeside_of_flags {l : Language} (hr : Request.ofFlags flags = .ok r)
    (hl : Language.ofTarget? r.target = some l) (hflat : flags.flat = false) : r.PutsBeside = true := by
  have htarget : r.target.besideSources = true := by
    cases h : r.target <;> rw [h] at hl <;> first | rfl | cases hl
  rw [PutsBeside, besideSources, htarget, (accepted_of_ofFlags hr).2.1, hflat]
  rfl

end QueryTypes.Request
