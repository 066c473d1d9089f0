import QueryTypes.Proofs.Tree.Written

/-!
# Trees after a write that may have failed

Whatever becomes of a write, the only traces that it leaves are its file, if it ended well, and
directories that were missing on the way there. A write that fails leaves every file as it was, and
nothing of the file that was to be filled first, unless that could not be taken away.
-/

namespace QueryTypes
namespace FileTree

variable {t t' u : FileTree} {l k dir cwd at_ : Location} {name : String} {refuses : Refusals}
  {content : ByteArray} {ss : List String} {places more : List Location}
  {way way' : Location → Prop}

/-- Nothing has changed but some places, and directories were made on a way. -/
def Spares (places : List Location) (way : Location → Prop) (t t' : FileTree) : Prop :=
  ∀ k, k ∉ places → t'.node? k = t.node? k ∨ t.node? k = none ∧ t'.node? k = some .dir ∧ way k

theorem Spares.refl (places : List Location) (way : Location → Prop) (t : FileTree) :
    Spares places way t t := fun _ _ => .inl rfl

theorem Spares.mono (h : Spares places way t t') (hplaces : places ⊆ more)
    (hway : ∀ k, way k → way' k) : Spares more way' t t' := by
  intro k hk
  rcases h k (mt (@hplaces k) hk) with heq | ⟨hnone, hdir, hk⟩
  · exact .inl heq
  · exact .inr ⟨hnone, hdir, hway k hk⟩

theorem Spares.trans (h : Spares places way t u) (h' : Spares places way u t') :
    Spares places way t t' := by
  intro k hk
  rcases h' k hk with heq | ⟨hnone, hdir, hway⟩
  · rw [heq]
    exact h k hk
  · rcases h k hk with heq | ⟨-, hdir', -⟩
    · exact .inr ⟨heq ▸ hnone, hdir, hway⟩
    · rw [hdir'] at hnone
      exact absurd hnone (Option.some_ne_none _)

theorem Spares.bytes? (h : Spares places way t t') (hk : k ∉ places) :
    t'.bytes? k = t.bytes? k := by
  rw [FileTree.bytes?, FileTree.bytes?]
  rcases h k hk with heq | ⟨hnone, hdir, -⟩
  · rw [heq]
  · rw [hnone, hdir]

/-- The places that names lead through, seen from a place. -/
def Passes (at_ : Location) (ss : List String) (k : Location) : Prop :=
  ∃ first, first <+: ss ∧ climb at_ first = k

theorem Passes.cons {s : String} (h : Passes (if s = ".." then at_.dropLast else at_ ++ [s]) ss k) :
    Passes at_ (s :: ss) k := by
  obtain ⟨first, hfirst, hk⟩ := h
  exact ⟨s :: first, (List.prefix_cons_inj s).2 hfirst, hk⟩

/-- Making a way makes directories on it only, also when it is given up. -/
theorem spares_makePath {outcome : Except Fault Location}
    (h : t.makePath refuses at_ ss = (t', outcome)) : Spares [] (Passes at_ ss) t t' := by
  induction ss generalizing t at_ with
  | nil =>
    obtain ⟨rfl, -⟩ := Prod.mk.inj h
    exact .refl _ _ _
  | cons s ss ih =>
    rw [makePath] at h
    by_cases hs : s = ".."
    · rw [if_pos hs] at h
      exact (ih h).mono (List.Subset.refl _) fun k hk => Passes.cons (by rwa [if_pos hs])
    · rw [if_neg hs] at h
      dsimp only at h
      have hpasses : ∀ k, Passes (at_ ++ [s]) ss k → Passes at_ (s :: ss) k :=
        fun k hk => Passes.cons (by rwa [if_neg hs])
      cases hnode : t.node? (at_ ++ [s]) with
      | some n =>
        rw [hnode] at h
        cases n with
        | file b =>
          obtain ⟨rfl, -⟩ := Prod.mk.inj h
          exact .refl _ _ _
        | dir => exact (ih h).mono (List.Subset.refl _) hpasses
      | none =>
        rw [hnode] at h
        cases hrefuses : refuses t (.makeDir (at_ ++ [s])) with
        | some f =>
          rw [hrefuses] at h
          obtain ⟨rfl, -⟩ := Prod.mk.inj h
          exact .refl _ _ _
        | none =>
          rw [hrefuses] at h
          have hmade : Spares [] (Passes at_ (s :: ss)) t (t.set (at_ ++ [s]) .dir) := by
            intro k _
            rw [node?_set (by simp)]
            by_cases hk : k = at_ ++ [s]
            · exact .inr ⟨hk ▸ hnode, if_pos hk, hk ▸ hpasses _ ⟨[], List.nil_prefix, rfl⟩⟩
            · exact .inl (if_neg hk)
          exact hmade.trans ((ih h).mono (List.Subset.refl _) hpasses)

/-- A name beside a place for the file that is filled first. -/
def IsTemporaryOf (place l : Location) : Prop :=
  ∃ dir name mark, place = dir ++ [name] ∧ l = dir ++ ["." ++ name ++ "." ++ mark]

/-- What a write that failed has left of the file that it fills first: nothing, or that file, if it
could not be taken away. -/
inductive Leftover (refuses : Refusals) (place : Location) (e : Fault) (t t' : FileTree) :
    List Location → Prop
  | nothing : Leftover refuses place e t t' []
  | temporary (l : Location) (named : IsTemporaryOf place l) (fresh : t.node? l = none)
      (there : t'.isFile l = true) (stays : Stays refuses t' l e) :
      Leftover refuses place e t t' [l]

/-- Where what was filled first is discarded, at most that file is left. -/
theorem leftover_of_discard {place : Location} {f e : Fault} (ht : t.Grounded)
    (hnamed : IsTemporaryOf place l) (hl : t.has l = false) (hfile : u.isFile l = true)
    (hu : ∀ k, k ≠ l → u.node? k = t.node? k) (h : u.discard refuses l f = (t', .error e)) :
    ∃ kept, Leftover refuses place e t t' kept ∧ ∀ k, k ∉ kept → t'.node? k = t.node? k := by
  rcases discard_cases refuses u l f with heq | ⟨g, heq, hstays⟩
  · obtain ⟨rfl, -⟩ := Prod.mk.inj (heq.symm.trans h)
    exact ⟨[], .nothing, fun k _ => node?_remove_of_agree ht hl hu k⟩
  · obtain ⟨rfl, hg⟩ := Prod.mk.inj (heq.symm.trans h)
    obtain rfl := Except.error.inj hg
    have hfresh : t.node? l = none := by simpa [has] using hl
    exact ⟨[l], .temporary l hnamed hfresh hfile hstays, fun k hk => hu k (by simpa using hk)⟩

/-- A file that could not be replaced is there as before, and so is everything else but perhaps the
file that was filled first. -/
theorem leftover_of_replaceFile {e : Fault} (ht : t.Grounded)
    (h : t.replaceFile refuses dir name content = (t', .error e)) :
    ∃ kept, Leftover refuses (dir ++ [name]) e t t' kept ∧
      ∀ k, k ∉ kept → t'.node? k = t.node? k := by
  obtain ⟨hfresh, mark, hmark⟩ := t.freshName_spec dir name
  rcases replaceFile_cases refuses t dir name content with
    ⟨f, heq⟩ | ⟨u, hfile, hu, ⟨f, heq⟩ | ⟨-, heq⟩⟩
  · obtain ⟨rfl, -⟩ := Prod.mk.inj (heq.symm.trans h)
    exact ⟨[], .nothing, fun k _ => rfl⟩
  · have hnamed : IsTemporaryOf (dir ++ [name]) (dir ++ [t.freshName dir name]) :=
      ⟨dir, name, mark, rfl, by rw [hmark]⟩
    exact leftover_of_discard ht hnamed hfresh hfile hu (heq.symm.trans h)
  · exact absurd (heq.symm.trans h) (by simp)

/-- The places that the way to the file of a path leads through, seen from a working directory. -/
def OnWay (cwd : Location) (p : Path) (k : Location) : Prop :=
  ∃ first, first <+: p.segments.dropLast ∧ Path.resolve cwd ⟨p.root, first⟩ = k

theorem onWay_of_passes {p : Path} (hnames : ∀ n ∈ cwd, n ≠ "..")
    (h : Passes (if p.isAbsolute then [] else cwd) p.segments.dropLast k) : OnWay cwd p k := by
  obtain ⟨first, hfirst, rfl⟩ := h
  exact ⟨first, hfirst, resolve_eq_climb hnames ⟨p.root, first⟩⟩

theorem spares_of_replaceFile (ht : t.Grounded)
    (h : t.replaceFile refuses dir name content = (t', .ok ())) :
    Spares [dir ++ [name]] way t t' := by
  intro k hk
  rw [(node?_replaceFile ht h).2 k, if_neg (by simpa using hk)]
  exact .inl rfl

/-- What a write has left: its file if it ended well, else at most the file that it fills first; and
directories on a way. -/
def Attempted (refuses : Refusals) (place : Location) (way : Location → Prop) (t t' : FileTree) :
    Except Fault Unit → Prop
  | .ok _ => Spares [place] way t t'
  | .error e => ∃ kept, Leftover refuses place e t t' kept ∧ Spares kept way t t'

theorem Leftover.mono {place : Location} {e : Fault} {kept : List Location}
    (h : Leftover refuses place e u t' kept) (hu : Spares [] way t u) :
    Leftover refuses place e t t' kept := by
  cases h with
  | nothing => exact .nothing
  | temporary l named fresh there stays =>
    refine .temporary l named ?_ there stays
    rcases hu l List.not_mem_nil with heq | ⟨hnone, -, -⟩
    · rw [← heq, fresh]
    · exact hnone

theorem attempted_of_write {p : Path} {outcome : Except Fault Unit} (ht : t.Grounded)
    (hcwd : t.isDir cwd = true) (hnames : ∀ n ∈ cwd, n ≠ "..")
    (h : t.write refuses cwd p content = (t', outcome)) :
    Attempted refuses (Path.resolve cwd p) (OnWay cwd p) t t' outcome := by
  obtain ⟨made, reached, hpath, hcases⟩ := write_cases refuses p content ht hcwd hnames
  have hmade : Spares [] (OnWay cwd p) t made :=
    (spares_makePath hpath).mono (List.Subset.refl _) fun k => onWay_of_passes hnames
  rcases hcases with ⟨f, heq⟩ | ⟨dir, name, hgrounded, -, -, hplace, heq⟩
  · obtain ⟨rfl, rfl⟩ := Prod.mk.inj (heq.symm.trans h)
    exact ⟨[], .nothing, hmade⟩
  · have hreplace := heq.symm.trans h
    rw [hplace]
    cases outcome with
    | error e =>
      obtain ⟨kept, hleft, hnode⟩ := leftover_of_replaceFile hgrounded hreplace
      refine ⟨kept, hleft.mono hmade, fun k hk => ?_⟩
      rw [hnode k hk]
      exact hmade k List.not_mem_nil
    | ok _ =>
      have hreplaced : Spares _ (OnWay cwd p) made t' := spares_of_replaceFile hgrounded hreplace
      exact (hmade.mono (List.nil_subset _) fun _ hk => hk).trans hreplaced

end FileTree
end QueryTypes
