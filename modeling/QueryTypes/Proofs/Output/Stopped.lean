import QueryTypes.Proofs.Output.Apart
import QueryTypes.Proofs.Tree.Attempted

/-!
# Files of a generation that stops

Files are written one after the other up to the first one that cannot be written. Main statement: a
generation either changes nothing, since it has no files to write, or it writes all of them, or the
files before one that fails are there with their contents and nothing else is changed, whatever the
disk refuses and whenever it does so. Of the one that fails, the file that is filled first is left
only if the disk refused to look at it or to remove it.
-/

namespace QueryTypes

open FileTree (Spares OnWay Leftover Attempted)

/-- A world after some files were written, one after the other, and after some were begun. The last
file for each place is there. Else there are only new directories, on the ways to what was begun, and
new files that were kept. -/
structure LeftBy (w w' : World) (written begun : List GeneratedFile) (kept : List Location) :
    Prop where
  cwd : w'.cwd = w.cwd
  bytes : ∀ before f after, written = before ++ f :: after →
    f.place w.cwd ∉ after.map (GeneratedFile.place w.cwd) →
      w'.tree.bytes? (f.place w.cwd) = some (Text.encode f.content)
  elsewhere : ∀ k, k ∉ written.map (GeneratedFile.place w.cwd) → k ∉ kept →
    w'.tree.bytes? k = w.tree.bytes? k
  spares : Spares (written.map (GeneratedFile.place w.cwd) ++ kept)
    (fun k => ∃ f ∈ begun, OnWay w.cwd f.path k) w.tree w'.tree
  fresh : ∀ k ∈ kept, w.tree.node? k = none ∧ w'.tree.isFile k = true

variable {w w' w₁ : World} {refuses : Refusals} {files before : List GeneratedFile}
  {f : GeneratedFile}

theorem spares_of_writeFiles (hw : w.Standing)
    (h : (writeFiles refuses files).perform w = (.ok (), w')) :
    Spares (files.map (GeneratedFile.place w.cwd)) (fun k => ∃ f ∈ files, OnWay w.cwd f.path k)
      w.tree w'.tree := by
  induction files generalizing w with
  | nil =>
    obtain rfl := (Prod.mk.inj h).2
    exact .refl _ _ _
  | cons f files ih =>
    rw [perform_writeFiles_cons] at h
    rcases hwrite : w.tree.write refuses w.cwd f.path (Text.encode f.content) with ⟨tree, outcome⟩
    rw [hwrite] at h
    cases outcome with
    | error e => simp at h
    | ok _ =>
      have hwritten := FileTree.written_of_write hw.grounded hw.cwd hw.names hwrite
      have hfirst : Spares [f.place w.cwd] (OnWay w.cwd f.path) w.tree tree :=
        FileTree.attempted_of_write hw.grounded hw.cwd hw.names hwrite
      have hrest := ih (hw.of_written hwritten _) h
      refine Spares.trans (u := tree) ?_ ?_
      · refine hfirst.mono ?_ fun k hk => ⟨f, List.mem_cons_self, hk⟩
        exact List.cons_subset_cons _ (List.nil_subset _)
      · refine hrest.mono (List.subset_cons_self _ _) ?_
        rintro k ⟨g, hg, hk⟩
        exact ⟨g, List.mem_cons_of_mem _ hg, hk⟩

theorem leftBy_of_writeFiles (hw : w.Standing)
    (h : (writeFiles refuses files).perform w = (.ok (), w')) : LeftBy w w' files files [] := by
  have hall := writtenAll_of_writeFiles hw h
  have hspares := spares_of_writeFiles hw h
  refine ⟨hall.cwd, hall.bytes, fun k hk _ => hall.elsewhere k hk, ?_, ?_⟩
  · rwa [List.append_nil]
  · intro k hk
    exact absurd hk List.not_mem_nil

/-- What is not there after files were written was not there before. -/
theorem not_mem_of_node?_none (hw : w.Standing)
    (h : (writeFiles refuses files).perform w = (.ok (), w')) {k : Location}
    (hk : w'.tree.node? k = none) :
    k ∉ files.map (GeneratedFile.place w.cwd) ∧ w.tree.node? k = none := by
  have hmem : k ∉ files.map (GeneratedFile.place w.cwd) := by
    intro hmem
    have hplaced := (writtenAll_of_writeFiles hw h).isSome_of_mem hmem
    simp [FileTree.bytes?, hk] at hplaced
  refine ⟨hmem, ?_⟩
  rcases spares_of_writeFiles hw h k hmem with heq | ⟨hnone, -, -⟩
  · rw [← heq, hk]
  · exact hnone

/-- The next file after those that were written could not be. -/
theorem leftBy_of_stop (hw : w.Standing)
    (hbefore : (writeFiles refuses before).perform w = (.ok (), w₁)) {tree : FileTree} {e : Fault}
    (hf : w₁.tree.write refuses w₁.cwd f.path (Text.encode f.content) = (tree, .error e)) :
    ∃ kept, Leftover refuses (f.place w.cwd) e w₁.tree tree kept ∧
      LeftBy w { w₁ with tree } before (before ++ [f]) kept := by
  have hall := writtenAll_of_writeFiles hw hbefore
  obtain ⟨kept, hleft, hlast⟩ : Attempted refuses (Path.resolve w₁.cwd f.path)
      (OnWay w₁.cwd f.path) w₁.tree tree (.error e) :=
    FileTree.attempted_of_write hall.standing.grounded hall.standing.cwd hall.standing.names hf
  rw [hall.cwd] at hleft hlast
  have hfresh : ∀ k ∈ kept, (k ∉ before.map (GeneratedFile.place w.cwd) ∧ w.tree.node? k = none) ∧
      tree.isFile k = true := by
    intro k hk
    cases hleft with
    | nothing => exact absurd hk List.not_mem_nil
    | temporary l named fresh there stays =>
      obtain rfl := List.mem_singleton.1 hk
      exact ⟨not_mem_of_node?_none hw hbefore fresh, there⟩
  refine ⟨kept, hleft, hall.cwd, ?_, ?_, ?_, fun k hk => ⟨(hfresh k hk).1.2, (hfresh k hk).2⟩⟩
  · intro first g rest hsplit hg
    refine (hlast.bytes? fun hmem => ?_).trans (hall.bytes first g rest hsplit hg)
    apply (hfresh _ hmem).1.1
    rw [hsplit]
    exact List.mem_map_of_mem (by simp)
  · intro k hk hkept
    exact (hlast.bytes? hkept).trans (hall.elsewhere k hk)
  · refine Spares.trans (u := w₁.tree) ?_ ?_
    · refine (spares_of_writeFiles hw hbefore).mono (List.subset_append_left _ _) ?_
      rintro k ⟨g, hg, hk⟩
      exact ⟨g, List.mem_append_left _ hg, hk⟩
    · refine hlast.mono (List.subset_append_right _ _) fun k hk => ⟨f, ?_, hk⟩
      exact List.mem_append_right _ List.mem_cons_self

/-- All files are written, or those before the first one that cannot be. -/
theorem exists_of_writeFiles (refuses : Refusals) (files : List GeneratedFile) (w : World) :
    (∃ w', (writeFiles refuses files).perform w = (.ok (), w')) ∨
      ∃ before f after w₁ tree e, files = before ++ f :: after ∧
        (writeFiles refuses before).perform w = (.ok (), w₁) ∧
        w₁.tree.write refuses w₁.cwd f.path (Text.encode f.content) = (tree, .error e) ∧
        (writeFiles refuses files).perform w = (.error (.breakdown e), { w₁ with tree }) := by
  induction files generalizing w with
  | nil => exact .inl ⟨w, rfl⟩
  | cons f files ih =>
    rcases hwrite : w.tree.write refuses w.cwd f.path (Text.encode f.content) with ⟨tree, outcome⟩
    cases outcome with
    | error e =>
      refine .inr ⟨[], f, files, w, tree, e, rfl, rfl, hwrite, ?_⟩
      rw [perform_writeFiles_cons, hwrite]
    | ok _ =>
      have hcons : ∀ rest, (writeFiles refuses (f :: rest)).perform w =
          (writeFiles refuses rest).perform
            ⟨tree, w.cwd, w.log ++ [⟨.debug, "generate", "Wrote " ++ f.path.text⟩]⟩ := by
        intro rest
        rw [perform_writeFiles_cons, hwrite]
      rcases ih ⟨tree, w.cwd, w.log ++ [⟨.debug, "generate", "Wrote " ++ f.path.text⟩]⟩ with
        ⟨w', hw'⟩ | ⟨before, g, after, w₁, tree', e, rfl, hbefore, hg, hstop⟩
      · exact .inl ⟨w', (hcons _).trans hw'⟩
      · exact .inr ⟨f :: before, g, after, w₁, tree', e, rfl, (hcons _).trans hbefore, hg,
          (hcons _).trans hstop⟩

namespace Generation

variable {emitters : Emitters} {g : Generation}

theorem perform_run_of_error {e : Failure} (h : g.files emitters w.cwd = .error e) :
    (g.run emitters refuses).perform w = (.error e, w) := by
  rw [run, Work.perform_bind, Work.perform_get]
  dsimp only
  rw [h]
  rfl

theorem perform_run_of_ok (h : g.files emitters w.cwd = .ok files) :
    (g.run emitters refuses).perform w =
      ((writeFiles refuses files).perform w).map (Except.map fun _ => files.length) id := by
  rw [run, Work.perform_bind, Work.perform_get]
  dsimp only
  rw [h]
  change ((writeFiles refuses files >>= fun _ => pure files.length) : Work Nat).perform w = _
  rw [Work.perform_bind]
  rcases (writeFiles refuses files).perform w with ⟨outcome, w'⟩
  cases outcome <;> rfl

/-- What a generation leaves on a disk that may refuse any step. -/
theorem run_leaves_prefix (emitters : Emitters) (refuses : Refusals) (g : Generation) {w : World}
    (hw : w.Standing) :
    (∀ e, g.files emitters w.cwd = .error e → (g.run emitters refuses).perform w = (.error e, w)) ∧
    ∀ files, g.files emitters w.cwd = .ok files →
      (∃ w', (g.run emitters refuses).perform w = (.ok files.length, w') ∧
        LeftBy w w' files files []) ∨
      ∃ before f after w₁ tree e, files = before ++ f :: after ∧
        (writeFiles refuses before).perform w = (.ok (), w₁) ∧
        w₁.tree.write refuses w₁.cwd f.path (Text.encode f.content) = (tree, .error e) ∧
        (g.run emitters refuses).perform w = (.error (.breakdown e), { w₁ with tree }) ∧
        ∃ kept, Leftover refuses (f.place w.cwd) e w₁.tree tree kept ∧
          LeftBy w { w₁ with tree } before (before ++ [f]) kept := by
  refine ⟨fun e he => perform_run_of_error he, fun files hfiles => ?_⟩
  rw [perform_run_of_ok hfiles]
  rcases exists_of_writeFiles refuses files w with
    ⟨w', hw'⟩ | ⟨before, f, after, w₁, tree, e, hsplit, hbefore, hf, hstop⟩
  · refine .inl ⟨w', ?_, leftBy_of_writeFiles hw hw'⟩
    rw [hw']
    rfl
  · refine .inr ⟨before, f, after, w₁, tree, e, hsplit, hbefore, hf, ?_,
      leftBy_of_stop hw hbefore hf⟩
    rw [hstop]
    rfl

/-- A disk that is full as soon as the module of `clash` is there. -/
def fullDisk : Refusals := fun t step =>
  match step with
  | .fill _ =>
    if t.isFile ["p", "src", "__generated__", "A.ts"] then some (.system "No space left on device")
    else none
  | _ => none

/-- The module is there, the one that was to take its place is not, and the failure is told. -/
theorem run_leaves_prefix_full : clashWorld.Standing ∧
    ∃ before f w', (clash.run Emitters.builtin fullDisk).perform clashWorld =
        (.error (.breakdown (.system "No space left on device")), w') ∧
      w'.tree.isFile ["p", "src", "__generated__", "A.ts"] = true ∧
      LeftBy clashWorld w' before (before ++ [f]) [] := by
  obtain ⟨files, hfiles⟩ : ∃ files, clash.files Emitters.builtin clashWorld.cwd = .ok files :=
    Outcome.exists_of_isSome (by decide +kernel)
  have hrun : ((clash.run Emitters.builtin fullDisk).perform clashWorld).1 =
      .error (.breakdown (.system "No space left on device")) := by decide +kernel
  have hfile : ((clash.run Emitters.builtin fullDisk).perform clashWorld).2.tree.isFile
      ["p", "src", "__generated__", "A.ts"] = true := by decide +kernel
  obtain ⟨-, hall⟩ := run_leaves_prefix Emitters.builtin fullDisk clash standing_clashWorld
  rcases hall files hfiles with
    ⟨w', hok, -⟩ | ⟨before, f, -, w₁, tree, e, -, -, -, hstop, kept, hleft, hleftBy⟩
  · rw [hok] at hrun
    cases hrun
  · rw [hstop] at hrun hfile
    cases hleft with
    | nothing =>
      exact ⟨standing_clashWorld, before, f, _, hstop.trans (Prod.ext hrun rfl), hfile, hleftBy⟩
    | temporary l named fresh there stays =>
      -- this disk lets everything be looked at and removed
      rcases stays with ⟨g, hg⟩ | hg
      · exact absurd hg (by simp [fullDisk])
      · exact absurd hg (by simp [fullDisk])

/-- A disk that takes new files, but lets none be replaced or removed. -/
def appendOnlyDisk : Refusals := fun _ step =>
  match step with
  | .replace _ | .remove _ => some (.system "Operation not permitted")
  | _ => none

/-- With the map of operation ids at the place of the module, which has another path. -/
def overlaid : Generation :=
  { clash with options := { clash.options with
      writeOperationIds := true, operationIdsPath := some "src/__generated__/A.ts" } }

/-- On a disk that lets nothing be removed the file that was filled first is left. And where two
paths lead to one place, what the first one of them lists last is not there in the end. -/
theorem temporary_kept_of_appendOnly :
    (∃ e w', (clash.run Emitters.builtin appendOnlyDisk).perform clashWorld = (.error e, w') ∧
      clashWorld.tree.has ["p", "src", "__generated__", ".A.ts.0"] = false ∧
      w'.tree.isFile ["p", "src", "__generated__", ".A.ts.0"] = true) ∧
    ∃ files before f after w', overlaid.files Emitters.builtin clashWorld.cwd = .ok files ∧
      (overlaid.run Emitters.builtin Refusals.none).perform clashWorld = (.ok files.length, w') ∧
      files = before ++ f :: after ∧ f.path ∉ after.map GeneratedFile.path ∧
      w'.tree.bytes? (f.place clashWorld.cwd) ≠ some (Text.encode f.content) := by
  constructor
  · have hrun : ((clash.run Emitters.builtin appendOnlyDisk).perform clashWorld).1 =
        .error (.breakdown (.system "Operation not permitted")) := by decide +kernel
    exact ⟨_, _, Prod.ext hrun rfl, by decide, by decide +kernel⟩
  · have hfiles : overlaid.files Emitters.builtin clashWorld.cwd =
        .ok ((overlaid.files Emitters.builtin clashWorld.cwd).toOption.getD default) :=
      Outcome.eq_ok_of_isSome _ (by decide +kernel)
    have hrun : ((overlaid.run Emitters.builtin Refusals.none).perform clashWorld).1 = .ok 3 := by
      decide +kernel
    -- the second file and the third one differ in their paths, and the third one is there
    have hpaths : ((overlaid.files Emitters.builtin clashWorld.cwd).toOption.getD default).map
        (fun f => decide (f.path = Path.ofText "/p/src/__generated__/A.ts")) =
        [true, true, false] := by decide +kernel
    have hsecond : (((overlaid.files Emitters.builtin clashWorld.cwd).toOption.getD default)[1]?.map
        fun f => decide (((overlaid.run Emitters.builtin Refusals.none).perform
          clashWorld).2.tree.bytes? (f.place clashWorld.cwd) = some (Text.encode f.content))) =
        some false := by decide +kernel
    generalize (overlaid.files Emitters.builtin clashWorld.cwd).toOption.getD default = files at *
    obtain ⟨a, b, c, rfl⟩ : ∃ a b c, files = [a, b, c] :=
      List.length_eq_three.1 (by simpa using congrArg List.length hpaths)
    simp only [List.map_cons, List.map_nil, List.cons.injEq, and_true, decide_eq_true_eq,
      decide_eq_false_iff_not] at hpaths
    obtain ⟨-, hb, hc⟩ := hpaths
    refine ⟨_, [a], b, [c], _, hfiles, Prod.ext hrun rfl, rfl, ?_, ?_⟩
    · rw [hb, List.map_singleton, List.mem_singleton]
      exact fun heq => hc heq.symm
    · exact of_decide_eq_false (Option.some.inj hsecond)

end Generation
end QueryTypes
