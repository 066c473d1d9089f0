import Mathlib.Data.Finset.Card
import QueryTypes.Output.Generate
import QueryTypes.Proofs.Outcome
import QueryTypes.Proofs.Project.Job
import QueryTypes.Proofs.Tree.Written

/-!
# Files of a generation

When all files of a generation were written, the last one for each place is there with its content,
and no other file has changed.
-/

namespace QueryTypes

open FileTree (Grounded Written)

/-- The place of a file that is still to be written. -/
def GeneratedFile.place (cwd : Location) (f : GeneratedFile) : Location := Path.resolve cwd f.path

/-- The working directory is there. -/
structure World.Standing (w : World) : Prop where
  grounded : w.tree.Grounded
  cwd : w.tree.isDir w.cwd = true
  names : ∀ n ∈ w.cwd, n ≠ ".."

theorem World.Standing.of_written {w : World} {tree : FileTree} {place : Location}
    {content : ByteArray} (hw : w.Standing) (h : Written w.tree tree place content)
    (log : List LogLine) : World.Standing ⟨tree, w.cwd, log⟩ :=
  ⟨h.grounded, h.dirs _ hw.cwd, hw.names⟩

/-- A world after files were written, one after the other. -/
structure WrittenAll (w w' : World) (files : List GeneratedFile) : Prop where
  standing : w'.Standing
  cwd : w'.cwd = w.cwd
  bytes : ∀ before f after, files = before ++ f :: after →
    f.place w.cwd ∉ after.map (GeneratedFile.place w.cwd) →
      w'.tree.bytes? (f.place w.cwd) = some (Text.encode f.content)
  elsewhere : ∀ k, k ∉ files.map (GeneratedFile.place w.cwd) →
    w'.tree.bytes? k = w.tree.bytes? k

variable {w w' : World} {refuses : Refusals} {files : List GeneratedFile}

theorem perform_writeFiles_cons (f : GeneratedFile) (files : List GeneratedFile) :
    (writeFiles refuses (f :: files)).perform w =
      match w.tree.write refuses w.cwd f.path (Text.encode f.content) with
      | (tree, .error e) => (.error (.breakdown e), { w with tree })
      | (tree, .ok ()) => (writeFiles refuses files).perform
          { w with tree, log := w.log ++ [⟨.debug, "generate", "Wrote " ++ f.path.text⟩] } := by
  rcases hwrite : w.tree.write refuses w.cwd f.path (Text.encode f.content) with ⟨tree, outcome⟩
  unfold writeFiles
  change Work.perform (bind (_ : Work Unit) fun _ => (List.forM files _ : Work Unit)) w = _
  simp only [Work.perform_bind, Work.perform_get, hwrite, Work.perform_set]
  cases outcome with
  | error e => rfl
  | ok a => rfl

theorem writtenAll_of_writeFiles (hw : w.Standing)
    (h : (writeFiles refuses files).perform w = (.ok (), w')) : WrittenAll w w' files := by
  induction files generalizing w with
  | nil =>
    obtain rfl := (Prod.mk.inj h).2
    refine ⟨hw, rfl, ?_, fun k hk => rfl⟩
    intro before f after hsplit
    exact absurd hsplit (by simp)
  | cons f files ih =>
    rw [perform_writeFiles_cons] at h
    rcases hwrite : w.tree.write refuses w.cwd f.path (Text.encode f.content) with ⟨tree, outcome⟩
    rw [hwrite] at h
    cases outcome with
    | error e => simp at h
    | ok a =>
      have hwritten := FileTree.written_of_write hw.grounded hw.cwd hw.names hwrite
      dsimp only at h
      have hrest := ih (hw.of_written hwritten _) h
      refine ⟨hrest.standing, hrest.cwd, ?_, ?_⟩
      · intro before g after hsplit hlast
        cases before with
        | nil =>
          obtain ⟨rfl, rfl⟩ := List.cons.inj hsplit
          exact (hrest.elsewhere _ hlast).trans hwritten.bytes
        | cons f' before => exact hrest.bytes before g after (List.cons.inj hsplit).2 hlast
      · intro k hk
        obtain ⟨hfirst, hmore⟩ := not_or.1 (mt List.mem_cons.2 hk)
        exact (hrest.elsewhere k hmore).trans (hwritten.elsewhere k hfirst)

/-- Files with a place of their own are all there. -/
theorem WrittenAll.bytes_of_nodup (h : WrittenAll w w' files)
    (hnodup : (files.map (GeneratedFile.place w.cwd)).Nodup) {f : GeneratedFile} (hf : f ∈ files) :
    w'.tree.bytes? (f.place w.cwd) = some (Text.encode f.content) := by
  obtain ⟨before, after, rfl⟩ := List.append_of_mem hf
  apply h.bytes before f after rfl
  rw [List.map_append, List.nodup_append, List.map_cons] at hnodup
  exact (List.nodup_cons.1 hnodup.2.1).1

theorem exists_last_of_mem_map {α β : Type} {f : α → β} {l : List α} {b : β} (h : b ∈ l.map f) :
    ∃ before a after, l = before ++ a :: after ∧ f a = b ∧ b ∉ after.map f := by
  induction l with
  | nil => exact absurd h List.not_mem_nil
  | cons a l ih =>
    by_cases hl : b ∈ l.map f
    · obtain ⟨before, c, after, rfl, hc, hlast⟩ := ih hl
      exact ⟨a :: before, c, after, rfl, hc, hlast⟩
    · rcases List.mem_cons.1 h with rfl | hmem
      · exact ⟨[], a, l, rfl, rfl, hl⟩
      · exact absurd hmem hl

/-- Something was written to every place. -/
theorem WrittenAll.isSome_of_mem (h : WrittenAll w w' files) {k : Location}
    (hk : k ∈ files.map (GeneratedFile.place w.cwd)) : (w'.tree.bytes? k).isSome = true := by
  obtain ⟨before, f, after, rfl, rfl, hlast⟩ := exists_last_of_mem_map hk
  rw [h.bytes before f after rfl hlast]
  rfl

/-- The map of operation ids as a file, where one is asked for. -/
def Generation.IdFile (g : Generation) (ids : List GeneratedFile) : Prop :=
  match given g.options.operationIdsPath, g.options.writeOperationIds with
  | some path, true => ∃ v, Manifest.operationIds g.preparedDocument = .ok v ∧
      ids = [⟨Path.ofText path, Manifest.fileText v, none⟩]
  | _, _ => ids = []

/-- The files of a generation: what is wanted of what the emitter makes, and then the operation
ids. -/
theorem Generation.exists_of_files {emitters : Emitters} {emitter : Emitter} {g : Generation}
    {cwd : Location} (hemitter : emitters.get? g.target = some emitter)
    (h : g.files emitters cwd = .ok files) :
    ∃ emitted ids, emitter.emit (g.emission cwd) = .ok emitted ∧ g.IdFile ids ∧
      files = emitted.filter (isWanted cwd g.only) ++ ids := by
  unfold Generation.files at h
  simp only [hemitter] at h
  obtain ⟨emitted, hemitted, h⟩ := Outcome.bind_eq_ok_iff.1 h
  split at h
  · rename_i path hpath hwrite
    obtain ⟨v, hv, h⟩ := Outcome.bind_eq_ok_iff.1 h
    obtain rfl := Except.ok.inj h
    refine ⟨emitted, _, hemitted, ?_, rfl⟩
    simp only [IdFile, hpath, hwrite]
    exact ⟨v, Outcome.ok_of_mapError hv, rfl⟩
  · rename_i hno
    obtain rfl := Except.ok.inj h
    refine ⟨emitted, [], hemitted, ?_, (List.append_nil _).symm⟩
    unfold IdFile
    split
    · rename_i path hpath hwrite
      exact absurd hwrite (hno path hpath)
    · rfl

/-- A number of files is the number of their places exactly if no two have one place. -/
theorem GeneratedFile.length_eq_card_iff (cwd : Location) (files : List GeneratedFile) :
    files.length = (files.map (place cwd)).toFinset.card ↔ (files.map (place cwd)).Nodup := by
  rw [List.card_toFinset, ← List.length_map (f := place cwd)]
  constructor
  · intro h
    rw [← List.dedup_eq_self]
    exact (List.dedup_sublist _).eq_of_length h.symm
  · intro h
    rw [h.dedup]

/-- Files were written and counted. Only if their places are different are they all there, and is the
number that of the places. -/
structure Delivered (w w' : World) (files : List GeneratedFile) (n : Nat) : Prop where
  written : WrittenAll w w' files
  number : n = files.length
  places : n = (files.map (GeneratedFile.place w.cwd)).toFinset.card ↔
    (files.map (GeneratedFile.place w.cwd)).Nodup
  whole : (files.map (GeneratedFile.place w.cwd)).Nodup →
    ∀ f ∈ files, w'.tree.bytes? (f.place w.cwd) = some (Text.encode f.content)

/-- What a generation does when it ends well. -/
theorem Generation.delivered_of_run {emitters : Emitters} {g : Generation} {n : Nat}
    (hw : w.Standing) (h : (g.run emitters refuses).perform w = (.ok n, w')) :
    ∃ files, g.files emitters w.cwd = .ok files ∧ Delivered w w' files n := by
  rw [run, Work.perform_bind, Work.perform_get] at h
  dsimp only at h
  cases hfiles : g.files emitters w.cwd with
  | error f =>
    rw [hfiles] at h
    cases h
  | ok files =>
    rw [hfiles] at h
    change ((writeFiles refuses files >>= fun _ => pure files.length) : Work Nat).perform w = _ at h
    obtain ⟨a, w₁, hwrite, hlength⟩ := Work.perform_bind_eq_ok_iff.1 h
    obtain ⟨hn, rfl⟩ := Prod.mk.inj hlength
    obtain rfl := Except.ok.inj hn
    have hwritten := writtenAll_of_writeFiles hw hwrite
    exact ⟨files, rfl, hwritten, rfl, GeneratedFile.length_eq_card_iff _ _,
      fun hnodup f hf => hwritten.bytes_of_nodup hnodup hf⟩

end QueryTypes
