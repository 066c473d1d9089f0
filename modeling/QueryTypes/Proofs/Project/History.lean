import QueryTypes.Proofs.Project.Job
import QueryTypes.Proofs.Project.Listing

/-!
# Projects that follow a changing tree

A loaded project is told of changed files one by one, while its tree goes on changing. Every place
is then either up to date or still to be told of, so once everything was told the files are those
that a fresh load finds.
-/

namespace QueryTypes

/-- The place that a call about a URI or a path is about. -/
def Uri.place? (cwd : Location) (uri : String) : Option Location :=
  match Uri.toPath? uri with
  | none => none
  | some p =>
    if p.segments.any fun s => s.toList.contains '\x00' then none else some (Path.resolve cwd p)

/-- A sound tree without a file in the place of the root of a project. -/
def FileTree.Houses (t : FileTree) (root : Location) : Prop := t.Sound ∧ t.isFile root = false

instance (t : FileTree) (root : Location) : Decidable (t.Houses root) :=
  inferInstanceAs (Decidable (t.Sound ∧ t.isFile root = false))

namespace ClientFile

variable {g : GlobSet} {t t' : FileTree} {tag : String} {files files' : List ClientFile}
  {l m : Location}

/-- What becomes of known files when a place is looked at again. -/
def lookAgain (g : GlobSet) (tag : String) (t : FileTree) (l : Location)
    (known : List ClientFile) : Except Fault (List ClientFile) :=
  if t.isFile l && g.matchesLocation l then (read tag t l).map fun f => put f known
  else .ok (drop l known)

/-- Either the place is none of the project's, or what is there can be dealt with. -/
def Readable (g : GlobSet) (tag : String) (t : FileTree) (l : Location) : Prop :=
  Listed g t l → ∃ f, read tag t l = .ok f

/-- The files at one place are those that reading it gives. -/
def Agrees (g : GlobSet) (tag : String) (t : FileTree) (files : List ClientFile)
    (l : Location) : Prop :=
  ∀ f, f ∈ files ∧ f.place = l ↔ Listed g t l ∧ read tag t l = .ok f

theorem readable_congr (h : t.bytes? l = t'.bytes? l) :
    Readable g tag t l ↔ Readable g tag t' l := by
  unfold Readable
  rw [listed_congr h, read_congr h]

theorem agrees_congr (h : t.bytes? l = t'.bytes? l) :
    Agrees g tag t files l ↔ Agrees g tag t' files l := by
  unfold Agrees
  rw [listed_congr h, read_congr h]

theorem not_readable_of_lookAgain {e : Fault} (h : lookAgain g tag t l files = .error e) :
    ¬ Readable g tag t l := by
  intro hr
  unfold lookAgain at h
  split at h
  next hl =>
    obtain ⟨f, hf⟩ := hr (by simpa [Listed] using hl)
    simp [hf, Except.map] at h
  · simp at h

theorem readable_of_lookAgain (h : lookAgain g tag t l files = .ok files') :
    Readable g tag t l := by
  intro hl
  cases hread : read tag t l with
  | ok f => exact ⟨f, rfl⟩
  | error e =>
    obtain ⟨hfile, hm⟩ := hl
    simp [lookAgain, hfile, hm, hread, Except.map] at h

/-- Looking again sets one place right. -/
theorem agrees_of_lookAgain (h : lookAgain g tag t l files = .ok files') :
    Agrees g tag t files' l := by
  intro f
  unfold lookAgain at h
  split at h
  next hl =>
    have hl' : Listed g t l := by simpa [Listed] using hl
    cases hread : read tag t l with
    | error e => simp [hread, Except.map] at h
    | ok f' =>
      rw [hread] at h
      obtain rfl := Except.ok.inj h
      have hplace := place_of_read hread
      rw [mem_put_iff, hplace]
      constructor
      · rintro ⟨rfl | ⟨-, hne⟩, hf⟩
        · exact ⟨hl', rfl⟩
        · exact absurd hf hne
      · rintro ⟨-, hf⟩
        obtain rfl := Except.ok.inj hf
        exact ⟨.inl rfl, hplace⟩
  next hl =>
    obtain rfl := Except.ok.inj h
    have hl' : ¬ Listed g t l := by simpa [Listed] using hl
    rw [mem_drop_iff]
    constructor
    · rintro ⟨⟨-, hne⟩, hf⟩
      exact absurd hf hne
    · rintro ⟨hlisted, -⟩
      exact absurd hlisted hl'

theorem mem_lookAgain_of_ne (h : lookAgain g tag t l files = .ok files') (hm : m ≠ l)
    (f : ClientFile) : f ∈ files' ∧ f.place = m ↔ f ∈ files ∧ f.place = m := by
  apply and_congr_left
  rintro rfl
  unfold lookAgain at h
  split at h
  · cases hread : read tag t l with
    | error e => simp [hread, Except.map] at h
    | ok f' =>
      rw [hread] at h
      obtain rfl := Except.ok.inj h
      have hplace := place_of_read hread
      rw [mem_put_iff, hplace]
      have hne : f ≠ f' := by
        rintro rfl
        exact hm hplace
      simp [hne, hm]
  · obtain rfl := Except.ok.inj h
    simp [mem_drop_iff, hm]

theorem Tidy.lookAgain (hfiles : Tidy files) (ht : t.Sound)
    (h : lookAgain g tag t l files = .ok files') : Tidy files' := by
  unfold ClientFile.lookAgain at h
  split at h
  next hl =>
    have hfile : t.isFile l = true := by
      rw [Bool.and_eq_true] at hl
      exact hl.1
    cases hread : read tag t l with
    | error e => simp [hread, Except.map] at h
    | ok f =>
      rw [hread] at h
      obtain rfl := Except.ok.inj h
      apply hfiles.put
      rw [place_of_read hread]
      exact ht.isName (FileTree.has_of_isFile hfile)
  · obtain rfl := Except.ok.inj h
    exact hfiles.drop l

end ClientFile

/-- What happens to a project: its tree becomes another one, or it is told of a change. -/
inductive Happening
  | edit (tree : FileTree)
  | told (uri : String)

/-- Whatever an edit changes is told of after it. -/
def AllTold (cwd : Location) : FileTree → List Happening → Prop
  | _, [] => True
  | t, .edit t' :: rest =>
    (∀ l, t.bytes? l ≠ t'.bytes? l → ∃ uri, .told uri ∈ rest ∧ Uri.place? cwd uri = some l) ∧
      AllTold cwd t' rest
  | t, .told _ :: rest => AllTold cwd t rest

namespace Session

variable {s : Session} {fs : List ClientFile}

/-- A project that was just made, with the schema that it is given. -/
def opened (c : ClientConfig) (origin : Option SchemaOrigin) (root : Location)
    (schema : Option Schema) (world : World) : Session :=
  ⟨world, { Project.ofClient c origin root with schema := schema }, none⟩

def meet (s : Session) : Happening → Session
  | .edit tree => { s with world := { s.world with tree := tree } }
  | .told uri => ((fileChanged uri).perform s).2

def after (s : Session) (history : List Happening) : Session := history.foldl meet s

/-- Every call of a history returns. -/
def Returns : Session → List Happening → Prop
  | _, [] => True
  | s, .edit tree :: rest => Returns (s.meet (.edit tree)) rest
  | s, .told uri :: rest =>
    ((fileChanged uri).perform s).1 = .ok () ∧ Returns (s.meet (.told uri)) rest

theorem perform_files (h : s.project.files = some fs) : files.perform s = (.ok fs, s) := by
  simp [files, Job.perform_bind, h]

theorem perform_placeChanged (h : s.project.files = some fs) (l : Location) :
    match ClientFile.lookAgain s.project.globs s.project.templateTag s.world.tree l fs with
    | .ok fs' => ∃ log, (placeChanged l).perform s =
        (.ok (), { s with project.files := some fs', world.log := log })
    | .error f => (placeChanged l).perform s = (.error (.breakdown f), s) := by
  unfold placeChanged ClientFile.lookAgain
  simp only [Job.perform_bind, perform_files h, Job.perform_get]
  by_cases hl : (s.world.tree.isFile l && s.project.globs.matchesLocation l) = true
  · rw [if_pos hl, if_pos hl]
    cases hread : ClientFile.read s.project.templateTag s.world.tree l with
    | error f => simp [Except.map]
    | ok f => simp [Except.map, Job.perform_bind]
  · rw [if_neg hl, if_neg hl]
    by_cases hany : (fs.any fun f => f.place == l) = true
    · rw [if_pos hany]
      simp [Job.perform_bind]
    · -- there is nothing to drop
      have hdrop : ClientFile.drop l fs = fs := by
        rw [ClientFile.drop, List.filter_eq_self]
        intro f hf
        simpa using fun hp => hany (List.any_eq_true.2 ⟨f, hf, by simpa using hp⟩)
      refine ⟨s.world.log, ?_⟩
      rw [if_neg hany, hdrop, ← h]
      rfl

theorem perform_fileChanged (h : s.project.files = some fs) (uri : String) :
    match Uri.place? s.world.cwd uri with
    | some l => (fileChanged uri).perform s = (placeChanged l).perform s
    | none => ∃ f, (fileChanged uri).perform s = (.error f, s) := by
  unfold fileChanged Uri.place?
  simp only [Job.perform_bind, perform_files h, Job.perform_get]
  cases Uri.toPath? uri with
  | none => simp
  | some p =>
    by_cases hnul : (p.segments.any fun n => n.toList.contains '\x00') = true
    · simp only [if_pos hnul]
      exact ⟨_, rfl⟩
    · simp only [if_neg hnul]

/-- A call changes the files only as looking at its place again does, and fails when that fails. -/
theorem perform_fileChanged_cases (h : s.project.files = some fs) (uri : String) :
    (∃ l fs' log, Uri.place? s.world.cwd uri = some l ∧
      ClientFile.lookAgain s.project.globs s.project.templateTag s.world.tree l fs = .ok fs' ∧
      (fileChanged uri).perform s =
        (.ok (), { s with project.files := some fs', world.log := log })) ∨
    (∃ e, (fileChanged uri).perform s = (.error e, s)) ∧
      ∀ l, Uri.place? s.world.cwd uri = some l →
        ¬ ClientFile.Readable s.project.globs s.project.templateTag s.world.tree l := by
  have hcall := perform_fileChanged h uri
  cases hp : Uri.place? s.world.cwd uri with
  | none =>
    rw [hp] at hcall
    exact .inr ⟨hcall, by simp⟩
  | some l =>
    rw [hp] at hcall
    have hplace := perform_placeChanged h l
    cases hlook : ClientFile.lookAgain s.project.globs s.project.templateTag s.world.tree l fs with
    | ok fs' =>
      rw [hlook] at hplace
      obtain ⟨log, hlog⟩ := hplace
      exact .inl ⟨l, fs', log, rfl, hlook, hcall.trans hlog⟩
    | error e =>
      rw [hlook] at hplace
      refine .inr ⟨⟨_, hcall.trans hplace⟩, ?_⟩
      rintro m hm
      obtain rfl := Option.some.inj hm
      exact ClientFile.not_readable_of_lookAgain hlook

theorem perform_load {ls : List Location}
    (h : ClientFile.places s.project.globs s.world.tree = .ok ls) :
    match ClientFile.readAll s.project.templateTag s.world.tree ls with
    | (fs, none) => ∃ log, load.perform s =
        (.ok (), { s with project.files := some fs, world.log := log })
    | (_, some f) => (load.perform s).1 = .error (.breakdown f) := by
  unfold load
  simp only [Job.perform_bind, Job.perform_get, h]
  rcases ClientFile.readAll s.project.templateTag s.world.tree ls with ⟨fs, fault⟩
  cases fault with
  | none => simp [Job.perform_bind]
  | some f => simp [Job.perform_bind]

/-- A call about a place is among those to come. -/
def ToldLater (cwd : Location) (rest : List Happening) (l : Location) : Prop :=
  ∃ uri, .told uri ∈ rest ∧ Uri.place? cwd uri = some l

/-- What holds of a loaded project between two happenings: a place that can be read is up to date,
unless a call about it is still to come. -/
structure Follows (s : Session) (fs : List ClientFile) (rest : List Happening) : Prop where
  loaded : s.project.files = some fs
  tidy : ClientFile.Tidy fs
  houses : s.world.tree.Houses s.project.globs.root
  current : ∀ l, (ClientFile.Readable s.project.globs s.project.templateTag s.world.tree l →
      ClientFile.Agrees s.project.globs s.project.templateTag s.world.tree fs l) ∨
    ToldLater s.world.cwd rest l

/-- The project with its files yet to be loaded. -/
def unloaded (s : Session) : Project := { s.project with files := none }

/-- The second session differs from the first in its tree, its log and the files it holds. -/
structure Alike (s s' : Session) : Prop where
  project : s'.unloaded = s.unloaded
  cwd : s'.world.cwd = s.world.cwd

namespace Alike

variable {s' s'' : Session}

theorem trans (h : Alike s s') (h' : Alike s' s'') : Alike s s'' :=
  ⟨h'.project.trans h.project, h'.cwd.trans h.cwd⟩

theorem globs (h : Alike s s') : s'.project.globs = s.project.globs := by
  change s'.unloaded.globs = s.unloaded.globs
  rw [h.project]

theorem tag (h : Alike s s') : s'.project.templateTag = s.project.templateTag := by
  change s'.unloaded.templateTag = s.unloaded.templateTag
  rw [h.project]

theorem schema (h : Alike s s') : s'.project.schema = s.project.schema := by
  change s'.unloaded.schema = s.unloaded.schema
  rw [h.project]

end Alike

variable {rest : List Happening}

theorem Follows.edit {tree : FileTree} (h : Follows s fs (.edit tree :: rest))
    (htree : tree.Houses s.project.globs.root)
    (htold : ∀ l, s.world.tree.bytes? l ≠ tree.bytes? l → ToldLater s.world.cwd rest l) :
    Follows (s.meet (.edit tree)) fs rest := by
  refine ⟨h.loaded, h.tidy, htree, ?_⟩
  intro l
  by_cases hsame : s.world.tree.bytes? l = tree.bytes? l
  · rcases h.current l with hcur | ⟨uri, hmem, hplace⟩
    · left
      intro hr
      exact (ClientFile.agrees_congr hsame).1 (hcur ((ClientFile.readable_congr hsame).2 hr))
    · exact .inr ⟨uri, by simpa using hmem, hplace⟩
  · exact .inr (htold l hsame)

theorem Follows.told {uri : String} (h : Follows s fs (.told uri :: rest)) :
    Alike s (s.meet (.told uri)) ∧ ∃ fs', Follows (s.meet (.told uri)) fs' rest := by
  -- for a place that the call is not about, a call still to come is a later one
  have later : ∀ l, Uri.place? s.world.cwd uri ≠ some l →
      ToldLater s.world.cwd (.told uri :: rest) l → ToldLater s.world.cwd rest l := by
    rintro l hne ⟨uri', hmem, hplace⟩
    rcases List.mem_cons.1 hmem with heq | hmem
    · obtain rfl := Happening.told.inj heq
      exact absurd hplace hne
    · exact ⟨uri', hmem, hplace⟩
  rcases perform_fileChanged_cases h.loaded uri with
    ⟨l, fs', log, hplace, hlook, hcall⟩ | ⟨⟨e, hcall⟩, hunread⟩
  · have hs' : s.meet (.told uri) = { s with project.files := some fs', world.log := log } := by
      rw [meet, hcall]
    rw [hs']
    refine ⟨⟨rfl, rfl⟩, fs', rfl, h.tidy.lookAgain h.houses.1 hlook, h.houses, ?_⟩
    intro m
    by_cases hm : m = l
    · subst hm
      exact .inl fun _ => ClientFile.agrees_of_lookAgain hlook
    · rcases h.current m with hcur | hlater
      · left
        intro hr f
        rw [ClientFile.mem_lookAgain_of_ne hlook hm]
        exact hcur hr f
      · refine .inr (later m ?_ hlater)
        rw [hplace]
        exact fun heq => hm (Option.some.inj heq).symm
  · have hs' : s.meet (.told uri) = s := by rw [meet, hcall]
    rw [hs']
    refine ⟨⟨rfl, rfl⟩, fs, h.loaded, h.tidy, h.houses, ?_⟩
    intro m
    by_cases hm : Uri.place? s.world.cwd uri = some m
    · exact .inl fun hr => absurd hr (hunread m hm)
    · rcases h.current m with hcur | hlater
      · exact .inl hcur
      · exact .inr (later m hm hlater)

variable {history : List Happening}

theorem Follows.after (h : Follows s fs history)
    (hedits : ∀ tree, .edit tree ∈ history → tree.Houses s.project.globs.root)
    (htold : AllTold s.world.cwd s.world.tree history) :
    Alike s (s.after history) ∧ ∃ fs', Follows (s.after history) fs' [] := by
  induction history generalizing s fs with
  | nil => exact ⟨⟨rfl, rfl⟩, fs, h⟩
  | cons e history ih =>
    cases e with
    | edit tree =>
      obtain ⟨hnow, hrest⟩ := htold
      have hnext := h.edit (hedits tree (by simp)) hnow
      obtain ⟨halike, hlast⟩ := ih hnext (fun t ht => hedits t (by simp [ht])) hrest
      exact ⟨⟨halike.project, halike.cwd⟩, hlast⟩
    | told uri =>
      obtain ⟨halike, fs', hnext⟩ := h.told
      have htree : (s.meet (.told uri)).world.tree = s.world.tree := by
        rcases perform_fileChanged_cases h.loaded uri with ⟨_, _, _, _, _, hc⟩ | ⟨⟨_, hc⟩, _⟩ <;>
          rw [meet, hc]
      obtain ⟨halike', hlast⟩ := ih hnext
        (fun t ht => by
          rw [halike.globs]
          exact hedits t (by simp [ht]))
        (by
          rw [halike.cwd, htree]
          exact htold)
      exact ⟨halike.trans halike', hlast⟩

/-- When every call returns, what was told of could be read. -/
theorem Follows.readable_after (h : Follows s fs history)
    (hedits : ∀ tree, .edit tree ∈ history → tree.Houses s.project.globs.root)
    (htold : AllTold s.world.cwd s.world.tree history) (hret : Returns s history)
    (hread : ∀ l, ClientFile.Readable s.project.globs s.project.templateTag s.world.tree l ∨
      ToldLater s.world.cwd history l) (l : Location) :
    ClientFile.Readable s.project.globs s.project.templateTag (s.after history).world.tree l := by
  induction history generalizing s fs with
  | nil =>
    rcases hread l with hl | ⟨uri, hmem, -⟩
    · exact hl
    · exact absurd hmem (by simp)
  | cons e history ih =>
    cases e with
    | edit tree =>
      obtain ⟨hnow, hrest⟩ := htold
      refine ih (h.edit (hedits tree (by simp)) hnow) (fun t ht => hedits t (by simp [ht])) hrest
        hret ?_
      intro m
      by_cases hsame : s.world.tree.bytes? m = tree.bytes? m
      · rcases hread m with hm | ⟨uri, hmem, hplace⟩
        · exact .inl ((ClientFile.readable_congr hsame).1 hm)
        · exact .inr ⟨uri, by simpa using hmem, hplace⟩
      · exact .inr (hnow m hsame)
    | told uri =>
      obtain ⟨hok, hret⟩ := hret
      obtain ⟨-, fs', hnext⟩ := h.told
      rcases perform_fileChanged_cases h.loaded uri with
        ⟨l', fs'', log, hplace, hlook, hcall⟩ | ⟨⟨e, hcall⟩, -⟩
      · have hs' : s.meet (.told uri) =
            { s with project.files := some fs'', world.log := log } := by
          rw [meet, hcall]
        rw [hs'] at hnext hret
        rw [Session.after, List.foldl_cons, hs']
        refine ih hnext (fun t ht => hedits t (by simp [ht])) htold hret ?_
        intro m
        by_cases hm : m = l'
        · subst hm
          exact .inl (ClientFile.readable_of_lookAgain hlook)
        · rcases hread m with hl | ⟨uri', hmem, hplace'⟩
          · exact .inl hl
          · rcases List.mem_cons.1 hmem with heq | hmem
            · obtain rfl := Happening.told.inj heq
              rw [hplace] at hplace'
              exact absurd (Option.some.inj hplace').symm hm
            · exact .inr ⟨uri', hmem, hplace'⟩
      · rw [hcall] at hok
        exact absurd hok (by simp)

/-- What a load that returns leaves behind. -/
theorem load_returns_iff (hp : ∀ p ∈ s.project.globs.includes, Glob.IsPlain p)
    (ht : s.world.tree.Houses s.project.globs.root) :
    (load.perform s).1 = .ok () ↔
      ∀ l, ClientFile.Readable s.project.globs s.project.templateTag s.world.tree l := by
  obtain ⟨ls, hls, -, hmem⟩ := ClientFile.places_of_plain ht.1 hp ht.2
  have hload := perform_load hls
  have hiff : (ClientFile.readAll s.project.templateTag s.world.tree ls).2 = none ↔ _ :=
    ClientFile.readAll_returns_iff ls
  rcases hall : ClientFile.readAll s.project.templateTag s.world.tree ls with ⟨fs, fault⟩
  rw [hall] at hload hiff
  have hreads : (∀ l, ClientFile.Readable s.project.globs s.project.templateTag s.world.tree l) ↔
      fault = none := by
    rw [hiff]
    exact forall_congr' fun l => by rw [ClientFile.Readable, hmem l]
  rw [hreads]
  cases fault with
  | none =>
    obtain ⟨log, hlog⟩ := hload
    simp [hlog]
  | some f =>
    rw [hload]
    simp

theorem perform_load_of_returns (hp : ∀ p ∈ s.project.globs.includes, Glob.IsPlain p)
    (ht : s.world.tree.Houses s.project.globs.root) (hret : (load.perform s).1 = .ok ()) :
    ∃ fs log, load.perform s = (.ok (), { s with project.files := some fs, world.log := log }) ∧
      ClientFile.Tidy fs ∧
      ∀ l, ClientFile.Agrees s.project.globs s.project.templateTag s.world.tree fs l := by
  obtain ⟨ls, hls, hsorted, hmem⟩ := ClientFile.places_of_plain ht.1 hp ht.2
  have hload := perform_load hls
  rcases hall : ClientFile.readAll s.project.templateTag s.world.tree ls with ⟨fs, fault⟩
  rw [hall] at hload
  cases fault with
  | some f =>
    rw [hload] at hret
    exact absurd hret (by simp)
  | none =>
    obtain ⟨log, hlog⟩ := hload
    have hplaces := ClientFile.map_place_readAll (congrArg Prod.snd hall)
    have hfiles := @ClientFile.mem_readAll_iff _ _ _ (congrArg Prod.snd hall)
    rw [hall] at hplaces hfiles
    refine ⟨fs, log, hlog, ⟨?_, ?_⟩, ?_⟩
    · rw [← List.pairwise_map (f := ClientFile.place) (R := fun l m =>
        Location.text l < Location.text m), hplaces]
      exact hsorted
    · intro f hf
      have hl : f.place ∈ ls := by
        rw [← hplaces]
        exact List.mem_map_of_mem hf
      exact ht.1.isName (FileTree.has_of_isFile ((hmem _).1 hl).1)
    · intro l f
      rw [hfiles]
      constructor
      · rintro ⟨⟨m, hm, hread⟩, rfl⟩
        rw [ClientFile.place_of_read hread] at *
        exact ⟨(hmem m).1 hm, hread⟩
      · rintro ⟨hl, hread⟩
        exact ⟨⟨l, (hmem l).2 hl, hread⟩, ClientFile.place_of_read hread⟩

theorem perform_files_of_load (hfiles : s.project.files = none) {log : List LogLine}
    (h : load.perform s = (.ok (), { s with project.files := some fs, world.log := log })) :
    files.perform s = (.ok fs, { s with project.files := some fs, world.log := log }) := by
  simp [files, Job.perform_bind, Job.perform_map, hfiles, h, Except.map]

/-- Whatever is asked of a project depends on its files and its schema alone. -/
theorem answers_of_files {s' t t' : Session} (h : files.perform s = (.ok fs, t))
    (h' : files.perform s' = (.ok fs, t')) (hschema : t.project.schema = t'.project.schema) :
    (files.perform s).1 = (files.perform s').1 ∧
    (operations.perform s).1 = (operations.perform s').1 ∧
    (fragments.perform s).1 = (fragments.perform s').1 ∧
    (validate.perform s).1 = (validate.perform s').1 := by
  refine ⟨?_, ?_, ?_, ?_⟩
  · rw [h, h']
  · simp [operations, Job.perform_map, h, h']
  · simp [fragments, Job.perform_map, h, h']
  · simp [validate, Job.perform_bind, h, h', hschema]

/-- Once a project was told of everything that changed, it has the files that a new project loads
from the tree as it is now. The new one can load them if every call of the old one returned. -/
theorem files_eq_fresh_load (c : ClientConfig) (origin : Option SchemaOrigin) (root : Location)
    (schema : Option Schema) (world : World) (history : List Happening)
    (hp : ∀ p ∈ GlobSet.expandAll c.includes, Glob.IsPlain p)
    (ht : world.tree.Houses root)
    (hload : (load.perform (opened c origin root schema world)).1 = .ok ())
    (hedits : ∀ tree, .edit tree ∈ history → tree.Houses root)
    (htold : AllTold world.cwd world.tree history) :
    let loaded := (load.perform (opened c origin root schema world)).2
    let now := loaded.after history
    let anew := opened c origin root schema now.world
    (Returns loaded history → (load.perform anew).1 = .ok ()) ∧
    ((load.perform anew).1 = .ok () →
      (files.perform now).1 = (files.perform anew).1 ∧
      (operations.perform now).1 = (operations.perform anew).1 ∧
      (fragments.perform now).1 = (fragments.perform anew).1 ∧
      (validate.perform now).1 = (validate.perform anew).1) := by
  intro loaded now anew
  have hread := (load_returns_iff (s := opened c origin root schema world) hp ht).1 hload
  obtain ⟨fs, log, hperform, htidy, hagrees⟩ := perform_load_of_returns
    (s := opened c origin root schema world) hp ht hload
  have hloaded : loaded = { opened c origin root schema world with
      project.files := some fs, world.log := log } := congrArg Prod.snd hperform
  have hbefore : Alike (opened c origin root schema world) loaded := by
    rw [hloaded]
    exact ⟨rfl, rfl⟩
  have htree : loaded.world.tree = world.tree := by rw [hloaded]; rfl
  have hfollows : Follows loaded fs history := by
    rw [hloaded]
    exact ⟨rfl, htidy, ht, fun l => .inl fun _ => hagrees l⟩
  have hedits' : ∀ tree, .edit tree ∈ history → tree.Houses loaded.project.globs.root := by
    rw [hbefore.globs]
    exact hedits
  have htold' : AllTold loaded.world.cwd loaded.world.tree history := by
    rw [hbefore.cwd, htree]
    exact htold
  obtain ⟨hafter, fs', hnow⟩ := hfollows.after hedits' htold'
  have halike : Alike anew now := ⟨(hbefore.trans hafter).project, rfl⟩
  have hhouses : anew.world.tree.Houses anew.project.globs.root := by
    rw [← halike.globs]
    exact hnow.houses
  constructor
  · intro hret
    rw [load_returns_iff hp hhouses]
    intro l
    have hlater := hfollows.readable_after hedits' htold' hret (fun m => .inl (by
      rw [hbefore.globs, hbefore.tag, htree]
      exact hread m)) l
    rw [hbefore.globs, hbefore.tag] at hlater
    exact hlater
  · intro hret
    obtain ⟨fs'', log', hanew, htidy', hagrees'⟩ := perform_load_of_returns hp hhouses hret
    have hreadable := (load_returns_iff (s := anew) hp hhouses).1 hret
    have hfiles : fs' = fs'' := by
      apply hnow.tidy.eq_of_mem_iff htidy'
      intro f
      have hcur := (hnow.current f.place).resolve_right (by rintro ⟨_, hmem, -⟩; simp at hmem)
      rw [halike.globs, halike.tag] at hcur
      simpa using (hcur (hreadable f.place) f).trans (hagrees' f.place f).symm
    subst hfiles
    exact answers_of_files (perform_files hnow.loaded) (perform_files_of_load rfl hanew)
      halike.schema

/-- Everything directly inside the root. -/
def clientOfAll : ClientConfig := ⟨["*"], [], "gql", .standard⟩

def treeOf (name text : String) : FileTree :=
  ⟨[(["proj"], .dir), (["proj", name], .file (Text.encode text))]⟩

/-- A file gets another name and another text. -/
def moving : List Happening :=
  [.edit (treeOf "b.graphql" "query B { c }"), .told "a.graphql", .told "file:///proj/b.graphql"]

theorem allTold_moving :
    AllTold ["proj"] (treeOf "a.graphql" "query A { c }") moving := by
  refine ⟨?_, trivial⟩
  intro l hl
  by_cases ha : l = ["proj", "a.graphql"]
  · exact ⟨"a.graphql", by simp, by rw [ha]; decide⟩
  · by_cases hb : l = ["proj", "b.graphql"]
    · exact ⟨"file:///proj/b.graphql", by simp, by rw [hb]; decide⟩
    · refine absurd ?_ hl
      have ha' : (l == ["proj", "a.graphql"]) = false := by simpa using ha
      have hb' : (l == ["proj", "b.graphql"]) = false := by simpa using hb
      simp only [FileTree.bytes?, FileTree.node?, treeOf, List.lookup_cons, ha', hb']

theorem files_eq_fresh_load_moving :
    let opened := opened clientOfAll none ["proj"] none
    let now := (load.perform (opened ⟨treeOf "a.graphql" "query A { c }", ["proj"], []⟩)).2.after
      moving
    (files.perform now).1 = (files.perform (opened now.world)).1 := by
  have h := files_eq_fresh_load clientOfAll none ["proj"] none
    ⟨treeOf "a.graphql" "query A { c }", ["proj"], []⟩ moving (by decide) (by decide)
    (by decide +kernel)
    (by
      intro tree htree
      obtain rfl : tree = treeOf "b.graphql" "query B { c }" := by simpa [moving] using htree
      decide)
    allTold_moving
  exact (h.2 (by decide +kernel)).1

/-- A file appears in the place of the root. -/
def rootFile : List Happening :=
  [.edit ⟨[(["proj"], .file (Text.encode "query Q { a }"))]⟩, .told "proj"]

/-- The pattern `*` matches a file in the place of the root, which no walk finds. -/
theorem files_ne_fresh_load_of_root_file :
    let opened := opened clientOfAll none ["proj"] none
    let loaded := (load.perform (opened ⟨.empty, [], []⟩)).2
    let now := loaded.after rootFile
    (∀ p ∈ GlobSet.expandAll clientOfAll.includes, Glob.IsPlain p) ∧ FileTree.empty.Sound ∧
      (∀ tree, .edit tree ∈ rootFile → tree.Sound) ∧
      (load.perform (opened ⟨.empty, [], []⟩)).1 = .ok () ∧ AllTold [] .empty rootFile ∧
      Returns loaded rootFile ∧ (load.perform (opened now.world)).1 = .ok () ∧
      (files.perform now).1 ≠ (files.perform (opened now.world)).1 := by
  refine ⟨by decide, by decide, ?_, by decide +kernel, ⟨?_, trivial⟩, ⟨by decide +kernel, trivial⟩,
    by decide +kernel, ?_⟩
  · intro tree htree
    obtain rfl : tree = ⟨[(["proj"], .file (Text.encode "query Q { a }"))]⟩ := by
      simpa [rootFile] using htree
    decide
  · intro l hl
    by_cases hroot : l = ["proj"]
    · exact ⟨"proj", by simp, by rw [hroot]; decide⟩
    · refine absurd ?_ hl
      have hroot' : (l == ["proj"]) = false := by simpa using hroot
      by_cases htop : l = []
      · simp [htop, FileTree.bytes?, FileTree.node?]
      · simp only [FileTree.bytes?, FileTree.node?, FileTree.empty, if_neg htop, List.lookup_cons,
          hroot', List.lookup_nil]
  · intro heq
    have hplaces := congrArg (fun r => (r.toOption.getD []).map ClientFile.place) heq
    revert hplaces
    decide +kernel

end Session
end QueryTypes
