import QueryTypes.Config.Reader
import QueryTypes.Proofs.Yaml.Made

/-!
# Configurations from files of any content

A file that is missing, that is no YAML or that holds other values than a configuration is a failure
of the configuration. A directory is not, nor is what a reader of YAML breaks down on, nor data inside
itself. Main statement: loading breaks down on these and on nothing else, whatever the environment
and the reader are. The reader of the program breaks down on bytes that are no text and on documents
of a few kinds.
-/

namespace QueryTypes.ConfigFile

open Yaml (Data ReadError)

section Expansion

variable {env : Table String}

mutual

theorem expandData_eq_error_iff {f : Fault} : ∀ d : Data,
    expandData env d = .error f ↔ f = .endless ∧ d.Looped
  | .list xs => by
    rw [expandData, Data.looped_list_iff, ← expandItems_eq_error_iff xs]
    cases expandItems env xs <;> simp [bind, Except.bind, pure, Except.pure]
  | .map ps => by
    rw [expandData, Data.looped_map_iff, ← expandPairs_eq_error_iff ps]
    cases expandPairs env ps <;> simp [bind, Except.bind, pure, Except.pure]
  | .again => by simp [expandData, Data.Looped.again, eq_comm]
  | .null | .bool _ | .int _ | .float _ | .str _ | .bytes _ | .other | .set _ => by
    simp only [expandData, reduceCtorEq, false_iff, not_and]
    rintro - ⟨⟩

theorem expandItems_eq_error_iff {f : Fault} : ∀ xs : List Data,
    expandItems env xs = .error f ↔ f = .endless ∧ ∃ x ∈ xs, x.Looped
  | [] => by simp [expandItems]
  | x :: xs => by
    cases hx : expandData env x with
    | error e =>
      obtain ⟨rfl, hlooped⟩ := (expandData_eq_error_iff x).1 hx
      simp [expandItems, hx, bind, Except.bind, hlooped, eq_comm]
    | ok y =>
      have hnot : ¬x.Looped := fun h => by simp [(expandData_eq_error_iff x).2 ⟨rfl, h⟩] at hx
      have hmem : (∃ y ∈ x :: xs, y.Looped) ↔ ∃ y ∈ xs, y.Looped := by simp [hnot]
      rw [expandItems, hx, hmem, ← expandItems_eq_error_iff xs]
      cases expandItems env xs <;> simp [bind, Except.bind, pure, Except.pure]

theorem expandPairs_eq_error_iff {f : Fault} : ∀ ps : List (Data × Data),
    expandPairs env ps = .error f ↔ f = .endless ∧ ∃ p ∈ ps, p.2.Looped
  | [] => by simp [expandPairs]
  | (k, v) :: ps => by
    cases hv : expandData env v with
    | error e =>
      obtain ⟨rfl, hlooped⟩ := (expandData_eq_error_iff v).1 hv
      simp [expandPairs, hv, bind, Except.bind, hlooped, eq_comm]
    | ok w =>
      have hnot : ¬v.Looped := fun h => by simp [(expandData_eq_error_iff v).2 ⟨rfl, h⟩] at hv
      have hmem : (∃ p ∈ (k, v) :: ps, p.2.Looped) ↔ ∃ p ∈ ps, p.2.Looped := by simp [hnot]
      rw [expandPairs, hv, hmem, ← expandPairs_eq_error_iff ps]
      cases expandPairs env ps <;> simp [bind, Except.bind, pure, Except.pure]

end

end Expansion

/-- The bytes of a file that is there. -/
def Holds (t : FileTree) (cwd : Location) (path : Path) (b : ByteArray) : Prop :=
  (t.find? cwd path).bind t.node? = some (.file b)

/-- What stands at a path breaks down loading: a directory, a file that the reader breaks down on,
or data inside itself. A value of the wrong type is one of the reader's answers that loading has
words for. -/
inductive Breaks (yaml : YamlReader) (t : FileTree) (cwd : Location) (path : Path) : Fault → Prop
  | directory (h : (t.find? cwd path).bind t.node? = some .dir) :
      Breaks yaml t cwd path .isDirectory
  | unread {b : ByteArray} {f : Fault} (hb : Holds t cwd path b)
      (h : yaml b = .error (.breakdown f)) (htype : ∀ m, f ≠ .wrongType m) :
      Breaks yaml t cwd path f
  | looped {b : ByteArray} {d : Data} (hb : Holds t cwd path b) (hd : yaml b = .ok d)
      (h : d.Looped) : Breaks yaml t cwd path .endless

/-- No configuration comes from a path, and no failure. -/
inductive HoldsNothing (yaml : YamlReader) (t : FileTree) (cwd : Location) (path : Path) : Prop
  | gone (h : (t.find? cwd path).bind t.node? = none)
  | null {b : ByteArray} (hb : Holds t cwd path b) (h : yaml b = .ok .null)

/-- The paths that are looked at: the one that is named, and the usual one where none is or nothing
comes from that one. -/
inductive Consulted (yaml : YamlReader) (t : FileTree) (cwd : Location) (named : Option String) :
    Path → Prop
  | named {p : String} (hp : given named = some p) (hthere : look t cwd p = .there) :
      Consulted yaml t cwd named (Path.ofText p)
  | usual (h : ∀ p, given named = some p →
        look t cwd p = .there ∧ HoldsNothing yaml t cwd (Path.ofText p)) :
      Consulted yaml t cwd named (Path.ofText configFileName)

section Reading

variable {yaml : YamlReader} {t : FileTree} {cwd : Location} {env : Table String} {path : Path}
  {f : Fault} {r : Except ReadError Data}

theorem ofData_breakdown_iff {name : String} : ofData env name r = .error (.breakdown f) ↔
    (r = .error (.breakdown f) ∧ ∀ m, f ≠ .wrongType m) ∨ f = .endless ∧ ∃ d, r = .ok d ∧ d.Looped := by
  rcases r with (_ | g) | d
  · simp [ofData]
  · cases g with
    | wrongType m =>
      simp only [ofData, Except.error.injEq, reduceCtorEq, ReadError.breakdown.injEq, false_and,
        exists_false, and_false, or_false, false_iff, not_and, not_forall, not_not]
      rintro rfl
      exact ⟨m, rfl⟩
    | _ =>
      simp only [ofData, Except.error.injEq, ConfigError.breakdown.injEq, ReadError.breakdown.injEq,
        reduceCtorEq, false_and, exists_false, and_false, or_false]
      refine ⟨?_, And.left⟩
      rintro rfl
      exact ⟨rfl, nofun⟩
  · have hexpand : expandData env d = .error f ↔ f = .endless ∧ d.Looped :=
      expandData_eq_error_iff d
    simp only [reduceCtorEq, false_and, false_or, Except.ok.injEq, exists_eq_left', ← hexpand]
    rw [ofData.eq_def]
    split
    · next h => cases h
    · next h => cases h
    · next h => cases h
    · next h =>
      obtain rfl := Except.ok.inj h
      simp [expandData]
    · next h =>
      obtain rfl := Except.ok.inj h
      split
      · next h => simp [h]
      · next h =>
        simp only [h, reduceCtorEq, iff_false]
        split
        · simp
        · split <;> simp
      · next h => simp [h]

theorem ofData_eq_none_iff {name : String} : ofData env name r = .ok none ↔ r = .ok .null := by
  rw [ofData.eq_def]
  split
  · simp
  · simp
  · simp
  · simp
  · next d hnull =>
    simp only [Except.ok.injEq]
    refine ⟨fun hnone => ?_, fun hd => absurd hd hnull⟩
    split at hnone
    · cases hnone
    · split at hnone
      · cases hnone
      · split at hnone <;> cases hnone
    · cases hnone

theorem read_breakdown_iff :
    read yaml t cwd env path = .error (.breakdown f) ↔ Breaks yaml t cwd path f := by
  constructor
  · intro h
    rw [read] at h
    split at h
    · cases h
    · next hdir =>
      obtain rfl := ConfigError.breakdown.inj (Except.error.inj h)
      exact .directory hdir
    · next b hb =>
      rcases ofData_breakdown_iff.1 h with ⟨h, htype⟩ | ⟨rfl, d, hd, h⟩
      · exact .unread hb h htype
      · exact .looped hb hd h
  · intro h
    rw [read]
    cases h with
    | directory h => rw [h]
    | unread hb h htype =>
      rw [Holds] at hb
      simp only [hb, ofData_breakdown_iff.2 (.inl ⟨h, htype⟩)]
    | looped hb hd h =>
      rw [Holds] at hb
      simp only [hb, ofData_breakdown_iff.2 (.inr ⟨rfl, _, hd, h⟩)]

theorem read_eq_none_iff : read yaml t cwd env path = .ok none ↔ HoldsNothing yaml t cwd path := by
  constructor
  · intro h
    rw [read] at h
    split at h
    · next hgone => exact .gone hgone
    · cases h
    · next b hb => exact .null hb (ofData_eq_none_iff.1 h)
  · intro h
    rw [read]
    cases h with
    | gone h => rw [h]
    | null hb h =>
      rw [Holds] at hb
      simp only [hb, ofData_eq_none_iff.2 h]

/-- The configuration of the usual file, where nothing came from another one. -/
def usual (yaml : YamlReader) (t : FileTree) (cwd : Location) (env : Table String) :
    Except ConfigError Config := do
  return (← read yaml t cwd env (Path.ofText configFileName)).getD Config.standard

theorem usual_breakdown_iff : usual yaml t cwd env = .error (.breakdown f) ↔
    Breaks yaml t cwd (Path.ofText configFileName) f := by
  rw [usual, Outcome.bind_eq_error_iff, read_breakdown_iff]
  simp [pure, Except.pure]

variable {named : Option String} {p : String}

theorem load_of_given_none (hnamed : given named = none) :
    loadWith yaml t cwd env named = usual yaml t cwd env := by
  rw [loadWith, hnamed]
  rfl

theorem load_of_refused (hnamed : given named = some p) (h : look t cwd p = .refused) :
    loadWith yaml t cwd env named = .error (.breakdown (.system "File name too long")) := by
  rw [loadWith, hnamed]
  simp only [h]
  rfl

theorem load_of_missing (hnamed : given named = some p) (h : look t cwd p = .missing) :
    loadWith yaml t cwd env named = .error (.notFound p) := by
  rw [loadWith, hnamed]
  simp only [h]
  rfl

theorem load_of_there (hnamed : given named = some p) (h : look t cwd p = .there) :
    loadWith yaml t cwd env named =
      (read yaml t cwd env (Path.ofText p) >>= fun c => c.elim (usual yaml t cwd env) pure) := by
  rw [loadWith, hnamed]
  simp only [h]
  congr 1
  funext c
  cases c <;> rfl

theorem consulted_iff_of_given_none (hnamed : given named = none) :
    Consulted yaml t cwd named path ↔ path = Path.ofText configFileName := by
  constructor
  · rintro (⟨hp, -⟩ | -)
    · cases hnamed.symm.trans hp
    · rfl
  · rintro rfl
    exact .usual fun p hp => nomatch hnamed.symm.trans hp

theorem consulted_iff_of_given_some (hnamed : given named = some p) :
    Consulted yaml t cwd named path ↔ look t cwd p = .there ∧ (path = Path.ofText p ∨
      path = Path.ofText configFileName ∧ HoldsNothing yaml t cwd (Path.ofText p)) := by
  constructor
  · rintro (⟨hp, hthere⟩ | h)
    · obtain rfl := Option.some.inj (hnamed.symm.trans hp)
      exact ⟨hthere, .inl rfl⟩
    · obtain ⟨hthere, hnothing⟩ := h p hnamed
      exact ⟨hthere, .inr ⟨rfl, hnothing⟩⟩
  · rintro ⟨hthere, rfl | ⟨rfl, hnothing⟩⟩
    · exact .named hnamed hthere
    · refine .usual fun q hq => ?_
      obtain rfl := Option.some.inj (hnamed.symm.trans hq)
      exact ⟨hthere, hnothing⟩

theorem load_of_there_breakdown_iff (hnamed : given named = some p)
    (hthere : look t cwd p = .there) : loadWith yaml t cwd env named = .error (.breakdown f) ↔
      Breaks yaml t cwd (Path.ofText p) f ∨ HoldsNothing yaml t cwd (Path.ofText p) ∧
        Breaks yaml t cwd (Path.ofText configFileName) f := by
  have hnone : read yaml t cwd env (Path.ofText p) = .ok none ↔ _ := read_eq_none_iff
  have husual : usual yaml t cwd env = .error (.breakdown f) ↔ _ := usual_breakdown_iff
  rw [load_of_there hnamed hthere, Outcome.bind_eq_error_iff, read_breakdown_iff, ← hnone, ← husual]
  refine or_congr_right ⟨?_, fun ⟨hnone, husual⟩ => ⟨none, hnone, husual⟩⟩
  rintro ⟨_ | c, hread, h⟩
  · exact ⟨hread, h⟩
  · cases h

/-- Whatever reads YAML: loading breaks down on a name that is too long and on what stands at a path
that is looked at, and on nothing else. -/
theorem load_breakdown_iff :
    loadWith yaml t cwd env named = .error (.breakdown f) ↔
      (∃ p, given named = some p ∧ look t cwd p = .refused ∧ f = .system "File name too long") ∨
      ∃ path, Consulted yaml t cwd named path ∧ Breaks yaml t cwd path f := by
  cases hnamed : given named with
  | none =>
    rw [load_of_given_none hnamed, usual_breakdown_iff]
    simp only [consulted_iff_of_given_none hnamed, reduceCtorEq, false_and, exists_false, false_or,
      exists_eq_left]
  | some p =>
    simp only [consulted_iff_of_given_some hnamed, Option.some.injEq, exists_eq_left']
    cases hlook : look t cwd p with
    | refused =>
      rw [load_of_refused hnamed hlook]
      simp [eq_comm]
    | missing =>
      rw [load_of_missing hnamed hlook]
      simp
    | there =>
      rw [load_of_there_breakdown_iff hnamed hlook]
      simp [or_and_right, exists_or, and_assoc]

end Reading

/-- The usual file, with bytes that are no text. -/
theorem load_breakdown_iff_bytes :
    let t : FileTree := ⟨[(["p"], .dir), (["p", "gql-clientgen.yaml"], .file ⟨#[0xff]⟩)]⟩
    load t ["p"] [] none = .error (.breakdown .undecodable) := by
  intro t
  have hfind : t.find? ["p"] (Path.ofText configFileName) = some ["p", "gql-clientgen.yaml"] := by
    decide +kernel
  have hb : Holds t ["p"] (Path.ofText configFileName) ⟨#[0xff]⟩ := by
    rw [Holds, hfind]
    rfl
  have hbytes : Text.decode? ⟨#[0xff]⟩ = none := by decide +kernel
  have hread : Data.ofBytes ⟨#[0xff]⟩ = .error (.breakdown .undecodable) := by
    rw [Data.ofBytes, hbytes]
  have hconsulted : Consulted Data.ofBytes t ["p"] none (Path.ofText configFileName) :=
    .usual fun _ h => nomatch h
  exact load_breakdown_iff.2 (.inr ⟨_, hconsulted, .unread hb hread nofun⟩)

/-! ### The reader of the program -/

/-- Bytes that the reader of the program breaks down on are no text, or the text of a document in
which something cannot be made. -/
theorem unmade_of_ofBytes {b : ByteArray} {f : Fault} (h : Data.ofBytes b = .error (.breakdown f)) :
    (Text.decode? b = none ∧ f = .undecodable) ∨
      ∃ s, Text.decode? b = some s ∧ Data.Unmade (Text.unifyLines s.toList) f := by
  rw [Data.ofBytes] at h
  cases hs : Text.decode? b with
  | none =>
    rw [hs] at h
    exact .inl ⟨rfl, (ReadError.breakdown.inj (Except.error.inj h)).symm⟩
  | some s =>
    rw [hs] at h
    exact .inr ⟨s, rfl, Data.unmade_of_ofText h⟩

/-- Data inside itself that the reader of the program gives comes from a node that holds itself. -/
theorem circular_of_ofBytes {b : ByteArray} {d : Data} (hd : Data.ofBytes b = .ok d) (h : d.Looped) :
    ∃ s g, Text.decode? b = some s ∧
      Yaml.Graph.ofText (Text.unifyLines s.toList) = .ok (some g) ∧ g.Circular g.Holds := by
  rw [Data.ofBytes] at hd
  cases hs : Text.decode? b with
  | none =>
    rw [hs] at hd
    cases hd
  | some s =>
    rw [hs] at hd
    obtain ⟨g, hg, hcause⟩ := Data.circular_of_ofText hd h
    exact ⟨s, g, rfl, hg, hcause⟩

end QueryTypes.ConfigFile
