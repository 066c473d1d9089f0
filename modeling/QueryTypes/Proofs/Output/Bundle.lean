import QueryTypes.Proofs.Output.Modules

/-!
# One file or many

The same declarations are written whether each operation and fragment has a file of its own or all
of them share one. The single file holds, below one header, what the others hold below theirs.
-/

namespace QueryTypes

theorem textOfLines_append (a b : List String) :
    textOfLines (a ++ b) = textOfLines a ++ textOfLines b := by
  rw [textOfLines, List.map_append, String.join_append, textOfLines, textOfLines]

theorem textOfLines_cons (s : String) (ls : List String) :
    textOfLines (s :: ls) = s ++ "\n" ++ textOfLines ls := by
  rw [textOfLines, List.map_cons, String.join_cons, textOfLines]

theorem textOfLines_flatMap {α : Type} (f : α → List String) (xs : List α) :
    textOfLines (xs.flatMap f) = String.join (xs.map fun x => textOfLines (f x)) := by
  induction xs with
  | nil => rfl
  | cons x xs ih =>
    rw [List.flatMap_cons, textOfLines_append, ih, List.map_cons, String.join_cons]

namespace Style

/-- What a module declares, below its header and imports. -/
def body (y : Style) (m : ModuleShape) : List String :=
  title m
    ++ m.objects.flatMap (fun o => "" :: y.object y.readOnly o)
    ++ m.arguments.elim [] (fun o => "" :: y.object y.readOnly o)

/-- What the file of the shared types declares, below its header. -/
def sharedBody (y : Style) (s : SharedShapes) : List String :=
  mark "START"
    ++ s.enums.flatMap (fun e => "" :: y.enum e)
    ++ s.inputs.flatMap (fun o => "" :: y.object false o)
    ++ "" :: mark "END"

/-- What stands above the declarations of a module. -/
def top (y : Style) (imports : List String) (specifier : String) : List String :=
  y.header ++ "" :: y.importLines imports specifier

theorem moduleLines_eq (y : Style) (m : ModuleShape) (specifier : String) :
    y.moduleLines m specifier = y.top m.imports specifier ++ y.body m := by
  simp only [moduleLines, top, body, List.append_assoc, List.cons_append]

theorem sharedLines_eq (y : Style) (s : SharedShapes) :
    y.sharedLines s = (y.header ++ [""]) ++ y.sharedBody s := by
  simp only [sharedLines, sharedBody, List.append_assoc, List.cons_append, List.nil_append]

theorem bundleLines_eq (y : Style) (ms : List ModuleShape) (s : SharedShapes) :
    y.bundleLines ms s = y.header ++ ms.flatMap (fun m => "" :: y.body m)
      ++ if s.isEmpty then [] else "" :: y.sharedBody s := by
  simp only [bundleLines, body, sharedBody, List.append_assoc, List.cons_append]

end Style

/-- A file that is cut in two. -/
structure CutFile where
  file : GeneratedFile
  top : String
  below : String
  whole : file.content = top ++ below

namespace Types

variable {l : Language} {e : Emission} {files bundled : List GeneratedFile} {ms : List ModuleShape}
  {path : Path}

/-- A module is cut below its imports. -/
def IsCutFor (l : Language) (e : Emission) (shared : Path) (m : ModuleShape) (c : CutFile) : Prop :=
  IsPlacedFor (placement l e) m c.file ∧
    ∃ specifier, moduleSpecifier e.cwd c.file.path.parent shared (placement l e).extension =
        .ok specifier ∧
      c.top = textOfLines ((Style.ofOptions l e.options).top m.imports specifier)

theorem exists_cuts {shared : Path} {written : List GeneratedFile}
    (h : List.Forall₂ (fun m f => IsFileOf l e shared m f ∧ IsPlacedFor (placement l e) m f)
      ms written) :
    ∃ cuts : List CutFile, List.Forall₂ (IsCutFor l e shared) ms cuts ∧
      cuts.map CutFile.file = written ∧
      cuts.map CutFile.below =
        ms.map fun m => textOfLines ((Style.ofOptions l e.options).body m) := by
  induction h with
  | nil => exact ⟨[], .nil, rfl, rfl⟩
  | @cons m f ms written hf hrest ih =>
    obtain ⟨⟨specifier, hspecifier, hcontent⟩, hplaced⟩ := hf
    obtain ⟨cuts, hcuts, hfiles, hbelow⟩ := ih
    rw [Style.moduleLines_eq, textOfLines_append] at hcontent
    refine ⟨⟨f, _, _, hcontent⟩ :: cuts, .cons ⟨hplaced, specifier, hspecifier, rfl⟩ hcuts, ?_, ?_⟩
    · rw [List.map_cons, hfiles]
    · rw [List.map_cons, List.map_cons, hbelow]

theorem textOfLines_blank_cons (ls : List String) :
    textOfLines ("" :: ls) = "\n" ++ textOfLines ls := by
  rw [textOfLines_cons, String.empty_append]

theorem textOfLines_bodies {y : Style} {cuts : List CutFile}
    (h : cuts.map CutFile.below = ms.map fun m => textOfLines (y.body m)) :
    textOfLines (ms.flatMap fun m => "" :: y.body m) =
      String.join (cuts.map fun c => "\n" ++ c.below) := by
  have hblank := congrArg (List.map fun s => "\n" ++ s) h
  rw [List.map_map, List.map_map] at hblank
  simp only [textOfLines_flatMap, textOfLines_blank_cons]
  exact congrArg String.join hblank.symm

/-- The file of the shared types, cut below its header. -/
def sharedCut (l : Language) (e : Emission) (ms : List ModuleShape) : CutFile :=
  let y := Style.ofOptions l e.options
  let shared := e.context.shared e.options.omitDeprecated ms
  { file := ⟨sharedPath l e ms, textOfLines (y.sharedLines shared), none⟩
    top := textOfLines (y.header ++ [""])
    below := textOfLines (y.sharedBody shared)
    whole := by rw [Style.sharedLines_eq, textOfLines_append] }

/-- One file or many. When the declarations for a document are written to a directory and, with
nothing else changed, to a single file, the single file is the header followed by a blank line and
what is below the imports for each module in turn, and then, exactly if the directory has a file of
shared types, by a blank line and what that file has below its header. -/
theorem bundle_joins_files (l : Language) (e : Emission) (single : String)
    (h : emit l Overrides.none e = .ok files) (hb : (placement l e).bundle? = none)
    (h' : emit l Overrides.none { e with output := single } = .ok bundled)
    (hb' : (placement l { e with output := single }).bundle? = some path) :
    let y := Style.ofOptions l e.options
    ∃ (ms : List ModuleShape) (cuts : List CutFile) (shared : Option CutFile),
      modules e.context e.document = .ok ms ∧
      List.Forall₂ (IsCutFor l e (sharedPath l e ms)) ms cuts ∧
      (∀ c ∈ shared, c.file.path = sharedPath l e ms ∧ c.file.source = none ∧
        c.top = textOfLines (y.header ++ [""])) ∧
      files = (cuts ++ shared.toList).map CutFile.file ∧
      bundled = [⟨path, textOfLines y.header ++
        String.join ((cuts ++ shared.toList).map fun c => "\n" ++ c.below), none⟩] := by
  intro y
  obtain ⟨ms, written, hms, hwritten, hfiles⟩ := exists_placed_of_emit h hb
  obtain ⟨ms', hms', hbundled⟩ := exists_of_emit_bundle h' hb'
  -- neither the modules nor the shared types depend on the output
  obtain rfl : ms = ms' := Except.ok.inj (hms.symm.trans hms')
  obtain ⟨cuts, hcuts, rfl, hbelow⟩ := exists_cuts hwritten
  rw [Style.bundleLines_eq, textOfLines_append, textOfLines_append] at hbundled
  change bundled = [⟨path, textOfLines y.header ++ _ ++
    textOfLines (if (e.context.shared e.options.omitDeprecated ms).isEmpty then [] else _),
    none⟩] at hbundled
  rw [textOfLines_bodies hbelow] at hbundled
  by_cases hempty : (e.context.shared e.options.omitDeprecated ms).isEmpty = true
  · rw [if_pos hempty, List.append_nil] at hfiles
    rw [if_pos hempty] at hbundled
    refine ⟨ms, cuts, none, hms, hcuts, by simp, ?_, ?_⟩
    · rw [Option.toList_none, List.append_nil, hfiles]
    · rw [Option.toList_none, List.append_nil, hbundled]
      exact congrArg (fun c => [(⟨path, c, none⟩ : GeneratedFile)]) (String.append_empty)
  · rw [if_neg hempty] at hfiles
    rw [if_neg hempty, textOfLines_blank_cons] at hbundled
    refine ⟨ms, cuts, some (sharedCut l e ms), hms, hcuts, ?_, ?_, ?_⟩
    · rintro c ⟨⟩
      exact ⟨rfl, rfl, rfl⟩
    · rw [hfiles, List.map_append]
      rfl
    · rw [hbundled, String.append_assoc, List.map_append, String.join_append, Option.toList_some,
        List.map_singleton, String.join_cons, String.join_nil, String.append_empty]
      rfl

theorem bundle_joins_files_filtered :
    ∃ (files bundled : List GeneratedFile) (cuts : List CutFile) (shared : Option CutFile),
      emit .typescript Overrides.none filtered = .ok files ∧
      files.map (fun f => f.path.text) = ["out/Q.ts", "out/globalTypes.ts"] ∧
      emit .typescript Overrides.none { filtered with output := "out.ts" } = .ok bundled ∧
      files = (cuts ++ shared.toList).map CutFile.file ∧
      bundled.map GeneratedFile.content =
        [textOfLines (Style.ofOptions .typescript filtered.options).header ++
          String.join ((cuts ++ shared.toList).map fun c => "\n" ++ c.below)] := by
  obtain ⟨files, hfiles⟩ : ∃ files, emit .typescript Overrides.none filtered = .ok files :=
    Outcome.exists_of_isSome (by decide +kernel)
  obtain ⟨bundled, hbundled⟩ :
      ∃ bundled, emit .typescript Overrides.none { filtered with output := "out.ts" } = .ok bundled :=
    Outcome.exists_of_isSome (by decide +kernel)
  have hsingle : (placement .typescript { filtered with output := "out.ts" }).bundle? =
      some (Path.ofText "out.ts") := by
    decide +kernel
  obtain ⟨-, cuts, shared, -, -, -, heq, hjoined⟩ :=
    bundle_joins_files .typescript filtered "out.ts" hfiles (by decide +kernel) hbundled hsingle
  have hseen : (emit .typescript Overrides.none filtered).toOption.map
      (List.map fun f => f.path.text) = some ["out/Q.ts", "out/globalTypes.ts"] := by
    decide +kernel
  rw [hfiles, Except.toOption, Option.map_some] at hseen
  exact ⟨files, bundled, cuts, shared, hfiles, Option.some.inj hseen, hbundled, heq, by
    rw [hjoined]; rfl⟩

end Types
end QueryTypes
