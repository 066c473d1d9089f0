import QueryTypes.Output.Manifest
import QueryTypes.Output.Place
import QueryTypes.Shape.Layout
import QueryTypes.Shape.Shared
import QueryTypes.Text.Utf8
import QueryTypes.Tree.Basic

/-! Type declarations for a document: a file for each operation and fragment and one for the
types that they share, or everything in one file. -/

namespace QueryTypes

/-- Texts that stand in for the usual layouts. -/
structure Overrides where
  definition : Option (Except Fault String)
  shared : Option (Except Fault String)
  bundle : Option (Except Fault String)
  /-- in place of the parts that the usual layouts are made of -/
  parts : Option (Except Fault String)
deriving Inhabited

namespace Overrides

def none : Overrides := ⟨Option.none, Option.none, Option.none, Option.none⟩

/-- The layouts of a language that a directory replaces. -/
def ofDirectory (t : FileTree) (cwd : Location) (dir : String) (l : Language) : Overrides :=
  let text? (name : String) : Option (Except Fault String) :=
    let path := (if hasSlash dir then dir else dir ++ "/") ++ l.text ++ "/" ++ name
    ((t.findText? cwd path).bind t.bytes?).map fun b =>
      match Text.decode? b with
      | some s => .ok (String.ofList (Text.unifyLines s.toList))
      | Option.none => .error .undecodable
  ⟨text? "definition.j2", text? "global_types.j2", text? "bundle.j2", text? "macros.j2"⟩
where
  hasSlash (dir : String) : Bool := dir.toList.getLast? == some '/'

/-- A layout that is not replaced needs the usual parts. -/
def apply (o : Overrides) (override : Option (Except Fault String)) (lines : List String) :
    Except Fault String :=
  match override, o.parts with
  | some r, _ => r
  | Option.none, some (.error f) => .error f
  | Option.none, some (.ok _) => .error (.undefined "no such part")
  | Option.none, Option.none => .ok (textOfLines lines)

end Overrides

namespace Types

def modules (cx : ShapeContext) (d : Document) : Except ShapeError (List ModuleShape) := do
  let operations ← d.operations.mapM cx.operation
  let fragments ← cx.fragments.values.mapM cx.fragment
  return operations ++ fragments

def placement (l : Language) (e : Emission) : Placement :=
  ⟨e.output, e.beside, e.options.sharedTypesFile, Placement.bareExtension l e.options, e.cwd⟩

def emit (l : Language) (layouts : Overrides) (e : Emission) : Except Failure (List GeneratedFile) := do
  let cx : ShapeContext := ⟨e.schema, e.document.fragmentTable, ScalarMap.ofOptions e.options⟩
  let ms ← (modules cx e.document).mapError ShapeError.failure
  let shared := cx.shared e.options.omitDeprecated ms
  let y := Style.ofOptions l e.options
  let p := placement l e
  match p.bundle? with
  | some path =>
    let content ← (layouts.apply layouts.bundle (y.bundleLines ms shared)).mapError .breakdown
    return [⟨path, content, none⟩]
  | none =>
    let source (m : ModuleShape) : Option Path := m.file.map Path.ofText
    let sharedPath := p.shared (ms.filterMap source)
    let files ← ms.mapM fun m => do
      let path := p.module (source m) m.name
      let specifier ← (moduleSpecifier p.cwd path.parent sharedPath p.extension).mapError .breakdown
      let content ← (layouts.apply layouts.definition (y.moduleLines m specifier)).mapError .breakdown
      return (⟨path, content, source m⟩ : GeneratedFile)
    if shared.isEmpty then return files
    let content ← (layouts.apply layouts.shared (y.sharedLines shared)).mapError .breakdown
    return files ++ [⟨sharedPath, content, none⟩]

/-- The emitter of a language. -/
def emitter (l : Language) (layouts : Overrides) : Emitter := ⟨"types", emit l layouts⟩

end Types

/-- The targets that can be generated without further emitters. -/
def Emitters.builtin : Emitters := [
  (.json, Manifest.emitter),
  (.typescript, Types.emitter .typescript Overrides.none),
  (.flow, Types.emitter .flow Overrides.none)]

end QueryTypes
