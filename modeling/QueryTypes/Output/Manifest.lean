import QueryTypes.Digest.Sha256
import QueryTypes.Document.Reach
import QueryTypes.Json.Printer
import QueryTypes.Output.Emitter
import QueryTypes.Shape.Level

/-! A manifest of all operations and fragments, and the map of operation ids. -/

namespace QueryTypes

def ShapeError.failure : ShapeError → Failure
  | anonymous => .breakdown (.missingAttribute ShapeError.anonymous.message)
  | endless => .breakdown .endless
  | e => .generation e.message

/-- The path of the file that a definition was read from. -/
def sourcePath (o : Option Origin) : Option Path := (sourceFile o).map Path.ofText

namespace Manifest

def textOrNull : Option String → Json
  | some s => .str s
  | none => .null

def texts (xs : List String) : Json := .arr (xs.map .str)

/-- The id of an operation: a digest of its whole text. -/
def operationId (fullText : String) : String := Digest.ofText fullText

def variable_ (v : VariableDefinition) : Json :=
  .obj [("name", .str v.name.text), ("type", .str v.type.text)]

def operation (s : Schema) (table : Table Fragment) (o : Operation) : Except ShapeError Json :=
  match o.name, s.root o.kind with
  | none, _ => .error .anonymous
  | some _, none => .error (.noRoot o.kind)
  | some name, some root =>
    let full := o.fullText table
    .ok (.obj [
      ("operationName", .str name.text),
      ("operationType", .str o.kind.text),
      ("rootType", .str root),
      ("filePath", textOrNull ((sourcePath o.origin).map Path.text)),
      ("source", .str (Printer.operation o)),
      ("sourceWithFragments", .str full),
      ("fragmentsReferenced", texts (o.uses table)),
      ("variables", .arr (o.variableDefs.map variable_)),
      ("operationId", .str (operationId full))])

def fragment (table : Table Fragment) (f : Fragment) : Json :=
  .obj [
    ("fragmentName", .str f.name.text),
    ("typeCondition", .str f.condition.text),
    ("filePath", textOrNull ((sourcePath f.origin).map Path.text)),
    ("source", .str (Printer.fragment f)),
    ("fragmentsReferenced", texts (f.uses table))]

def ofDocument (s : Schema) (d : Document) : Except ShapeError Json := do
  let table := d.fragmentTable
  let operations ← d.operations.mapM (operation s table)
  return .obj [("operations", .arr operations), ("fragments", .arr (table.values.map (fragment table)))]

/-- The name and the whole text of each operation by its id. -/
def operationIds (d : Document) : Except ShapeError Json := do
  let table := d.fragmentTable
  let entries ← d.operations.mapM fun o =>
    match o.name with
    | none => .error ShapeError.anonymous
    | some name =>
      let full := o.fullText table
      .ok (operationId full, Json.obj [("name", .str name.text), ("source", .str full)])
  return .obj (Table.ofList entries)

def fileText (v : Json) : String := Json.pretty v ++ "\n"

/-- The emitter of the manifest. -/
def emitter : Emitter where
  label := "manifest"
  emit e := do
    let v ← (ofDocument e.schema e.document).mapError ShapeError.failure
    return [⟨Path.ofText e.output, fileText v, none⟩]

end Manifest
end QueryTypes
