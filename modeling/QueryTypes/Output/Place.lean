import QueryTypes.Failure
import QueryTypes.Request
import QueryTypes.Shape.Syntax

/-! Where generated files go, and how one refers to another. -/

namespace QueryTypes

/-- Where a generation puts its files: below one directory or beside each source, with the
extension of the language. -/
structure Placement where
  output : String
  beside : Bool
  sharedFile : Option String
  extension : String
  cwd : Location
deriving Repr

namespace Placement

/-- An extension without dots in front. -/
def bareExtension (l : Language) (o : Options) : String :=
  String.ofList (((given o.fileExtension).getD l.extension).toList.dropWhile (· == '.'))

def fileName (p : Placement) (name : String) : String := name ++ "." ++ p.extension

/-- A single file for everything, when the output itself has the extension. -/
def bundle? (p : Placement) : Option Path :=
  if !p.beside && ("." ++ p.extension).toList.reverse.isPrefixOf p.output.toList.reverse then
    some (Path.ofText p.output)
  else none

/-- The file of a module. -/
def module (p : Placement) (source : Option Path) (name : String) : Path :=
  let base := match p.beside, source with
    | true, some s => s.parent.child p.output
    | _, _ => Path.ofText p.output
  base.child (p.fileName name)

/-- The file of the shared types; beside sources it is placed where they all lie below. -/
def shared (p : Placement) (sources : List Path) : Path :=
  match given p.sharedFile with
  | some f => Path.ofText f
  | none =>
    let base :=
      if p.beside then
        let dirs := sources.map fun s => Path.resolve p.cwd s.parent
        (Path.ofLocation (if dirs.isEmpty then p.cwd else Path.commonStart dirs)).child p.output
      else Path.ofText p.output
    base.child (p.fileName "globalTypes")

end Placement

/-- Takes an ending away, if a text has it. -/
def dropEnding (ending s : List Char) : List Char :=
  match Text.after? ending.reverse s.reverse with
  | some r => r.reverse
  | none => s

/-- How a file in one directory refers to another file: the way there, without the extension. A
way down starts with a dot as well. -/
def moduleSpecifier (cwd : Location) (start target : Path) (extension : String) :
    Except Fault String :=
  let bare := String.ofList (dropEnding ('.' :: extension.toList) target.text.toList)
  if bare = "" then .error (.badValue "no path specified")
  else
    let way := Path.betweenText (Path.resolve cwd start) (Path.resolve cwd (Path.ofText bare))
    .ok (if way.toList.head? = some '.' then way else "./" ++ way)

end QueryTypes
