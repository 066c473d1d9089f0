import QueryTypes.Document.Parser
import QueryTypes.Failure
import QueryTypes.Glob.Set
import QueryTypes.Script.Template
import QueryTypes.Text.Utf8

/-! The files of a project and what is defined in them: all files at once, or one file that
changed. Files stand in the order of their paths. -/

namespace QueryTypes

/-- A file with what was read from it and what could not be read. -/
structure ClientFile where
  place : Location
  definitions : List Definition
  problems : List Diagnostic
deriving Inhabited

namespace ClientFile

/-- Names of scripts end in these; documents stand in their templates. -/
def scriptSuffixes : List String := [".js", ".jsx", ".ts", ".tsx", ".mjs", ".cjs"]

/-- The texts of a file that hold documents. -/
def bodies (tag : String) (l : Location) (text : List Char) : List (List Char) :=
  let all := if scriptSuffixes.contains (Path.ofLocation l).suffix then Template.texts tag.toList text
    else [text]
  all.filter fun b => b.any fun c => !Text.isBlank c

/-- A file that could not be read. What the system or the codec says of the cause stands behind a
colon; these are not the program's words, and they are left out. -/
def unreadable (l : Location) : ClientFile :=
  ⟨l, [], [⟨"Could not read " ++ Location.text l, []⟩]⟩

/-- What texts define, one after the other; a text with a syntax error defines nothing. -/
def ofBodies (l : Location) : List (List Char) → Except Fault ClientFile
  | [] => .ok ⟨l, [], []⟩
  | b :: r =>
    match parseDefinitions ⟨Location.text l, b⟩ true with
    | .ok ds => do
      let rest ← ofBodies l r
      return { rest with definitions := ds ++ rest.definitions }
    | .error (.at d) => do
      let rest ← ofBodies l r
      return { rest with problems := d :: rest.problems }
    | .error .cutShort => .error (.outOfRange "string index out of range")

def read (tag : String) (t : FileTree) (l : Location) : Except Fault ClientFile :=
  match (t.bytes? l).bind Text.decode? with
  | none => .ok (unreadable l)
  | some text => ofBodies l (bodies tag l (Text.unifyLines text.toList))

/-- The files at some places, up to one that cannot be dealt with. -/
def readAll (tag : String) (t : FileTree) : List Location → List ClientFile × Option Fault
  | [] => ([], none)
  | l :: r =>
    match read tag t l with
    | .error f => ([], some f)
    | .ok file =>
      let (files, f) := readAll tag t r
      (file :: files, f)

/-- The places of the files that belong to a project. -/
def places (g : GlobSet) (t : FileTree) : Except Fault (List Location) :=
  match g.files t with
  | .ok paths => .ok ((paths.map fun p => Path.resolve g.root (Path.ofText p)).eraseDups)
  | .error .absolute => .error (.notSupported "Non-relative patterns are unsupported")
  | .error .noSegments => .error (.outOfRange "tuple index out of range")
  | .error _ => .error (.badValue "Unacceptable pattern")

/-- Puts a file in the place of the one that was at its location, in the order of paths. -/
def put (f : ClientFile) (files : List ClientFile) : List ClientFile :=
  let all := if files.any (·.place == f.place) then
      files.map fun g => if g.place = f.place then f else g
    else files ++ [f]
  all.mergeSort fun a b => !(decide (Location.text b.place < Location.text a.place))

def drop (l : Location) (files : List ClientFile) : List ClientFile :=
  files.filter fun f => f.place != l

end ClientFile
end QueryTypes
