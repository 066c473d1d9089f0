import QueryTypes.Output.Emitter
import QueryTypes.Text.Utf8
import QueryTypes.Work

/-! Writes files. A file is filled under another name beside its place and then takes the place in
one step, so that a place holds its old content or its new content, never a part of it. -/

namespace QueryTypes

/-- Steps that a disk can refuse for reasons of its own. -/
inductive DiskStep
  | makeDir (place : Location)
  | create (place : Location)
  | fill (place : Location)
  | replace (place : Location)
  | examine (place : Location)
  | remove (place : Location)
deriving DecidableEq, Repr

/-- What a disk refuses may depend on all that is on it. -/
abbrev Refusals := FileTree → DiskStep → Option Fault

/-- A disk that refuses nothing. -/
def Refusals.none : Refusals := fun _ _ => Option.none

namespace FileTree

/-- Makes the directories that a path leads through, as far as nothing is in the way. -/
def makePath (refuses : Refusals) : FileTree → Location → List String → FileTree × Except Fault Location
  | t, at_, [] => (t, .ok at_)
  | t, at_, s :: r =>
    if s = ".." then makePath refuses t at_.dropLast r
    else
      let place := at_ ++ [s]
      match t.node? place with
      | some .dir => makePath refuses t place r
      | some (.file _) => (t, .error (if r.isEmpty then .alreadyExists else .notDirectory))
      | none =>
        match refuses t (.makeDir place) with
        | some f => (t, .error f)
        | none => makePath refuses (t.set place .dir) place r

/-- A name that nothing in a directory has. -/
def freshName (t : FileTree) (dir : Location) (name : String) : String :=
  let candidate (i : Nat) : String := "." ++ name ++ "." ++ toString i
  (((List.range (t.entries.length + 1)).map candidate).find? fun n => !t.has (dir ++ [n])).getD name

/-- Takes away the file that was filled first, since a later step has failed. One that cannot be
looked at counts as missing; when it cannot be removed, that is what is told. -/
def discard (refuses : Refusals) (t : FileTree) (temporary : Location) (f : Fault) :
    FileTree × Except Fault Unit :=
  match refuses t (.examine temporary), refuses t (.remove temporary) with
  | some _, _ => (t, .error f)
  | none, some g => (t, .error g)
  | none, none => (t.remove temporary, .error f)

/-- Gives a file in a directory a new content. -/
def replaceFile (refuses : Refusals) (t : FileTree) (dir : Location) (name : String)
    (content : ByteArray) : FileTree × Except Fault Unit :=
  let temporary := dir ++ [t.freshName dir name]
  let place := dir ++ [name]
  match refuses t (.create temporary) with
  | some f => (t, .error f)
  | none =>
    let created := t.set temporary (.file ByteArray.empty)
    match refuses created (.fill temporary) with
    | some f => created.discard refuses temporary f
    | none =>
      let filled := created.set temporary (.file content)
      match refuses filled (.replace place), filled.isDir place with
      | some f, _ => filled.discard refuses temporary f
      | none, true => filled.discard refuses temporary .isDirectory
      | none, false => ((filled.remove temporary).set place (.file content), .ok ())

/-- Writes the file of a path. A path without a last name of its own is always in use. -/
def write (refuses : Refusals) (t : FileTree) (cwd : Location) (p : Path) (content : ByteArray) :
    FileTree × Except Fault Unit :=
  match t.makePath refuses (if p.isAbsolute then [] else cwd) p.segments.dropLast with
  | (t, .error f) => (t, .error f)
  | (t, .ok dir) =>
    match p.segments.getLast? with
    | none => (t, .error .busy)
    | some name =>
      if name = ".." then (t, .error .busy) else t.replaceFile refuses dir name content

end FileTree

/-- Writes files one after the other and stops at the first one that fails. -/
def writeFiles (refuses : Refusals) (files : List GeneratedFile) : Work Unit :=
  files.forM fun f => do
    let w ← get
    let (tree, outcome) := w.tree.write refuses w.cwd f.path (Text.encode f.content)
    set { w with tree }
    match outcome with
    | .ok () => Work.debug "generate" ("Wrote " ++ f.path.text)
    | .error e => Work.breakdown e

end QueryTypes
