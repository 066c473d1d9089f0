import QueryTypes.Path.Basic

/-! A tree of files and directories as a value. A place is a directory when it is the top or has
an entry that says so; writing keeps every entry below a directory. -/

namespace QueryTypes

inductive FileNode
  | file (bytes : ByteArray)
  | dir
deriving Inhabited

structure FileTree where
  entries : List (Location × FileNode)
deriving Inhabited

namespace FileTree

def empty : FileTree := ⟨[]⟩

def node? (t : FileTree) (l : Location) : Option FileNode :=
  if l = [] then some .dir else t.entries.lookup l

def isFile (t : FileTree) (l : Location) : Bool :=
  match t.node? l with
  | some (.file _) => true
  | _ => false

def isDir (t : FileTree) (l : Location) : Bool :=
  match t.node? l with
  | some .dir => true
  | _ => false

def has (t : FileTree) (l : Location) : Bool := (t.node? l).isSome

def bytes? (t : FileTree) (l : Location) : Option ByteArray :=
  match t.node? l with
  | some (.file b) => some b
  | _ => none

def set (t : FileTree) (l : Location) (n : FileNode) : FileTree :=
  ⟨go t.entries⟩
where
  go : List (Location × FileNode) → List (Location × FileNode)
  | [] => [(l, n)]
  | (k, m) :: r => if k = l then (k, n) :: r else (k, m) :: go r

/-- Removes a place with everything below it. -/
def remove (t : FileTree) (l : Location) : FileTree :=
  ⟨t.entries.filter fun e => !l.isPrefixOf e.1⟩

/-- Every place above another one, from the top down, the top itself left out. -/
def above (l : Location) : List Location :=
  (List.range (l.length - 1)).map fun i => l.take (i + 1)

/-- Makes the missing directories down to a place, where nothing else is in the way. -/
def makeDirs (t : FileTree) (l : Location) : FileTree :=
  (above l ++ [l]).foldl (fun t d => if t.has d then t else t.set d .dir) t

/-- Puts a file and the directories above it. -/
def put (t : FileTree) (l : Location) (b : ByteArray) : FileTree :=
  (t.makeDirs l.dropLast).set l (.file b)

/-- The names directly inside a directory. -/
def children (t : FileTree) (l : Location) : List String :=
  t.entries.filterMap fun e =>
    match Path.below? l e.1 with
    | some [n] => some n
    | _ => none

/-- The directories below a place, as paths from it, the place itself first. -/
def dirsBelow (t : FileTree) (l : Location) : List (List String) :=
  [] :: t.entries.filterMap fun e =>
    match e.2, Path.below? l e.1 with
    | .dir, some (n :: r) => some (n :: r)
    | _, _ => none

/-- Follows names one by one, as far as they lead through directories. An empty name or `.` stays
in a directory. -/
def follow (t : FileTree) : Location → List String → Option Location
  | at_, [] => some at_
  | at_, s :: r =>
    if !t.isDir at_ then none
    else if s = "" ∨ s = "." then follow t at_ r
    else if s = ".." then follow t at_.dropLast r
    else if t.has (at_ ++ [s]) then follow t (at_ ++ [s]) r
    else none

/-- The most bytes of a name, and of a path. -/
def nameLimit : Nat := 255

def pathLimit : Nat := 4095

/-- Whether following names comes, through directories, to one that is too long for a name. -/
def meetsLongName (t : FileTree) : Location → List String → Bool
  | _, [] => false
  | at_, s :: r =>
    t.isDir at_ && (nameLimit < s.utf8ByteSize ||
      (t.follow at_ [s]).any fun next => t.meetsLongName next r)

/-- Whether a path is too long for looking it up. -/
def isTooLong (t : FileTree) (cwd : Location) (p : Path) : Bool :=
  pathLimit < p.text.utf8ByteSize ||
    t.meetsLongName (if p.isAbsolute then [] else cwd) p.segments

/-- The place that a path leads to, when there is something there. -/
def find? (t : FileTree) (cwd : Location) (p : Path) : Option Location :=
  t.follow (if p.isAbsolute then [] else cwd) p.segments

/-- The same for a path as it is written: a slash at its end asks for a directory. -/
def findText? (t : FileTree) (cwd : Location) (s : String) : Option Location :=
  if s = "" then none
  else t.follow (if s.toList.head? = some '/' then [] else cwd) (Text.split '/' s)

end FileTree
end QueryTypes
