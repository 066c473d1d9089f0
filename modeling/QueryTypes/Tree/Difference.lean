import QueryTypes.Tree.Basic

/-! What sets two trees apart below a place: files that are new or have other contents, and files
that are gone. Both are in the order of their paths. -/

namespace QueryTypes.FileTree

/-- The files below a place with their paths from it. -/
def filesBelow (t : FileTree) (l : Location) : List (String × ByteArray) :=
  t.entries.filterMap fun e =>
    match e.2, Path.below? l e.1 with
    | .file b, some ss => some (Path.relativeText ss, b)
    | _, _ => none

def sortedFiles (fs : List (String × ByteArray)) : List (String × ByteArray) :=
  fs.mergeSort fun a b => !decide (b.1 < a.1)

def writtenFiles (l : Location) (before after : FileTree) : List (String × ByteArray) :=
  let old := before.filesBelow l
  sortedFiles ((after.filesBelow l).filter fun f => old.lookup f.1 != some f.2)

def removedFiles (l : Location) (before after : FileTree) : List String :=
  let new := after.filesBelow l
  Text.sorted (((before.filesBelow l).filter fun f => (new.lookup f.1).isNone).map Prod.fst)

end QueryTypes.FileTree
