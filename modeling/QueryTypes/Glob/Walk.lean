import QueryTypes.Path.Basic
import QueryTypes.Tree.Basic

/-! Walks a tree along a pattern, segment by segment. In a name, `*`, `?` and classes such as `[a-z]`
or `[!0-9]` stand for others. `**` alone in a segment visits every directory at and below the current
one; with nothing after it the pattern finds directories. -/

namespace QueryTypes.Glob

inductive NamePiece
  | run
  | one
  | char (c : Char)
  | oneOf (negated : Bool) (ranges : List (Char × Char))
deriving DecidableEq, Repr

/-- The ranges of a class; a hyphen at either end stands for itself. -/
def classRanges : List Char → List (Char × Char)
  | a :: '-' :: b :: r => (a, b) :: classRanges r
  | a :: r => (a, a) :: classRanges r
  | [] => []

/-- What stands inside a class and after it; a closing bracket in front stands for itself. -/
def classBody? (s : List Char) : Option (Bool × List Char × List Char) :=
  let (negated, r) := match s with
    | '!' :: r => (true, r)
    | _ => (false, s)
  let (first, r) := match r with
    | ']' :: t => ([']'], t)
    | _ => ([], r)
  (Text.cut? ']' r).map fun p => (negated, first ++ p.1, p.2)

def namePieces : Nat → List Char → List NamePiece
  | 0, _ => []
  | _, [] => []
  | n + 1, c :: r =>
    if c = '*' then .run :: namePieces n r
    else if c = '?' then .one :: namePieces n r
    else if c = '[' then
      match classBody? r with
      | some (negated, inside, rest) => .oneOf negated (classRanges inside) :: namePieces n rest
      | none => .char c :: namePieces n r
    else .char c :: namePieces n r

def suffixes : List Char → List (List Char)
  | [] => [[]]
  | c :: r => (c :: r) :: suffixes r

def NamePiece.accepts (c : Char) : NamePiece → Bool
  | run | one => true
  | char d => c == d
  | oneOf negated ranges => (ranges.any fun r => r.1 ≤ c && c ≤ r.2) != negated

def matchName : List NamePiece → List Char → Bool
  | [], s => s.isEmpty
  | .run :: ps, s => (suffixes s).any (matchName ps)
  | p :: ps, c :: r => p.accepts c && matchName ps r
  | _ :: _, [] => false

def nameMatches (pattern name : String) : Bool :=
  matchName (namePieces pattern.length pattern.toList) name.toList

inductive Step
  | name (s : String)
  | wild (pattern : String)
  | dirs
  /-- a slash at the end of the pattern: what comes before it is a directory -/
  | stop
deriving DecidableEq, Repr

/-- Patterns that cannot be walked. -/
inductive WalkError
  | empty
  | absolute
  | noSegments
  | starsInName
deriving DecidableEq, Repr

def hasStars (s : String) : Bool := Text.occurs ['*', '*'] s.toList

def isWild (s : String) : Bool := s.toList.any fun c => c == '*' || c == '?' || c == '['

def step (s : String) : Step :=
  if s = "**" then .dirs else if isWild s then .wild s else .name s

def steps (pattern : String) : Except WalkError (List Step) :=
  if pattern = "" then .error .empty
  else
    let p := Path.ofText pattern
    if p.isAbsolute then .error .absolute
    else
      let last := if pattern.toList.getLast? = some '/' then [Step.stop] else []
      if p.segments.isEmpty && last.isEmpty then .error .noSegments
      else if p.segments.any fun s => s != "**" && hasStars s then .error .starsInName
      else .ok (p.segments.map step ++ last)

/-- The paths found from a directory, each written from the place where the walk began. -/
def walk (t : FileTree) (base : Location) : List Step → List String → List (List String)
  | [], at_ => [at_]
  | .stop :: _, at_ => [at_]
  | s :: rest, at_ =>
    let here := Path.collapse (base ++ at_)
    let usable (p : List String) : Bool :=
      let l := Path.collapse (base ++ p)
      if rest.isEmpty then t.has l else t.isDir l
    match s with
    | .name n => if usable (at_ ++ [n]) then walk t base rest (at_ ++ [n]) else []
    | .wild w =>
      let names := (t.children here).filter fun n => nameMatches w n && usable (at_ ++ [n])
      names.flatMap fun n => walk t base rest (at_ ++ [n])
    | .dirs => (t.dirsBelow here).flatMap fun d => walk t base rest (at_ ++ d)
    | .stop => [at_]

/-- Every path that a pattern finds below a directory. -/
def find (t : FileTree) (base : Location) (pattern : String) : Except WalkError (List (List String)) := do
  let ss ← steps pattern
  return if t.isDir base then walk t base ss [] else []

end QueryTypes.Glob
