import QueryTypes.Glob.Pattern
import QueryTypes.Glob.Walk
import QueryTypes.Text.Basic

/-! Include patterns less exclude patterns below a root directory: what they find in a tree, what
they match, and which directories have to be watched for them. Alternatives in braces are separated
by commas: a group stands for each of its alternatives, and the leftmost group without braces inside
is expanded first. -/

namespace QueryTypes.Glob

/-- A text around a group: what stands before it, inside it and after it. -/
structure Group where
  before : List Char
  inside : List Char
  after : List Char
deriving DecidableEq, Repr

/-- Looks for the first closing brace with an opening one as the brace before it. `open_` holds
what was read since the last opening brace, backwards, and `before` what stands before that. -/
def seekGroup (before : List Char) : Option (List Char) → List Char → Option Group
  | _, [] => none
  | none, c :: r =>
    if c = '\x7b' then seekGroup before (some []) r else seekGroup (c :: before) none r
  | some open_, c :: r =>
    if c = '\x7b' then seekGroup (open_ ++ '\x7b' :: before) (some []) r
    else if c = '\x7d' then some ⟨before.reverse, open_.reverse, r⟩
    else seekGroup before (some (c :: open_)) r

def firstGroup? (s : List Char) : Option Group := seekGroup [] none s

/-- Expands at most `n` groups on top of each other. -/
def expand : Nat → List Char → List (List Char)
  | 0, s => [s]
  | n + 1, s =>
    match firstGroup? s with
    | none => [s]
    | some g => (Text.splitOn ',' g.inside).flatMap fun choice => expand n (g.before ++ choice ++ g.after)

/-- Every way to choose an alternative in each group. Each step takes one opening brace away. -/
def expandBraces (s : List Char) : List (List Char) := expand (s.count '\x7b') s

end QueryTypes.Glob

namespace QueryTypes

structure GlobSet where
  root : Location
  includes : List String
  excludes : List String
deriving Inhabited

namespace GlobSet

/-- Slashes for backslashes, and no `./` in front. -/
def normalize (pattern : String) : List Char :=
  dropDots pattern.length (Text.replace ['\\'] ['/'] pattern.toList)
where
  dropDots : Nat → List Char → List Char
  | 0, s => s
  | n + 1, s => match s with
    | '.' :: '/' :: r => dropDots n r
    | s => s

def expandAll (patterns : List String) : List String :=
  patterns.flatMap fun p => (Glob.expandBraces (normalize p)).map String.ofList

def ofPatterns (root : Location) (includes excludes : List String) : GlobSet :=
  ⟨root, expandAll includes, expandAll excludes⟩

/-- A place as a path from the root, when it is the root or below it. -/
def relative? (g : GlobSet) (l : Location) : Option String :=
  (Path.below? g.root l).map Path.relativeText

/-- A text cut at each of its slashes, and the whole text. -/
def stems (path : String) : List String :=
  let parts := Text.split '/' path
  (List.range parts.length).map fun i => Text.joinWith "/" (parts.take (i + 1))

/-- An exclude pattern matches the path or a directory above it. -/
def isExcluded (g : GlobSet) (path : String) : Bool :=
  g.excludes.any fun p => (stems path).any fun s => Glob.matchPath p.toList s.toList

def isIncluded (g : GlobSet) (path : String) : Bool :=
  g.includes.any fun p => Glob.matchPath p.toList path.toList

def matchesLocation (g : GlobSet) (l : Location) : Bool :=
  match g.relative? l with
  | none => false
  | some path => g.isIncluded path && !g.isExcluded path

/-- The files that the patterns find, as paths from the root, sorted. -/
def files (g : GlobSet) (t : FileTree) : Except Glob.WalkError (List String) := do
  let found ← g.includes.mapM (Glob.find t g.root)
  let paths := (found.flatten.filter fun p => t.isFile (Path.collapse (g.root ++ p))).map Path.relativeText
  return Text.sorted ((paths.filter fun p => !g.isExcluded p).eraseDups)

/-- The nearest directory at or above a path that exists, but not above the root. Every place exists
or does not: that the system may refuse to look for one, for a name that is too long or in a directory
that may not be searched, is left out. -/
def nearest (t : FileTree) (root : Location) : Nat → List String → List String
  | 0, p => p
  | n + 1, p =>
    if p.isEmpty || (t.follow root p).isSome then p else nearest t root n p.dropLast

/-- Existing directories below which everything lies that the patterns may match; none of them
lies below another one. -/
def watchRoots (g : GlobSet) (t : FileTree) : List Location :=
  let roots := (g.includes.map fun p =>
    let fixed := Glob.fixedSegments p
    g.root ++ nearest t g.root fixed.length fixed).eraseDups
  roots.filter fun r => !roots.any fun other => other != r && other.isPrefixOf r

end GlobSet
end QueryTypes
