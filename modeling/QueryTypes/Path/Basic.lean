import QueryTypes.Text.Basic

/-! Paths as texts of segments, and the places they lead to. Empty segments and `.` mean nothing
and are dropped when a path is read; `..` is kept until the path is resolved. -/

namespace QueryTypes

/-- What a path starts from. Exactly two leading slashes are a start of their own. -/
inductive PathRoot
  | here
  | slash
  | twoSlashes
deriving DecidableEq, Repr, Inhabited

structure Path where
  root : PathRoot
  segments : List String
deriving DecidableEq, Repr, Inhabited

/-- A place in the file tree: the names from the top down, without `.` and `..`. -/
abbrev Location := List String

def Location.text (l : Location) : String := "/" ++ Text.joinWith "/" l

namespace Path

def PathRoot.text : PathRoot → String
  | .here => ""
  | .slash => "/"
  | .twoSlashes => "//"

def rootOf : List Char → PathRoot
  | '/' :: '/' :: '/' :: _ => .slash
  | '/' :: '/' :: _ => .twoSlashes
  | '/' :: _ => .slash
  | _ => .here

def ofText (s : String) : Path :=
  ⟨rootOf s.toList, (Text.split '/' s).filter fun p => p != "" && p != "."⟩

def text (p : Path) : String :=
  if p.root = .here ∧ p.segments = [] then "."
  else PathRoot.text p.root ++ Text.joinWith "/" p.segments

def isAbsolute (p : Path) : Bool := p.root != .here

/-- The second path seen from the first one. -/
def join (p q : Path) : Path :=
  if q.isAbsolute then q else ⟨p.root, p.segments ++ q.segments⟩

def parent (p : Path) : Path := ⟨p.root, p.segments.dropLast⟩

def name (p : Path) : String := p.segments.getLast?.getD ""

def child (p : Path) (s : String) : Path := p.join (ofText s)

/-- The extension of a name with its dot; a dot in front or at the end starts none. -/
def suffix (p : Path) : String :=
  let tail := p.name.toList.reverse.takeWhile (· != '.')
  let rest := p.name.toList.drop 1
  if tail.isEmpty || !rest.contains '.' then "" else String.ofList ('.' :: tail.reverse)

/-- Lets each `..` take back the name before it. -/
def collapse (ss : List String) : Location :=
  (ss.foldl (fun acc s => if s = ".." then acc.tail else s :: acc) []).reverse

/-- Where a path leads, seen from a working directory. -/
def resolve (cwd : Location) (p : Path) : Location :=
  collapse (if p.isAbsolute then p.segments else cwd ++ p.segments)

def ofLocation (l : Location) : Path := ⟨.slash, l⟩

/-- The way from one place to another: up to what they share, then down. -/
def between (start target : Location) : List String :=
  match start, target with
  | s :: ss, t :: ts => if s = t then between ss ts else climb (s :: ss) (t :: ts)
  | ss, ts => climb ss ts
where
  climb (ss ts : List String) : List String := List.replicate ss.length ".." ++ ts

/-- The way as text; to stay is `.`. -/
def betweenText (start target : Location) : String :=
  match between start target with
  | [] => "."
  | ss => Text.joinWith "/" ss

/-- The longest list that both lists start with. -/
def sharedStart : List String → List String → List String
  | a :: r, b :: s => if a = b then a :: sharedStart r s else []
  | _, _ => []

/-- The longest list that all lists start with. -/
def commonStart : List (List String) → List String
  | [] => []
  | [l] => l
  | l :: r => sharedStart l (commonStart r)

/-- What is left of a place below another one. -/
def below? (base l : Location) : Option (List String) :=
  if base.isPrefixOf l then some (l.drop base.length) else none

/-- A relative path as text. -/
def relativeText (ss : List String) : String :=
  match ss with
  | [] => "."
  | ss => Text.joinWith "/" ss

end Path
end QueryTypes
