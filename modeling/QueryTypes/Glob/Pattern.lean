import QueryTypes.Path.Basic

/-! Patterns without braces, matched against whole paths: `*` and `?` stay within a segment, `**/`
stands for any directories or none, and `**` for anything on one line. -/

namespace QueryTypes.Glob

inductive Piece
  | dirs
  | anything
  | run
  | one
  | char (c : Char)
deriving DecidableEq, Repr

def pieces : List Char → List Piece
  | '*' :: '*' :: '/' :: r => .dirs :: pieces r
  | '*' :: '*' :: r => .anything :: pieces r
  | '*' :: r => .run :: pieces r
  | '?' :: r => .one :: pieces r
  | c :: r => .char c :: pieces r
  | [] => []

/-- What may be left of a text after a run of characters that satisfy `p`. -/
def restsAfter (p : Char → Bool) : List Char → List (List Char)
  | [] => [[]]
  | c :: r => (c :: r) :: if p c then restsAfter p r else []

/-- What may be left of a text after a run of characters on one line that ends in a slash. -/
def restsAfterSlash : List Char → List (List Char)
  | [] => []
  | c :: r =>
    if c = '\n' then [] else if c = '/' then r :: restsAfterSlash r else restsAfterSlash r

/-- What may be left of a text after a piece. -/
def Piece.rests (s : List Char) : Piece → List (List Char)
  | dirs => s :: restsAfterSlash s
  | anything => restsAfter (· != '\n') s
  | run => restsAfter (· != '/') s
  | one => match s with
    | c :: r => if c = '/' then [] else [r]
    | [] => []
  | char d => match s with
    | c :: r => if c = d then [r] else []
    | [] => []

def matchPieces : List Piece → List Char → Bool
  | [], s => s.isEmpty
  | p :: ps, s => (p.rests s).any (matchPieces ps)

def matchPath (pattern path : List Char) : Bool := matchPieces (pieces pattern) path

/-- Characters that make a segment more than a name. -/
def isSpecial (c : Char) : Bool := c == '*' || c == '?' || c == '[' || c == '\x7b'

/-- The directory in front of the first segment with special characters; of a plain pattern, the
directory that it is in. -/
def fixedSegments (pattern : String) : List String :=
  let parts := Text.split '/' pattern
  let plain := parts.takeWhile fun p => !p.toList.any isSpecial
  (if plain.length = parts.length then plain.dropLast else plain).filter fun p => p != "" && p != "."

def fixedPart (pattern : String) : String := Path.relativeText (fixedSegments pattern)

end QueryTypes.Glob
