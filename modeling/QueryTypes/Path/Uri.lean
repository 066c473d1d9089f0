import QueryTypes.Path.Basic
import QueryTypes.Text.Utf8

/-! File URIs: a path with every byte outside the unreserved characters and the slash escaped,
and back. A text that is no file URI is taken as a path. -/

namespace QueryTypes.Uri

def isUnreserved (c : Char) : Bool :=
  c.isAlphanum || c == '_' || c == '.' || c == '-' || c == '~'

/-- One byte of a URI. -/
def escapeByte (b : UInt8) : List Char :=
  let c := Char.ofNat b.toNat
  if b.toNat < 128 && (isUnreserved c || c == '/') then [c]
  else '%' :: (Text.hex 2 b.toNat).map Char.toUpper

def ofLocation (l : Location) : String :=
  String.ofList ("file://".toList ++ (Text.encode (Location.text l)).toList.flatMap escapeByte)

/-- The bytes of a run of ASCII characters, escapes undone. -/
def unescape : List Char → List Nat
  | [] => []
  | '%' :: a :: b :: r =>
    match Text.hexValue? a, Text.hexValue? b with
    | some x, some y => (x * 16 + y) :: unescape r
    | _, _ => 37 :: unescape (a :: b :: r)
  | c :: r => c.toNat :: unescape r

def isAscii (c : Char) : Bool := c.toNat < 128

/-- Undoes escapes; characters beyond ASCII stand for themselves and divide the runs of bytes. -/
def unescapeText : Nat → List Char → List Char
  | 0, _ => []
  | _, [] => []
  | n + 1, c :: r =>
    if isAscii c then
      let run := (c :: r).takeWhile isAscii
      let bytes := unescape run
      Text.decodeLoosely bytes.length bytes ++ unescapeText n ((c :: r).dropWhile isAscii)
    else c :: unescapeText n r

def isSchemeChar (c : Char) : Bool :=
  c.isAlphanum || c == '+' || c == '-' || c == '.'

/-- The scheme in lower case and what follows its colon. -/
def scheme? (s : List Char) : Option (List Char × List Char) :=
  match Text.cut? ':' s with
  | some (c :: r, rest) =>
    if c.isAlpha && r.all isSchemeChar then some ((c :: r).map Char.toLower, rest) else none
  | _ => none

/-- Characters that a URI is read without: controls and spaces in front, and tabs and line ends
anywhere. -/
def cleaned (s : List Char) : List Char :=
  (s.dropWhile fun c => c.toNat ≤ 32).filter fun c => c != '\t' && c != '\n' && c != '\r'

/-- A host with only one of its brackets cannot be read. -/
def badHost (host : List Char) : Bool := host.contains '[' != host.contains ']'

/-- The path part of what follows a scheme: without host, query and fragment; none for a host
that cannot be read. -/
def pathPart? (s : List Char) : Option (List Char) :=
  let stops (c : Char) : Bool := c == '/' || c == '?' || c == '#'
  match Text.after? ['/', '/'] s with
  | some r =>
    if badHost (r.takeWhile fun c => !stops c) then none
    else some ((r.dropWhile fun c => !stops c).takeWhile fun c => c != '?' && c != '#')
  | none => some (s.takeWhile fun c => c != '?' && c != '#')

/-- The path that a URI or a plain path names. -/
def toPath? (uri : String) : Option Path :=
  match scheme? (cleaned uri.toList) with
  | some (name, rest) =>
    match pathPart? rest with
    | none => none
    | some p =>
      if name = "file".toList then some (Path.ofText (String.ofList (unescapeText p.length p)))
      else some (Path.ofText uri)
  | none => (pathPart? (cleaned uri.toList)).map fun _ => Path.ofText uri

end QueryTypes.Uri
