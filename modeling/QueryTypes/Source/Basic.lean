import QueryTypes.Text.Basic

/-! Texts that definitions are read from, and the places in them that messages point at. -/

namespace QueryTypes

/-- A text with the name that messages give it. -/
structure Source where
  name : String
  body : List Char
deriving DecidableEq, Inhabited

/-- The first character of a piece of a text. -/
structure Origin where
  source : Source
  offset : Nat
deriving DecidableEq, Inhabited

/-- A line and a column, both counted from one. -/
structure Place where
  line : Nat
  column : Nat
deriving DecidableEq, Repr

namespace Source

/-- The name of a text that was given none. -/
def unnamed : String := "GraphQL request"

/-- The place of the character at an offset, counted in the lines before it. A line end does not
open a line there, so what directly follows one has the place of the line end itself. -/
def place (s : Source) (offset : Nat) : Place :=
  let before := Text.endedLines (s.body.take offset)
  ⟨max before.length 1, (before.getLast?.getD []).length + 1⟩

/-- Lines behind labels of one width; a line without text is its label alone. -/
def labelled (rows : List (String × Option String)) : String :=
  let present := rows.filterMap fun r => r.2.map fun t => (r.1, t)
  let width := (present.map (·.1.length)).foldl max 0
  Text.joinWith "\n" (present.map fun r =>
    Text.padLeft width r.1 ++ (if r.2.isEmpty then "" else " " ++ r.2))

/-- Rows of at most eighty characters. -/
def rows : Nat → List Char → List String
  | 0, _ => []
  | _, [] => []
  | n + 1, s => String.ofList (s.take 80) :: rows n (s.drop 80)

/-- The line of a place with its neighbours and a caret under the column. A line of more than 120
characters is shown alone, in rows. -/
def excerpt (s : Source) (p : Place) : String :=
  let lines := Text.lines s.body
  let line := (lines[p.line - 1]?).getD []
  let head := s.name ++ ":" ++ toString p.line ++ ":" ++ toString p.column ++ "\n"
  let number (n : Nat) : String := toString n ++ " |"
  if 120 < line.length then
    let parts := rows line.length line
    let at_ := p.column / 80
    head ++ labelled
      ((number p.line, parts[0]?)
        :: ((parts.drop 1).take at_).map (fun r => ("|", some r))
        ++ [("|", some (Text.padLeft (p.column % 80) "^")),
            ("|", if at_ + 1 < parts.length then parts[at_ + 1]? else none)])
  else
    let other (i : Nat) : Option String := (lines[i]?).map String.ofList
    head ++ labelled [
      (number (p.line - 1), if p.line < 2 then none else other (p.line - 2)),
      (number p.line, some (String.ofList line)),
      ("|", some (Text.padLeft p.column "^")),
      (number (p.line + 1), other p.line)]

end Source

def Origin.excerpt (o : Origin) : String := o.source.excerpt (o.source.place o.offset)

/-- A message about pieces of text. -/
structure Diagnostic where
  message : String
  origins : List Origin
deriving DecidableEq, Inhabited

def Diagnostic.text (d : Diagnostic) : String :=
  Text.joinWith "\n\n" (d.message :: d.origins.map Origin.excerpt)

end QueryTypes
