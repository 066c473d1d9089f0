import QueryTypes.Text.Blank

/-! A description as one line of a block comment: no line breaks, no comment end, single spaces,
and at most 120 characters. -/

namespace QueryTypes.Text

/-- The longest comment text. -/
def commentWidth : Nat := 120

/-- Keeps a comment from ending inside the text. -/
def separateEnds (s : List Char) : List Char := replace ['*', '/'] ['*', ' ', '/'] s

/-- Cuts a text that is too long and marks the cut with three dots. -/
def shorten (s : List Char) : List Char :=
  if commentWidth < s.length then s.take (commentWidth - 3) ++ ['.', '.', '.'] else s

def commentText (s : List Char) : List Char :=
  let oneLine := (replace ['\n'] [' '] s).filter (· != '\r')
  trim (shorten (collapse (separateEnds oneLine)))

def comment (s : String) : String := String.ofList (commentText s.toList)

end QueryTypes.Text
