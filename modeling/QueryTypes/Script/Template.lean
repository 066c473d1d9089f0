import QueryTypes.Text.Blank
import QueryTypes.Text.Word

/-! Tagged templates in scripts: a tag that no longer name ends in, perhaps blanks, and a text
between backticks in which a backslash keeps the next character from meaning anything. -/

namespace QueryTypes.Template

/-- The quote of templates. -/
def tick : Char := '\x60'

/-- The text up to the closing quote, with what follows it. -/
def body? : List Char → Option (List Char × List Char)
  | [] => none
  | c :: r =>
    if c = tick then some ([], r)
    else if c = '\\' then
      match r with
      | [] => none
      | d :: r => (body? r).map fun p => (c :: d :: p.1, p.2)
    else (body? r).map fun p => (c :: p.1, p.2)

/-- A tag is part of a longer expression behind these characters. -/
def continuesName (c : Char) : Bool := Text.isWord c || c == '$' || c == '.'

/-- A template that starts here, with what follows it. -/
def here? (tag s : List Char) : Option (List Char × List Char) := do
  let r ← Text.after? tag s
  match r.dropWhile Text.isBlank with
  | [] => none
  | c :: r => if c = tick then body? r else none

/-- The texts of all templates, from left to right and without overlap. -/
def scan (tag : List Char) : Nat → Option Char → List Char → List (List Char)
  | 0, _, _ => []
  | n + 1, before, s =>
    match (if before.any continuesName then none else here? tag s) with
    | some (b, r) => b :: scan tag n (some tick) r
    | none =>
      match s with
      | [] => []
      | c :: r => scan tag n (some c) r

/-- Takes out every part between a dollar sign with an opening brace and the next closing brace. -/
def dropInserts : Nat → List Char → List Char
  | 0, s => s
  | n + 1, s =>
    match s with
    | [] => []
    | c :: r =>
      match Text.after? ['$', '\x7b'] s with
      | none => c :: dropInserts n r
      | some inside =>
        match Text.cut? '\x7d' inside with
        | none => s
        | some (_, rest) => dropInserts n rest

/-- The texts of the templates with a tag, without what scripts insert into them. -/
def texts (tag script : List Char) : List (List Char) :=
  (scan tag (script.length + 1) none script).map fun b => dropInserts b.length b

end QueryTypes.Template
