import QueryTypes.Json.Value

/-! JSON data in messages: with single quotes and the words `None`, `True` and `False`, either in
full or shortened to what fits in a line. -/

namespace QueryTypes.Json

mutual
/-- The data in full. -/
def shown : Json → String
  | null => "None"
  | bool b => if b then "True" else "False"
  | int n => toString n
  | float x => Decimal.text x
  | str s => Text.quoted s
  | arr xs => "[" ++ Text.joinWith ", " (shownItems xs) ++ "]"
  | obj fs => "\x7b" ++ Text.joinWith ", " (shownFields fs) ++ "\x7d"

def shownItems : List Json → List String
  | [] => []
  | x :: r => shown x :: shownItems r

def shownFields : List (String × Json) → List String
  | [] => []
  | (k, v) :: r => (Text.quoted k ++ ": " ++ shown v) :: shownFields r
end

/-- Keeps both ends of a text of more than 240 characters. -/
def shortText (s : String) : String :=
  let cs := s.toList
  if cs.length ≤ 240 then s
  else String.ofList (cs.take 118 ++ ['.', '.', '.'] ++ cs.drop (cs.length - 119))

/-- Keeps five items in front and four at the end of more than ten. -/
def shortList (items : List String) : List String :=
  if items.length ≤ 10 then items else items.take 5 ++ "..." :: items.drop (items.length - 4)

mutual
/-- The data with lists and objects opened to the given depth. -/
def brief (depth : Nat) : Json → String
  | null => "None"
  | bool b => if b then "True" else "False"
  | float x => Decimal.text x
  | int n => shortText (toString n)
  | str s => shortText (Text.quoted s)
  | arr [] => "[]"
  | arr xs =>
    match depth with
    | 0 => "[...]"
    | d + 1 => "[" ++ Text.joinWith ", " (shortList (briefItems d xs)) ++ "]"
  | obj [] => "\x7b\x7d"
  | obj fs =>
    match depth with
    | 0 => "\x7b...\x7d"
    | d + 1 => "\x7b" ++ Text.joinWith ", " (shortList (briefFields d fs)) ++ "\x7d"

def briefItems (depth : Nat) : List Json → List String
  | [] => []
  | x :: r => brief depth x :: briefItems depth r

def briefFields (depth : Nat) : List (String × Json) → List String
  | [] => []
  | (k, v) :: r =>
    (shortText (Text.quoted k) ++ ": " ++ brief depth v) :: briefFields depth r
end

/-- What kind of value messages say this is. -/
def kindName : Json → String
  | null => "NoneType"
  | bool _ => "bool"
  | int _ => "int"
  | float _ => "float"
  | str _ => "str"
  | arr _ => "list"
  | obj _ => "dict"

end QueryTypes.Json
