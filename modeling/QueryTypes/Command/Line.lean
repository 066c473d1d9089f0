import QueryTypes.Text.Suggestion

/-! Reads command lines: options, and arguments among them. The value of a long option follows it or
stands behind an equals sign; short options are one character each and can share a dash. Behind two
dashes there are arguments only. -/

namespace QueryTypes

/-- What an option gives its key: the text that follows, or a text of its own. -/
inductive OptionEffect
  | takes
  | gives (text : String)
deriving DecidableEq, Repr, Inhabited

structure CommandOption where
  key : String
  spellings : List String
  effect : OptionEffect
deriving DecidableEq, Repr, Inhabited

inductive LineError
  | unknown (name : String) (similar : List String)
  | valueMissing (name : String)
  | valueUnwanted (name : String)
deriving DecidableEq, Repr, Inhabited

namespace LineError

def message : LineError → String
  | unknown n [] => "No such option: " ++ n
  | unknown n [m] => "No such option: " ++ n ++ " Did you mean " ++ m ++ "?"
  | unknown n ms => "No such option: " ++ n ++ " (Possible options: " ++ Text.joinWith ", " (Text.sorted ms) ++ ")"
  | valueMissing n => "Option '" ++ n ++ "' requires an argument."
  | valueUnwanted n => "Option '" ++ n ++ "' does not take a value."

end LineError

/-- What a command line says: texts under their keys, in order, and the arguments. -/
structure Line where
  given : List (String × String)
  arguments : List String
deriving DecidableEq, Repr, Inhabited

namespace Line

/-- The last text for a key. -/
def last? (l : Line) (key : String) : Option String := l.given.reverse.lookup key

def all (l : Line) (key : String) : List String :=
  (l.given.filter fun g => g.1 == key).map Prod.snd

def has (l : Line) (key : String) : Bool := (l.last? key).isSome

def add (given : List (String × String)) (l : Line) : Line := { l with given := given ++ l.given }

def isOption (a : String) : Bool := a.toList.head? = some '-' && a != "-"

def isLong (spelling : String) : Bool := (Text.after? ['-', '-'] spelling.toList).isSome

/-- What one option text gives; when the value has yet to come, its key and spelling. -/
structure Piece where
  given : List (String × String)
  awaits : Option (String × String)
deriving DecidableEq, Repr, Inhabited

def longNames (options : List CommandOption) : List String :=
  (options.flatMap CommandOption.spellings).filter isLong

def find? (options : List CommandOption) (spelling : String) : Option CommandOption :=
  options.find? fun o => o.spellings.contains spelling

/-- A long option, and the value that it is joined with. -/
def long (options : List CommandOption) (name : String) (value : Option String) : Except LineError Piece :=
  match find? options name with
  | none => .error (.unknown name (Text.closeNames name (longNames options)))
  | some o =>
    match o.effect, value with
    | .takes, some v => .ok ⟨[(o.key, v)], none⟩
    | .takes, none => .ok ⟨[], some (o.key, name)⟩
    | .gives t, none => .ok ⟨[(o.key, t)], none⟩
    | .gives _, some _ => .error (.valueUnwanted name)

/-- Short options behind one dash. -/
def short (options : List CommandOption) : List Char → Except LineError Piece
  | [] => .ok ⟨[], none⟩
  | c :: r =>
    let name := String.ofList ['-', c]
    match find? options name with
    | none => .error (.unknown name [])
    | some o =>
      match o.effect with
      | .gives t => do
        let p ← short options r
        return { p with given := (o.key, t) :: p.given }
      | .takes => .ok (if r.isEmpty then ⟨[], some (o.key, name)⟩ else ⟨[(o.key, String.ofList r)], none⟩)

def piece (options : List CommandOption) (a : String) : Except LineError Piece :=
  if isLong a then
    match Text.cut? '=' a.toList with
    | some (name, value) => long options (String.ofList name) (some (String.ofList value))
    | none => long options a none
  else short options (a.toList.drop 1)

/-- Reads a command line. Unless options may stand behind arguments, the first argument ends them. -/
def parse (options : List CommandOption) (mixed : Bool) : List String → Except LineError Line
  | [] => .ok ⟨[], []⟩
  | a :: r =>
    if a = "--" then .ok ⟨[], r⟩
    else if isOption a then
      match piece options a with
      | .error e => .error e
      | .ok p =>
        match p.awaits with
        | none => (parse options mixed r).map (add p.given)
        | some (key, name) =>
          match r with
          | [] => .error (.valueMissing name)
          | v :: r' => (parse options mixed r').map (add (p.given ++ [(key, v)]))
    else if mixed then
      (parse options mixed r).map fun l => { l with arguments := a :: l.arguments }
    else .ok ⟨[], a :: r⟩

end Line
end QueryTypes
