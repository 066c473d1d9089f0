import QueryTypes.Validation.Fragments
import QueryTypes.Report

/-! Rules about the variables of an operation: each is declared once with an input type, used, and
declared for every use, where it has to fit its slot. Uses in fragments count for each operation
that the fragment is spread in. -/

namespace QueryTypes.Validation

/-- A variable in a slot. -/
structure Use where
  name : String
  slot : Slot
  origin : Option Origin
deriving Inhabited

def usesIn (visits : List Visit) : List Use :=
  visits.filterMap fun
    | .value slot _ (.ref n o) => some ⟨n, slot, o⟩
    | _ => none

/-- The fragments that blocks lead to, each once, where what is met last is followed first. -/
def followed (table : Table Fragment) : Nat → List (List Selection) → List String → List Fragment
  | 0, _, _ => []
  | _, [], _ => []
  | n + 1, ss :: rest, seen =>
    let names := ((Selection.blockSpreads ss).map Name.text).eraseDups.filter fun x => !seen.contains x
    let fragments := names.filterMap table.get?
    fragments ++ followed table n ((fragments.map Fragment.selections).reverse ++ rest) (seen ++ names)

/-- The uses of variables in an operation, then those in the fragments that it spreads. -/
def Operation.variableUses (s : Schema) (table : Table Fragment) (o : Operation) : List Use :=
  usesIn (s.operationVisits o)
    ++ (followed table (table.length + 1) [o.selections] []).flatMap fun f => usesIn (s.fragmentVisits f)

def variablesOnce : Visit → List Diagnostic
  | .operation o => (repeatedKeys (fun v => v.name.text) o.variableDefs).map fun g =>
      ⟨"There can be only one variable named '$" ++ g.1 ++ "'.", g.2.filterMap fun v => v.name.origin⟩
  | _ => []

def variablesAreInputs (s : Schema) : Visit → List Diagnostic
  | .input v =>
    if (s.type? v.type.leaf).isSome && !s.isInput v.type then
      [.about ("Variable '$" ++ v.name.text ++ "' cannot be non-input type '" ++ v.type.text ++ "'.")
        v.typeOrigin]
    else []
  | _ => []

def inOperation (o : Operation) : String :=
  match o.name with
  | some n => " operation '" ++ n.text ++ "'."
  | none => "."

def usesDeclared (s : Schema) (table : Table Fragment) : Visit → List Diagnostic
  | .operationEnd o =>
    let missing := (Operation.variableUses s table o).filter fun u =>
      !o.variableDefs.any fun v => v.name.text == u.name
    missing.map fun u =>
      ⟨"Variable '$" ++ u.name ++ "' is not defined"
        ++ (if o.name.isSome then " by" else "") ++ inOperation o, u.origin.toList ++ o.origin.toList⟩
  | _ => []

def variablesUsed (s : Schema) (table : Table Fragment) : Visit → List Diagnostic
  | .operationEnd o =>
    let uses := Operation.variableUses s table o
    (o.variableDefs.filter fun v => !uses.any fun u => u.name == v.name.text).map fun v =>
      .about ("Variable '$" ++ v.name.text ++ "' is never used"
        ++ (if o.name.isSome then " in" else "") ++ inOperation o) v.origin
  | _ => []

/-- Whether a variable may stand in a slot. A required slot takes a variable that may be absent if
there is a default, of the variable or of the slot. -/
def mayStand (s : Schema) (v : VariableDefinition) (slot : Slot) (t : TypeRef) : Bool :=
  if t.isRequired && !v.type.isRequired then
    (v.default.any (fun d => !d.isNull) || slot.hasDefault) && s.isSubtype v.type t.optional
  else s.isSubtype v.type t

def usesFit (s : Schema) (table : Table Fragment) : Visit → List Diagnostic
  | .operationEnd o => (Operation.variableUses s table o).flatMap fun u =>
    match o.variableDefs.reverse.find? (fun v => v.name.text == u.name), u.slot.type with
    | some v, some t =>
      if (s.type? v.type.leaf).isNone || mayStand s v u.slot t then []
      else [⟨"Variable '$" ++ u.name ++ "' of type '" ++ v.type.text
        ++ "' used in position expecting type '" ++ t.text ++ "'.",
        v.origin.toList ++ u.origin.toList⟩]
    | _, _ => []
  | _ => []

end QueryTypes.Validation
