import QueryTypes.Document.Printer
import QueryTypes.Schema.Basic
import QueryTypes.Decimal.Number
import QueryTypes.Text.Suggestion

/-! Which literals a scalar or an enum takes, with the complaint about any other one, and which
constants fit a type as a whole. -/

namespace QueryTypes

def intOf (digits : String) : Int :=
  match digits.toList with
  | '-' :: r => -(Decimal.ofDigits r : Int)
  | r => Decimal.ofDigits r

/-- The complaint of a built-in scalar about a literal, or none; other scalars take any. -/
def scalarComplaint (name : String) (v : Value) : Option String :=
  let shown := Printer.value v
  match name, v with
  | "Int", .int d _ =>
    let n := intOf d
    if -2147483648 ≤ n ∧ n ≤ 2147483647 then none
    else some ("Int cannot represent non 32-bit signed integer value: " ++ d)
  | "Int", _ => some ("Int cannot represent non-integer value: " ++ shown)
  | "Float", .int .. | "Float", .float .. => none
  | "Float", _ => some ("Float cannot represent non numeric value: " ++ shown)
  | "String", .string .. => none
  | "String", _ => some ("String cannot represent a non string value: " ++ shown)
  | "Boolean", .boolean .. => none
  | "Boolean", _ => some ("Boolean cannot represent a non boolean value: " ++ shown)
  | "ID", .string .. | "ID", .int .. => none
  | "ID", _ => some ("ID cannot represent a non-string and non-integer value: " ++ shown)
  | _, _ => none

def enumComplaint (t : NamedType) (v : Value) : Option String :=
  let names := t.values.map EnumValue.name
  let shown := Printer.value v
  let hint := Text.didYouMean "the enum value " (Text.suggestions shown names)
  match v with
  | .enum n _ =>
    if names.contains n then none
    else some ("Value '" ++ n ++ "' does not exist in '" ++ t.name ++ "' enum." ++ hint)
  | _ => some ("Enum '" ++ t.name ++ "' cannot represent non-enum value: " ++ shown ++ "." ++ hint)

def leafComplaint (t : NamedType) (v : Value) : Option String :=
  if t.isEnum then enumComplaint t v else scalarComplaint t.name v

/-- Whether a constant fits a type among the given ones. A single value fits a list of its type.
The bound is on the depth of values and defaults together. -/
def fits (types : List NamedType) : Nat → TypeRef → Value → Bool
  | 0, _, _ => false
  | _ + 1, _, .ref .. => false
  | _ + 1, t, .null _ => !t.isRequired
  | n + 1, .list t _, .list vs _ => vs.all fun v => fits types n t v
  | n + 1, .list t _, v => fits types n t v
  | n + 1, .named name _, v =>
    match types.find? (·.name == name) with
    | none => false
    | some t =>
      match t.body with
      | .input fields =>
        match v with
        | .object given _ =>
          fields.all fun f =>
            match given.reverse.find? (·.1.text == f.name) with
            | some g => fits types n f.type g.2
            | none =>
              match f.default with
              | some d => fits types n f.type d || !f.type.isRequired
              | none => !f.type.isRequired
        | _ => false
      | .scalar | .enum _ => (leafComplaint t v).isNone
      | _ => false

end QueryTypes
