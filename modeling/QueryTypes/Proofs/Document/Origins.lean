import QueryTypes.Document.Printer
import QueryTypes.Document.Reach
import QueryTypes.Document.Typename

/-!
# Definitions without their origins

Two definitions are written alike when they are equal once all origins are taken away. Their texts
and the names that they spread are then the same, with the added type names or without.
-/

namespace QueryTypes

def Name.bare (n : Name) : Name := ⟨n.text, none⟩

mutual
def Value.bare : Value → Value
  | .ref n _ => .ref n none
  | .int d _ => .int d none
  | .float d _ => .float d none
  | .string s b _ => .string s b none
  | .boolean b _ => .boolean b none
  | .null _ => .null none
  | .enum n _ => .enum n none
  | .list vs _ => .list (Value.allBare vs) none
  | .object fs _ => .object (Value.fieldsBare fs) none

def Value.allBare : List Value → List Value
  | [] => []
  | v :: r => v.bare :: Value.allBare r

def Value.fieldsBare : List (Name × Value) → List (Name × Value)
  | [] => []
  | (n, v) :: r => (n.bare, v.bare) :: Value.fieldsBare r
end

def Argument.bare (a : Argument) : Argument := ⟨a.name.bare, a.value.bare⟩

def Directive.bare (d : Directive) : Directive := ⟨d.name, d.arguments.map Argument.bare, none⟩

def FieldHead.bare (f : FieldHead) : FieldHead :=
  ⟨f.aliasName, f.name, f.arguments.map Argument.bare, f.directives.map Directive.bare, none⟩

mutual
def Selection.bare : Selection → Selection
  | .field h _ ss => .field h.bare none (Selection.allBare ss)
  | .spread n ds _ => .spread n.bare (ds.map Directive.bare) none
  | .inline c ds ss _ => .inline (c.map Name.bare) (ds.map Directive.bare) (Selection.allBare ss) none

def Selection.allBare : List Selection → List Selection
  | [] => []
  | s :: r => s.bare :: Selection.allBare r
end

def VariableDefinition.bare (v : VariableDefinition) : VariableDefinition :=
  ⟨v.name.bare, v.type, none, none, v.default.map Value.bare, v.directives.map Directive.bare, none⟩

/-- An operation as it is written, wherever it stands. -/
def Operation.bare (o : Operation) : Operation :=
  ⟨o.kind, o.name.map Name.bare, o.variableDefs.map VariableDefinition.bare,
    o.directives.map Directive.bare, Selection.allBare o.selections, none⟩

/-- A fragment as it is written, wherever it stands. -/
def Fragment.bare (f : Fragment) : Fragment :=
  ⟨f.name.bare, f.condition.bare, f.directives.map Directive.bare, Selection.allBare f.selections,
    none⟩

/-! ### Texts -/

namespace Printer

mutual
theorem value_bare : (v : Value) → value v.bare = value v
  | .ref .. | .int .. | .float .. | .string .. | .boolean .. | .null .. | .enum .. => rfl
  | .list vs _ => by rw [Value.bare, value, value, values_bare vs]
  | .object fs _ => by rw [Value.bare, value, value, fields_bare fs]

theorem values_bare : (vs : List Value) → values (Value.allBare vs) = values vs
  | [] => rfl
  | v :: r => by rw [Value.allBare, values, values, value_bare v, values_bare r]

theorem fields_bare : (fs : List (Name × Value)) → fields (Value.fieldsBare fs) = fields fs
  | [] => rfl
  | (n, v) :: r => by
    rw [Value.fieldsBare, fields, fields, value_bare v, fields_bare r]
    rfl
end

theorem map_argument_bare (args : List Argument) :
    (args.map Argument.bare).map argument = args.map argument := by
  rw [List.map_map]
  apply List.map_congr_left
  intro a _
  exact congrArg (a.name.text ++ ": " ++ ·) (value_bare a.value)

theorem directive_bare (d : Directive) : directive d.bare = directive d := by
  simp only [directive, Directive.bare, map_argument_bare]

theorem directives_bare (ds : List Directive) :
    directives (ds.map Directive.bare) = directives ds := by
  simp only [directives, List.map_map]
  congr 1
  apply List.map_congr_left
  exact fun d _ => directive_bare d

theorem fieldHead_bare (f : FieldHead) : fieldHead f.bare = fieldHead f := by
  simp only [fieldHead, FieldHead.bare, map_argument_bare]

mutual
theorem selection_bare : (s : Selection) → selection s.bare = selection s
  | .field h _ ss => by
    rw [Selection.bare, selection, selection, fieldHead_bare, selections_bare ss, FieldHead.bare,
      directives_bare]
  | .spread n ds _ => by
    rw [Selection.bare, selection, selection, directives_bare]
    rfl
  | .inline c ds ss _ => by
    rw [Selection.bare, selection, selection, directives_bare, selections_bare ss, Option.map_map]
    rfl

theorem selections_bare : (ss : List Selection) → selections (Selection.allBare ss) = selections ss
  | [] => rfl
  | s :: r => by rw [Selection.allBare, selections, selections, selection_bare s, selections_bare r]
end

theorem variableDefinition_bare (v : VariableDefinition) :
    variableDefinition v.bare = variableDefinition v := by
  have hdefault : (v.default.map Value.bare).map value = v.default.map value := by
    cases v.default with
    | none => rfl
    | some d => exact congrArg some (value_bare d)
  simp only [variableDefinition, VariableDefinition.bare, hdefault, directives_bare, Name.bare]

theorem operation_bare (o : Operation) : operation o.bare = operation o := by
  have hvars : (o.variableDefs.map VariableDefinition.bare).map variableDefinition =
      o.variableDefs.map variableDefinition := by
    rw [List.map_map]
    apply List.map_congr_left
    exact fun v _ => variableDefinition_bare v
  have hname : (o.name.map Name.bare).map Name.text = o.name.map Name.text := by
    rw [Option.map_map]
    rfl
  simp only [operation, Operation.bare, hvars, hname, directives_bare, selections_bare]

theorem fragment_bare (f : Fragment) : fragment f.bare = fragment f := by
  simp only [fragment, Fragment.bare, directives_bare, selections_bare, Name.bare]

end Printer

/-! ### Names that are spread -/

namespace Selection

mutual
theorem spreads_bare : (s : Selection) → s.bare.spreads = s.spreads
  | .field _ _ ss => by rw [bare, spreads, spreads, allSpreads_allBare ss]
  | .spread .. => rfl
  | .inline _ _ ss _ => by rw [bare, spreads, spreads, allSpreads_allBare ss]

theorem allSpreads_allBare : (ss : List Selection) → allSpreads (allBare ss) = allSpreads ss
  | [] => rfl
  | s :: r => by rw [allBare, allSpreads, allSpreads, spreads_bare s, allSpreads_allBare r]
end

theorem allSpreads_withTypename (ss : List Selection) :
    allSpreads (withTypename ss) = allSpreads ss := by
  rw [withTypename]
  split
  · rfl
  · rw [allSpreads, typenameField, spreads, allSpreads, List.nil_append]

mutual
theorem spreads_addTypename : (s : Selection) → s.addTypename.spreads = s.spreads
  | .field _ _ ss => by
    rw [addTypename, spreads, spreads, allSpreads_withTypename, allSpreads_addTypenames ss]
  | .spread .. => rfl
  | .inline _ _ ss _ => by
    rw [addTypename, spreads, spreads, allSpreads_withTypename, allSpreads_addTypenames ss]

theorem allSpreads_addTypenames : (ss : List Selection) →
    allSpreads (addTypenames ss) = allSpreads ss
  | [] => rfl
  | s :: r => by
    rw [addTypenames, allSpreads, allSpreads, spreads_addTypename s, allSpreads_addTypenames r]
end

/-! ### Added type names -/

theorem isTypename_bare (s : Selection) : s.bare.isTypename = s.isTypename := by
  cases s <;> rfl

theorem any_isTypename_allBare (ss : List Selection) :
    (allBare ss).any isTypename = ss.any isTypename := by
  induction ss with
  | nil => rfl
  | cons s ss ih => rw [allBare, List.any_cons, List.any_cons, isTypename_bare, ih]

theorem isEmpty_allBare (ss : List Selection) : (allBare ss).isEmpty = ss.isEmpty := by
  cases ss <;> rfl

theorem allBare_withTypename (ss : List Selection) :
    allBare (withTypename ss) = withTypename (allBare ss) := by
  rw [withTypename, withTypename, isEmpty_allBare, any_isTypename_allBare]
  split <;> rfl

mutual
theorem bare_addTypename : (s : Selection) → s.addTypename.bare = s.bare.addTypename
  | .field _ _ ss => by
    rw [addTypename, bare, bare, addTypename, allBare_withTypename, allBare_addTypenames ss]
  | .spread .. => rfl
  | .inline _ _ ss _ => by
    rw [addTypename, bare, bare, addTypename, allBare_withTypename, allBare_addTypenames ss]

theorem allBare_addTypenames : (ss : List Selection) →
    allBare (addTypenames ss) = addTypenames (allBare ss)
  | [] => rfl
  | s :: r => by
    rw [addTypenames, allBare, allBare, addTypenames, bare_addTypename s, allBare_addTypenames r]
end

end Selection

theorem Operation.bare_addTypename (o : Operation) : o.addTypename.bare = o.bare.addTypename := by
  simp only [Operation.addTypename, Operation.bare, Selection.allBare_addTypenames]

theorem Fragment.bare_addTypename (f : Fragment) : f.addTypename.bare = f.bare.addTypename := by
  simp only [Fragment.addTypename, Fragment.bare, Selection.allBare_withTypename,
    Selection.allBare_addTypenames]

end QueryTypes
