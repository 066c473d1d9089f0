import QueryTypes.Closure
import QueryTypes.Shape.Build

/-! The enums and input objects that modules share: those that they mention and those that input
objects lead to. -/

namespace QueryTypes
namespace ShapeContext

/-- The enums and input objects that the fields of an input object have. -/
def mentions (cx : ShapeContext) (name : String) : List String :=
  match cx.schema.type? name with
  | none => []
  | some t => t.inputFields.filterMap fun f => (cx.inputType f.type).shared?

/-- The shared types that the given ones lead to, sorted. -/
def sharedNames (cx : ShapeContext) (start : List String) : List String :=
  Text.sorted (Closure.reach (cx.schema.types.map NamedType.name) cx.mentions start)

def enumShape (omitDeprecated : Bool) (t : NamedType) : EnumShape :=
  let values := t.values.filter fun v => !(omitDeprecated && v.deprecation.isSome)
  ⟨t.name, values.map fun v => (v.name, v.description), t.description⟩

def inputShape (cx : ShapeContext) (t : NamedType) : ObjectShape :=
  ⟨t.name, t.inputFields.map fun f =>
    ⟨f.name, cx.inputType f.type, !f.type.isRequired, f.description⟩, t.description⟩

/-- The shared types of some modules. -/
def shared (cx : ShapeContext) (omitDeprecated : Bool) (modules : List ModuleShape) : SharedShapes :=
  let types := (cx.sharedNames (modules.flatMap ModuleShape.imports)).filterMap cx.schema.type?
  ⟨(types.filter NamedType.isEnum).map (enumShape omitDeprecated),
    (types.filter NamedType.isInput).map cx.inputShape⟩

end ShapeContext
end QueryTypes
