import QueryTypes.Document.Basic

/-! Adds the field `__typename` in front of every selection block that does not ask for it under
its own name, the blocks of operations aside. -/

namespace QueryTypes

def typenameField : Selection :=
  .field ⟨none, "__typename", [], [], none⟩ none []

def Selection.isTypename : Selection → Bool
  | .field h _ _ => h.name == "__typename" && h.aliasName.isNone
  | _ => false

/-- A block with the field; an empty list is no block and stays empty. -/
def withTypename (ss : List Selection) : List Selection :=
  if ss.isEmpty || ss.any Selection.isTypename then ss else typenameField :: ss

mutual
def Selection.addTypename : Selection → Selection
  | .field h b ss => .field h b (withTypename (Selection.addTypenames ss))
  | .spread n ds o => .spread n ds o
  | .inline c ds ss o => .inline c ds (withTypename (Selection.addTypenames ss)) o

def Selection.addTypenames : List Selection → List Selection
  | [] => []
  | s :: r => s.addTypename :: Selection.addTypenames r
end

def Operation.addTypename (o : Operation) : Operation :=
  { o with selections := Selection.addTypenames o.selections }

def Fragment.addTypename (f : Fragment) : Fragment :=
  { f with selections := withTypename (Selection.addTypenames f.selections) }

def Document.addTypename (d : Document) : Document :=
  ⟨d.operations.map Operation.addTypename, d.fragments.map Fragment.addTypename⟩

end QueryTypes
