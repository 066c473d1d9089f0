/-! Tables that keep the order in which keys came first. -/

namespace QueryTypes

/-- Pairs with distinct keys, in the order in which the keys came first. -/
abbrev Table (α : Type) := List (String × α)

namespace Table

variable {α : Type}

def get? (t : Table α) (k : String) : Option α := t.lookup k

def has (t : Table α) (k : String) : Bool := (t.get? k).isSome

/-- Sets a key; one that is there keeps its place. -/
def set (k : String) (v : α) : Table α → Table α
  | [] => [(k, v)]
  | (j, w) :: r => if j = k then (j, v) :: r else (j, w) :: set k v r

/-- Sets a key unless it is there. -/
def setNew (k : String) (v : α) (t : Table α) : Table α :=
  if t.has k then t else t ++ [(k, v)]

def keys (t : Table α) : List String := t.map Prod.fst

def values (t : Table α) : List α := t.map Prod.snd

/-- Later pairs win, in the earlier place. -/
def ofList (ps : List (String × α)) : Table α := ps.foldl (fun t p => set p.1 p.2 t) []

/-- Earlier pairs win. -/
def ofListFirst (ps : List (String × α)) : Table α := ps.foldl (fun t p => setNew p.1 p.2 t) []

end Table
end QueryTypes
