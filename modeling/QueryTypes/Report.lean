/-! Findings of several rules that read the same sequence of visits. Each rule numbers its findings
by the visit that they belong to; together they come in the order of the visits, and at one visit
in the order of the rules. -/

namespace QueryTypes

abbrev Findings (α : Type) := List (Nat × α)

namespace Findings

variable {α β : Type}

/-- What a rule without memory finds at each visit. -/
def ofVisits (rule : β → List α) (visits : List β) : Findings α :=
  visits.zipIdx.flatMap fun v => (rule v.1).map fun a => (v.2, a)

/-- What a rule finds that remembers earlier visits. -/
def ofHistory {σ : Type} (rule : σ → β → σ × List α) (start : σ) (visits : List β) : Findings α :=
  go start 0 visits
where
  go (s : σ) (i : Nat) : List β → Findings α
  | [] => []
  | v :: r =>
    let (s, found) := rule s v
    found.map (fun a => (i, a)) ++ go s (i + 1) r

def inOrder (rules : List (Findings α)) : List α :=
  (rules.flatten.mergeSort fun x y => x.1 ≤ y.1).map Prod.snd

theorem inOrder_eq_nil_iff (rules : List (Findings α)) :
    inOrder rules = [] ↔ ∀ r ∈ rules, r = [] := by
  have hl : (inOrder rules).length = rules.flatten.length := by simp [inOrder]
  rw [← List.length_eq_zero_iff, hl, List.length_eq_zero_iff, List.flatten_eq_nil_iff]

end Findings

/-- Groups by key, in the order in which keys come first; the items of a group keep their order. -/
def groupBy {α : Type} (key : α → String) (xs : List α) : List (String × List α) :=
  ((xs.map key).eraseDups).map fun k => (k, xs.filter fun x => key x == k)

/-- The keys that more than one item has. -/
def repeatedKeys {α : Type} (key : α → String) (xs : List α) : List (String × List α) :=
  (groupBy key xs).filter fun g => 1 < g.2.length

end QueryTypes
