import QueryTypes.Text.Basic

/-! Names that a misspelt name may have meant: those within a number of edits that grows with its
length. An edit inserts, drops or replaces a character or swaps two neighbours; to write every
letter in the other case counts as one. Options of a command are offered by likeness instead: the
longest block that two texts share, and blocks to the left and to the right of it likewise, cover a
part of both. -/

namespace QueryTypes.Text

/-- The cells right of the first one. `above` and `far` hold the rows before and before that,
from the cell diagonally above on. -/
def rowCells (a : Char) (previous : Option Char) (left : Nat) (before : Option Char) :
    List Char → List Nat → List Nat → List Nat
  | b :: bs, diagonal :: up :: above, far =>
    let plain := min (min (up + 1) (left + 1)) (if a = b then diagonal else diagonal + 1)
    let cell := match before, previous, far with
      | some b', some a', f :: _ => if a = b' ∧ a' = b then min plain (f + 1) else plain
      | _, _, _ => plain
    let far' := if before.isSome then far.drop 1 else far
    cell :: rowCells a previous cell (some b) bs (up :: above) far'
  | _, _, _ => []

/-- Goes through the first text, with the last two rows. -/
def distanceRows (bs : List Char) : List Char → Option Char → Nat → List Nat → List Nat → Nat
  | [], _, _, row, _ => row.getLast?.getD 0
  | a :: as, previous, i, row, far =>
    distanceRows bs as (some a) (i + 1) ((i + 1) :: rowCells a previous (i + 1) none bs row far) row

def editDistance (a b : List Char) : Nat :=
  distanceRows b a none 0 (List.range (b.length + 1)) []

/-- The distance between two names, when it is at most `limit`. -/
def nameDistance? (limit : Nat) (a b : String) : Option Nat :=
  let la := a.toList.map Char.toLower
  let lb := b.toList.map Char.toLower
  if a = b then some 0
  else if la = lb then some 1
  else
    let d := editDistance la lb
    if d ≤ limit then some d else none

/-- Text and numbers in turn, so that numbers order by value. -/
def orderKey (s : String) : List (List Char × Nat) :=
  go s.length s.toList
where
  go : Nat → List Char → List (List Char × Nat)
  | 0, _ => []
  | _, [] => []
  | n + 1, s =>
    let word := s.takeWhile fun c => !c.isDigit
    let rest := s.dropWhile fun c => !c.isDigit
    let digits := rest.takeWhile Char.isDigit
    (word, digits.foldl (fun v c => 10 * v + (c.toNat - 48)) 0) :: go n (rest.dropWhile Char.isDigit)

def keyBefore : List (List Char × Nat) → List (List Char × Nat) → Bool
  | _, [] => false
  | [], _ :: _ => true
  | (w, n) :: r, (v, m) :: s =>
    if w = v then (if n = m then keyBefore r s else n < m)
    else decide (String.ofList w < String.ofList v)

/-- The options near a name, the nearest ones first. -/
def suggestions (name : String) (options : List String) : List String :=
  let limit := name.length * 4 / 10 + 1
  let near := options.eraseDups.filterMap fun o => (nameDistance? limit name o).map fun d => (d, o)
  let before (x y : Nat × String) : Bool :=
    x.1 < y.1 || x.1 == y.1 && !keyBefore (orderKey y.2) (orderKey x.2)
  (near.mergeSort before).map Prod.snd

/-- A question that offers at most five options, or nothing. -/
def didYouMean (what : String) (options : List String) : String :=
  let quoted := (options.take 5).map fun o => "'" ++ o ++ "'"
  let offer (list : String) : String := " Did you mean " ++ what ++ list ++ "?"
  match quoted with
  | [] => ""
  | [a] => offer a
  | [a, b] => offer (a ++ " or " ++ b)
  | _ => offer (joinWith ", " quoted.dropLast ++ ", or " ++ quoted.getLast?.getD "")

/-! ### Likeness -/

def sharedStartLength : List Char → List Char → Nat
  | a :: as, b :: bs => if a = b then sharedStartLength as bs + 1 else 0
  | _, _ => 0

/-- A block that two texts share: where it begins in each, and its length. -/
structure SharedBlock where
  left : Nat
  right : Nat
  length : Nat
deriving DecidableEq, Repr, Inhabited

/-- The longest shared block; of several the one that begins first. -/
def longestBlock (a b : List Char) : SharedBlock :=
  let blocks := (List.range a.length).flatMap fun i =>
    (List.range b.length).map fun j => SharedBlock.mk i j (sharedStartLength (a.drop i) (b.drop j))
  blocks.foldl (fun best x => if best.length < x.length then x else best) ⟨0, 0, 0⟩

/-- How many characters the shared blocks have. -/
def sharedLength : Nat → List Char → List Char → Nat
  | 0, _, _ => 0
  | n + 1, a, b =>
    let x := longestBlock a b
    if x.length = 0 then 0
    else sharedLength n (a.take x.left) (b.take x.right) + x.length
      + sharedLength n (a.drop (x.left + x.length)) (b.drop (x.right + x.length))

/-- Twice the shared length and the length of both texts together; their quotient is the likeness. -/
def likeness (a b : String) : Nat × Nat :=
  (2 * sharedLength a.length a.toList b.toList, a.length + b.length)

/-- The names that are like a text in six parts of ten, the most similar first, three at most. -/
def closeNames (word : String) (names : List String) : List String :=
  let rated := (names.map fun x => (likeness x word, x)).filter fun r => 3 * r.1.2 ≤ 5 * r.1.1
  let before (x y : (Nat × Nat) × String) : Bool :=
    let l := x.1.1 * y.1.2
    let r := y.1.1 * x.1.2
    r < l || (l = r && !decide (x.2 < y.2))
  ((rated.mergeSort before).take 3).map Prod.snd

end QueryTypes.Text
