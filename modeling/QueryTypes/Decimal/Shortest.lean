/-! The fewest decimal digits that read back as a given binary64 value. A finite value is
`m * 2 ^ q`; a decimal reads back when it lies between the midpoints to the two neighbours, the
ends included exactly when `m` is even. -/

namespace QueryTypes.Decimal

/-- A finite value without its sign; `narrow` says that the gap below is half the gap above. -/
structure Binary where
  m : Nat
  q : Int
  narrow : Bool

def Binary.ofBits (bits : UInt64) : Binary :=
  let e := (bits >>> 52 &&& 0x7FF).toNat
  let f := (bits &&& 0xFFFFFFFFFFFFF).toNat
  if e = 0 then ⟨f, -1074, false⟩ else ⟨Nat.pow 2 52 + f, (e : Int) - 1075, f == 0 && 1 < e⟩

/-- The number `digits * 10 ^ exp`. -/
structure Digits where
  digits : Nat
  exp : Int
deriving DecidableEq, Repr

/-- Orders `a * 10 ^ i` against `n * 2 ^ j`. -/
def compareScaled (a : Nat) (i : Int) (n : Nat) (j : Int) : Ordering :=
  compare (a * Nat.pow 10 i.toNat * Nat.pow 2 (-j).toNat) (n * Nat.pow 2 j.toNat * Nat.pow 10 (-i).toNat)

def Binary.readsBack (x : Binary) (d : Digits) : Bool :=
  let low := compareScaled d.digits d.exp (if x.narrow then 4 * x.m - 1 else 4 * x.m - 2) (x.q - 2)
  let high := compareScaled d.digits d.exp (4 * x.m + 2) (x.q - 2)
  let ends := x.m % 2 == 0
  (low == .gt || ends && low == .eq) && (high == .lt || ends && high == .eq)

/-- How many whole grid steps of `10 ^ k` the value holds. -/
def Binary.steps (x : Binary) (k : Int) : Nat :=
  x.m * Nat.pow 2 x.q.toNat * Nat.pow 10 (-k).toNat / (Nat.pow 10 k.toNat * Nat.pow 2 (-x.q).toNat)

/-- The least `k` with the value below `10 ^ k`, found from above. -/
def Binary.scale (x : Binary) : Int :=
  let start : Int := ((x.m.log2 : Int) + x.q + 1) * 302 / 1000 + 2
  go x 8 start
where
  go (x : Binary) : Nat → Int → Int
  | 0, k => k
  | n + 1, k => if x.steps (k - 1) = 0 then go x n (k - 1) else k

/-- The nearer of the two neighbours on a grid that reads back; on a tie the even one. -/
def Binary.onGrid? (x : Binary) (k : Int) : Option Digits :=
  let d := x.steps k
  let low : Digits := ⟨d, k⟩
  let high : Digits := ⟨d + 1, k⟩
  match x.readsBack low, x.readsBack high with
  | true, false => some low
  | false, true => some high
  | false, false => none
  | true, true =>
    match compareScaled (2 * d + 1) k (2 * x.m) x.q with
    | .gt => some low
    | .lt => some high
    | .eq => some (if d % 2 = 0 then low else high)

def Binary.shortest (x : Binary) : Digits :=
  ((List.range 17).findSome? fun n => x.onGrid? (x.scale - (n + 1 : Nat))).getD ⟨x.m, x.q⟩

end QueryTypes.Decimal
