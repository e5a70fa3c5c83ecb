import Dataflow.Binary.Single

/-!
# Shortest decimals of binary numbers

`shortest` writes a positive finite number with the fewest digits that still round back to
it, and among those with the digits nearest to it. The numbers that round back form an
interval, which holds its two ends exactly when the magnitude bits are even. A decimal grid
has a point in the interval only if one of the number's two neighbours on the grid is in
it, so the coarsest grid with such a neighbour decides.
-/

namespace Dataflow

/-- The number `digits * 10 ^ place`. -/
structure Decimal where
  digits : Nat
  place : Int
deriving Repr, DecidableEq

namespace Decimal

open Binary (Format)

/-- The numbers that round to given magnitude bits, measured in half steps: those from `low` to
`high`, around the number itself in the `centre`. The ends are among them if the interval is
`closed`. -/
structure Interval where
  low : Nat
  centre : Nat
  high : Nat
  closed : Bool

/-- The interval of the numbers that round to `bits`: half way to either neighbour. -/
def Interval.around (F : Format) (bits : Nat) : Interval where
  low := F.steps (bits - 1) + F.steps bits
  centre := 2 * F.steps bits
  high := F.steps bits + F.steps (bits + 1)
  closed := bits % 2 == 0

/-- Whether `num / den` half steps lie in the interval. -/
def Interval.contains (I : Interval) (num den : Nat) : Bool :=
  if I.closed then I.low * den ≤ num && num ≤ I.high * den
  else I.low * den < num && num < I.high * den

/-- A grid point is a multiple of `(gridStep F place).1 / (gridStep F place).2` half steps. -/
def gridStep (F : Format) (place : Int) : Nat × Nat :=
  (Nat.pow 10 place.toNat <<< (F.scale + 1), Nat.pow 10 (-place).toNat)

/-- The multiple of `10 ^ place` in the interval that is nearest to its centre, if one of the
centre's two neighbours lies in it. Of two equally near the upper one is taken. -/
def Interval.onGrid? (I : Interval) (F : Format) (place : Int) : Option Nat :=
  let (num, den) := gridStep F place
  let below := I.centre * den / num
  let rest := I.centre * den % num
  match I.contains (below * num) den, I.contains ((below + 1) * num) den with
  | true, true => some (if num ≤ 2 * rest then below + 1 else below)
  | true, false => some below
  | false, true => some (below + 1)
  | false, false => none

/-- The decimal of the coarsest grid with a point in the interval, the grids being tried from
`10 ^ (count - scale)` down. -/
def coarsest (F : Format) (I : Interval) : Nat → Decimal
  | 0 => ⟨(I.onGrid? F (-F.scale)).getD 0, -F.scale⟩
  | count + 1 =>
    let place : Int := (count + 1 : Nat) - (F.scale : Int)
    match I.onGrid? F place with
    | some digits => ⟨digits, place⟩
    | none => coarsest F I count

/-- The shortest decimal that rounds to the positive finite number with magnitude bits `bits`. The
search starts at a power of ten above the number: a whole number of `n + 1` binary digits is below
`10 ^ (n + 1)`. -/
def shortest (F : Format) (bits : Nat) : Decimal :=
  coarsest F (.around F bits) (F.scale + (F.steps bits >>> F.scale).log2 + 1)

end Decimal

end Dataflow
