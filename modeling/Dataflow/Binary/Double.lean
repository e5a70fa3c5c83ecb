import Dataflow.Binary.Single

/-!
# Numbers of 64 bits

The wide format is read from decimal text and given out by coercions: `Double.widen` is exact
and `Double.narrow` rounds once, to nearest with ties to even.
-/

namespace Dataflow.Binary.Double

open Format (single double)

/-- Whether the sign bit is set. -/
def isNegative (x : Float) : Bool :=
  1 <<< 63 ≤ x.toBits.toNat

/-- The bits below the sign. -/
def magnitude (x : Float) : Nat :=
  x.toBits.toNat % (1 <<< 63)

/-- The number with the given sign and magnitude bits. -/
def ofMagnitude (negative : Bool) (bits : Nat) : Float :=
  Float.ofBits (.ofNat (if negative then bits + 1 <<< 63 else bits))

/-- The value that stands for no number. -/
def notANumber : Float :=
  .ofBits 0x7ff8000000000000

/-- Positive zero. -/
def zero : Float := ofMagnitude false 0

/-- The number one. -/
def one : Float := ofMagnitude false 0x3ff0000000000000

/-- The number nearest to `num / den` with the given sign, halves to even. -/
def ofQuotient (negative : Bool) (num den : Nat) : Float :=
  ofMagnitude negative (double.nearestRatio num den)

/-- The number nearest to an integer, halves to even. -/
def ofInt (n : Int) : Float :=
  ofQuotient (n < 0) n.natAbs 1

/-- How many steps the number has, its sign left out. -/
def steps (x : Float) : Nat :=
  double.steps (magnitude x)

/-- The same number in the wide format. -/
def widen (x : Float32) : Float :=
  if x.isNaN then notANumber
  else if x.isInf then ofMagnitude (Single.isNegative x) double.infinity
  else ofMagnitude (Single.isNegative x)
    (double.nearest (Single.steps x <<< (double.scale - single.scale)) 1)

/-- The narrow number nearest to `x`, halves to even. -/
def narrow (x : Float) : Float32 :=
  if x.isNaN then Single.notANumber
  else if x.isInf then Single.ofMagnitude (isNegative x) single.infinity
  else Single.ofMagnitude (isNegative x)
    (single.nearest (steps x) (1 <<< (double.scale - single.scale)))

end Dataflow.Binary.Double
