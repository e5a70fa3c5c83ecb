import Dataflow.Binary.Fixed
import Dataflow.Binary.Single

/-!
# Elementary functions of numbers of 32 bits

Each is computed in fixed point, to many more places than a number has, and rounded once, to
nearest with halves to even. Sine, cosine and tangent of a number other than zero are never
half way between two numbers. A power can be: it then has few places itself, so powers are
first rounded to `powerPlaces` places, which makes those exact.
-/

namespace Dataflow.Binary.Single

open Format (single)

/-- The angle `x`, its sign left out, in fixed point. -/
def angle (x : Float32) : Int :=
  steps x <<< (Fixed.scale - single.scale)

/-- The quotient of two fixed-point numbers, rounded; the sign is changed on demand. -/
def ofFixed (flip : Bool) (num den : Int) : Float32 :=
  ofQuotient (flip != (decide (num < 0) != decide (den < 0))) num.natAbs den.natAbs

/-- The sine of an angle in radians. -/
def sine (x : Float32) : Float32 :=
  if x.isFinite then ofFixed (isNegative x) (Fixed.sineCosine (angle x)).1 Fixed.one
  else notANumber

/-- The cosine of an angle in radians. -/
def cosine (x : Float32) : Float32 :=
  if x.isFinite then ofFixed false (Fixed.sineCosine (angle x)).2 Fixed.one
  else notANumber

/-- The tangent of an angle in radians. -/
def tangent (x : Float32) : Float32 :=
  if x.isFinite then
    let (sine, cosine) := Fixed.sineCosine (angle x)
    ofFixed (isNegative x) sine cosine
  else notANumber

/-- Whether the number is whole; infinities count as whole. -/
def isWhole (x : Float32) : Bool :=
  steps x % (1 <<< single.scale) == 0

/-- Whether the number is whole and odd. -/
def isOdd (x : Float32) : Bool :=
  isWhole x && steps x >>> single.scale % 2 == 1

/-- How many places a power is rounded to before it is rounded to a number. -/
def powerPlaces : Nat := 128

/-- The magnitude of `x` raised to the exponent `y`, for finite `x` other than zero and finite `y`,
with the given sign. Powers of two that are far out of range are cut off. -/
def powerOfFinite (negative : Bool) (x y : Float32) : Float32 :=
  let logarithm := Fixed.logarithm (steps x) - single.scale * Fixed.logTwo
  let exponent := ((if isNegative y then -logarithm else logarithm) * steps y) >>> single.scale
  let (factor, places) := Fixed.exponential exponent
  let rounded := roundHalfEven factor.toNat (1 <<< (Fixed.scale - powerPlaces))
  let places := max (-512) (min 512 places)
  ofQuotient negative (rounded <<< places.toNat) (1 <<< (powerPlaces + (-places).toNat))

/-- The power for a base or an exponent that is infinite, or a base that is zero: whether the
magnitude grows or shrinks decides. -/
def powerOfExtreme (negative : Bool) (x y : Float32) : Float32 :=
  match compare (magnitude x) (magnitude one) with
  | .eq => one
  | .lt => ofMagnitude negative (if isNegative y then single.infinity else 0)
  | .gt => ofMagnitude negative (if isNegative y then 0 else single.infinity)

/-- The base `x` raised to the exponent `y`. The exponent zero and the base one give one whatever
the other operand is. A negative base gives its sign to an odd power, and has only whole powers
unless it is zero or infinite. -/
def power (x y : Float32) : Float32 :=
  if steps y == 0 || x == one then one
  else if x.isNaN || y.isNaN then notANumber
  else
    let negative := isNegative x && isOdd y
    if x.isInf || y.isInf || steps x == 0 then powerOfExtreme negative x y
    else if isNegative x && !isWhole y then notANumber
    else powerOfFinite negative x y

end Dataflow.Binary.Single
