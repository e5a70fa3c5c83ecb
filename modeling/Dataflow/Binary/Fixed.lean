/-!
# Fixed-point numbers

A fixed-point number is an integer that counts steps of `2 ^ -scale`. Products and quotients
are rounded down to a step. The elementary functions are sums of series. Those of the inverse
tangents shrink at least ninefold from term to term, so `terms` of them leave out less than a
step; the others shrink faster and faster and do so with `fewTerms`. What rounding adds stays
within a few hundred steps.
-/

namespace Dataflow.Binary.Fixed

/-- A step is `2 ^ -scale`. -/
def scale : Nat := 384

/-- The number one. -/
def one : Int := (1 : Int) <<< scale

/-- How many terms after the first are summed of a series that shrinks at least ninefold. -/
def terms : Nat := 128

/-- How many terms after the first are summed of a series that is divided by factorials. -/
def fewTerms : Nat := 72

/-- The product of two numbers. -/
def mul (x y : Int) : Int :=
  (x * y) >>> scale

/-- The quotient of two numbers. -/
def div (x y : Int) : Int :=
  (x <<< scale) / y

/-- The sum that starts with one and in which term `k` is `x * num k / den k` times the one before,
from term `first` on. -/
def series (num den : Nat → Int) (x : Int) (first : Nat) : Nat → Int
  | 0 => one
  | count + 1 => one + mul x (series num den x (first + 1) count) * num first / den first

/-- The area tangent, which undoes the hyperbolic tangent, of a number of at most a third. -/
def areaTangent (z : Int) : Int :=
  mul z (series (fun k => 2 * k - 1) (fun k => 2 * k + 1) (mul z z) 1 terms)

/-- The arc tangent of a number of at most a third. -/
def arcTangent (z : Int) : Int :=
  mul z (series (fun k => 1 - 2 * k) (fun k => 2 * k + 1) (mul z z) 1 terms)

/-- A quarter of a turn in radians. -/
def quarterTurn : Int :=
  8 * arcTangent (one / 5) - 2 * arcTangent (one / 239)

/-- The natural logarithm of two. -/
def logTwo : Int :=
  2 * areaTangent (one / 3)

/-- The natural logarithm of a positive whole number below `2 ^ scale`. The number is written as
a power of two times a factor between three quarters and one and a half. -/
def logarithm (n : Nat) : Int :=
  let places := n.log2
  let factor : Int := n <<< (scale - places)
  let (factor, places) :=
    if 3 * one < 2 * factor then (factor / 2, places + 1) else (factor, places)
  2 * areaTangent (div (factor - one) (factor + one)) + places * logTwo

/-- The exponential of `x` as a factor between two thirds and three halves and the power of two
that it is to be multiplied by. -/
def exponential (x : Int) : Int × Int :=
  let places := (2 * x + logTwo) / (2 * logTwo)
  (series (fun _ => 1) (fun k => k) (x - places * logTwo) 1 fewTerms, places)

/-- The sine and the cosine of an angle in radians. The series are summed for what is left of the
angle, at most half a quarter turn, once the nearest whole number of quarter turns is taken away. -/
def sineCosine (angle : Int) : Int × Int :=
  let quarters := (2 * angle + quarterTurn) / (2 * quarterTurn)
  let rest := angle - quarters * quarterTurn
  let square := mul rest rest
  let sine := mul rest (series (fun _ => -1) (fun k => 2 * k * (2 * k + 1)) square 1 fewTerms)
  let cosine := series (fun _ => -1) (fun k => (2 * k - 1) * (2 * k)) square 1 fewTerms
  match (quarters % 4).toNat with
  | 0 => (sine, cosine)
  | 1 => (cosine, -sine)
  | 2 => (-sine, -cosine)
  | _ => (-cosine, sine)

end Dataflow.Binary.Fixed
