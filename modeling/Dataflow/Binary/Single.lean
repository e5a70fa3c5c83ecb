import Dataflow.Binary.Format

/-!
# Exact operations on numbers of 32 bits

Rounding to a whole number, remainder, clamping and the conversions to and from integers,
all computed on the count of steps that a magnitude stands for. `Single.ofQuotient` rounds
once, to nearest with ties to even; `Single.truncate` drops the fraction and then clamps.
`Single.ofBits_eq_notANumber` says that there is one value that is no number, whatever its bits.
-/

namespace Dataflow.Binary.Single

open Format (single)

/-- Whether the sign bit is set. -/
def isNegative (x : Float32) : Bool :=
  1 <<< 31 ≤ x.toBits.toNat

/-- The bits below the sign. -/
def magnitude (x : Float32) : Nat :=
  x.toBits.toNat % (1 <<< 31)

/-- The number with the given sign and magnitude bits. -/
def ofMagnitude (negative : Bool) (bits : Nat) : Float32 :=
  Float32.ofBits (.ofNat (if negative then bits + 1 <<< 31 else bits))

/-- The value that stands for no number. -/
def notANumber : Float32 :=
  .ofBits 0x7fc00000

/-- A pattern beyond infinity has its whole exponent set and some of its fraction. -/
theorem unpack_eq_notANumber {bits : BitVec 32} (h : single.infinity < bits.toNat % (1 <<< 31)) :
    Float.Model.UnpackedFloat.unpack .binary32 bits = .notANumber := by
  simp only [Format.infinity, single, Nat.shiftLeft_eq] at h
  have exponent : @Float.Model.UnpackedFloat.unpackExponent .binary32 bits = -1#8 := by
    apply BitVec.eq_of_toNat_eq
    simp [Float.Model.UnpackedFloat.unpackExponent, Nat.shiftRight_eq_div_pow]
    omega
  have fraction : @Float.Model.UnpackedFloat.unpackMantissa .binary32 bits ≠ 0#23 := by
    intro zero
    have := congrArg BitVec.toNat zero
    simp [Float.Model.UnpackedFloat.unpackMantissa] at this
    omega
  -- an exponent field of ones with a fraction in it is read as no number
  exact (if_pos exponent).trans (if_neg fraction)

/-- All patterns beyond infinity stand for the one value that is no number. -/
theorem ofBits_eq_notANumber {bits : UInt32} (h : single.infinity < bits.toNat % (1 <<< 31)) :
    Float32.ofBits bits = notANumber := by
  simp only [notANumber, Float32.ofBits, Float32.Model.ofBits]
  rw [unpack_eq_notANumber h, unpack_eq_notANumber (by decide)]

/-- Positive zero. -/
def zero : Float32 := ofMagnitude false 0

/-- The number one. -/
def one : Float32 := ofMagnitude false 0x3f800000

/-- The number nearest to `num / den` with the given sign, halves to even. -/
def ofQuotient (negative : Bool) (num den : Nat) : Float32 :=
  ofMagnitude negative (single.nearestRatio num den)

/-- The number nearest to an integer, halves to even. -/
def ofInt (n : Int) : Float32 :=
  ofQuotient (n < 0) n.natAbs 1

/-- How many steps the number has, its sign left out. -/
def steps (x : Float32) : Nat :=
  single.steps (magnitude x)

/-- The number without its fraction, clamped to the interval from `low` to `high`; what is no
number gives zero. An infinity clamps, since its steps exceed every interval of 64 bits. -/
def truncate (low high : Int) (x : Float32) : Int :=
  if x.isNaN then 0
  else
    let whole : Int := steps x >>> single.scale
    max low (min high (if isNegative x then -whole else whole))

/-- Replaces the magnitude of a finite number by the whole number that `round` picks. -/
def integral (round : Nat → Nat → Nat) (x : Float32) : Float32 :=
  if x.isFinite then ofQuotient (isNegative x) (round (steps x) (1 <<< single.scale)) 1
  else x

/-- The greatest whole number that is not above `x`. -/
def floor (x : Float32) : Float32 :=
  integral (if isNegative x then ceilDiv else (· / ·)) x

/-- The least whole number that is not below `x`. -/
def ceil (x : Float32) : Float32 :=
  integral (if isNegative x then (· / ·) else ceilDiv) x

/-- The whole number nearest to `x`, halves to even. -/
def round (x : Float32) : Float32 :=
  integral roundHalfEven x

/-- The remainder of `x` by `y` under division toward zero, exact and with the sign of `x`. There
is none for an infinite `x` or a zero `y`; an infinite `y` leaves `x` as it is. -/
def remainder (x y : Float32) : Float32 :=
  if x.isNaN || y.isNaN || x.isInf || steps y == 0 then notANumber
  else if y.isInf then x
  else ofMagnitude (isNegative x) (single.nearest (steps x % steps y) 1)

/-- Moves `x` into the interval from `low` to `high`; what is no number stays so. -/
def clamp (low high x : Float32) : Float32 :=
  let raised := if x < low then low else x
  if high < raised then high else raised

end Dataflow.Binary.Single
