/-!
# Binary floating-point formats, counted in steps

Every finite number of a binary format is a whole number of its smallest step, so a
magnitude is a natural number and rounding is one division. `Format.steps` reads the
magnitude bits of a number as that count. `Format.nearest` goes back: it finds the bits of
the number nearest to a quotient of two counts, halves going to the even neighbour.
Magnitude bits are ordered as the numbers are, so a carry out of the significand moves
into the exponent by plain addition.
-/

namespace Dataflow.Binary

/-- The quotient `num / den` rounded to a whole number, halves to the even neighbour. -/
def roundHalfEven (num den : Nat) : Nat :=
  let quotient := num / den
  match compare (2 * (num % den)) den with
  | .lt => quotient
  | .eq => quotient + quotient % 2
  | .gt => quotient + 1

/-- The quotient `num / den` rounded up to a whole number. -/
def ceilDiv (num den : Nat) : Nat :=
  (num + (den - 1)) / den

/-- A binary floating-point format, by the widths of its two magnitude fields: the bits of the
stored significand, the leading one not counted, and those of the exponent. -/
structure Format where
  fraction : Nat
  exponent : Nat

namespace Format

/-- The format of 32 bits. -/
def single : Format := ⟨23, 8⟩

/-- The format of 64 bits. -/
def double : Format := ⟨52, 11⟩

/-- A step, the smallest positive number, is `2 ^ -scale`. -/
def scale (F : Format) : Nat :=
  1 <<< (F.exponent - 1) + F.fraction - 2

/-- The magnitude bits of infinity. Smaller ones are finite, greater ones no numbers. -/
def infinity (F : Format) : Nat :=
  (1 <<< F.exponent - 1) <<< F.fraction

/-- The least magnitude bits of no number that does not signal. -/
def quiet (F : Format) : Nat :=
  F.infinity + 1 <<< (F.fraction - 1)

/-- How many steps the number with magnitude bits `bits` has. From infinity on the pattern goes on
as if the exponent field were wider, so the infinite magnitude reads as the first power of two that
is out of range. -/
def steps (F : Format) (bits : Nat) : Nat :=
  if bits < 1 <<< F.fraction then bits
  else (1 <<< F.fraction + bits % (1 <<< F.fraction)) <<< (bits >>> F.fraction - 1)

/-- Magnitude bits of the number nearest to `num / den` steps, halves to even. -/
def nearest (F : Format) (num den : Nat) : Nat :=
  let shift := (num / den).log2 - F.fraction
  min (roundHalfEven num (den <<< shift) + shift <<< F.fraction) F.infinity

/-- Magnitude bits of the number nearest to `num / den`, halves to even. -/
def nearestRatio (F : Format) (num den : Nat) : Nat :=
  F.nearest (num <<< F.scale) den

end Format

end Dataflow.Binary
