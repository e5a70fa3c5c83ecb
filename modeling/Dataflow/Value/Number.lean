import Dataflow.Binary.Elementary

/-!
# Numbers as they are held

A slot holds a number of 32 bits as it was stored. Among the patterns that stand for no number
some signal: they mark a datum that is not to be computed with. Arithmetic takes one for the
plain not-a-number and gives out only numbers that do not signal, so `Float32` has no place for
them. What moves a number without computing keeps it as it is. `toSingle_ofBits` says that
arithmetic sees of a pattern what `Float32.ofBits` makes of it.
-/

namespace Dataflow

open Binary

/-- A number of 32 bits as it is held: one that does not signal, or a not-a-number that does. -/
inductive Number where
  | plain (x : Float32)
  | signaling

namespace Number

/-- The number with a bit pattern. -/
def ofBits (bits : UInt32) : Number :=
  let magnitude := bits.toNat % (1 <<< 31)
  if Format.single.infinity < magnitude ∧ magnitude < Format.single.quiet then .signaling
  else .plain (.ofBits bits)

/-- What arithmetic sees of the number. -/
def toSingle : Number → Float32
  | .plain x => x
  | .signaling => Single.notANumber

/-- Arithmetic sees of a pattern what it stands for, whether it signals or not. -/
theorem toSingle_ofBits (bits : UInt32) : (ofBits bits).toSingle = Float32.ofBits bits := by
  unfold ofBits
  simp only
  split
  · rename_i signals
    exact (Single.ofBits_eq_notANumber signals.1).symm
  · rfl

/-- A function of a number; what is computed does not signal. -/
def compute (f : Float32 → Float32) (x : Number) : Number :=
  .plain (f x.toSingle)

/-- A function of two numbers; what is computed does not signal. -/
def combine (f : Float32 → Float32 → Float32) (x y : Number) : Number :=
  .plain (f x.toSingle y.toSingle)

/-- A function that lets pass what is no number; what signals goes on to do so. -/
def retain (f : Float32 → Float32) : Number → Number
  | .plain x => .plain (f x)
  | .signaling => .signaling

/-- The base `x` raised to the exponent `y`. The exponent zero and the base one give one whatever
the other operand is, unless that one signals. -/
def power : Number → Number → Number
  | .plain x, .plain y => .plain (Single.power x y)
  | _, _ => .plain Single.notANumber

end Number

end Dataflow
