import Dataflow.Binary.Double
import Dataflow.Value.Basic

/-!
# Coercions

Every value can be read as any type of number, and as a truth value. A number read as an
integer loses its fraction and is clamped to the integers of the type, and what is no
number reads as zero. An integer read as a smaller one keeps its low bits, and read as a
number is rounded once. Nothing and references read as zero.
-/

namespace Dataflow.Value

open Binary (Single.truncate)

/-- The value as a number, which goes on to signal if it does. -/
def toNumber : Value → Number
  | .float x => x
  | .int n => .plain (Binary.Single.ofInt n.toInt)
  | .bool true => .plain Binary.Single.one
  | .bool false | .empty | .reference _ => .plain Binary.Single.zero

/-- The value as a number of 32 bits. -/
def toSingle (v : Value) : Float32 :=
  v.toNumber.toSingle

/-- The value as a number of 64 bits. -/
def toDouble : Value → Float
  | .float x => Binary.Double.widen x.toSingle
  | .int n => Binary.Double.ofInt n.toInt
  | .bool true => Binary.Double.one
  | .bool false | .empty | .reference _ => Binary.Double.zero

/-- The value as a signed integer of 32 bits. -/
def toInt32 : Value → Int32
  | .float x => .ofInt (Single.truncate Int32.minValue.toInt Int32.maxValue.toInt x.toSingle)
  | .int n => n.toInt32
  | .bool true => 1
  | .bool false | .empty | .reference _ => 0

/-- The value as a signed integer of 64 bits. -/
def toInt64 : Value → Int64
  | .float x => .ofInt (Single.truncate Int64.minValue.toInt Int64.maxValue.toInt x.toSingle)
  | .int n => n
  | .bool true => 1
  | .bool false | .empty | .reference _ => 0

/-- The value as an unsigned integer of 32 bits. -/
def toUInt32 : Value → UInt32
  | .float x => .ofInt (Single.truncate 0 (UInt32.size - 1) x.toSingle)
  | .int n => n.toInt32.toUInt32
  | .bool true => 1
  | .bool false | .empty | .reference _ => 0

/-- The value as an unsigned integer of 64 bits. -/
def toUInt64 : Value → UInt64
  | .float x => .ofInt (Single.truncate 0 (UInt64.size - 1) x.toSingle)
  | .int n => n.toUInt64
  | .bool true => 1
  | .bool false | .empty | .reference _ => 0

/-- Whether the value, read as a number, differs from zero. -/
def toBool : Value → Bool
  | .float x => !(x.toSingle == Binary.Single.zero)
  | .int n => n != 0
  | .bool b => b
  | .empty | .reference _ => false

end Dataflow.Value
