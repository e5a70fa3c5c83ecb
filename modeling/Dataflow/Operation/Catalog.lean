import Dataflow.Operation.Table

/-!
# The bundled operations

Group 1 holds the graph's own nodes, group 3 the arithmetic, and group 6 the read of a
parameter. Arithmetic reads its inputs as numbers and gives out one number. The absolute value,
saturation and rounding to whole numbers leave what is no number as it is, so what signals goes
on to do so through them.
-/

namespace Dataflow.Catalog

open Binary (Single.remainder Single.ceil Single.cosine Single.floor Single.round Single.clamp
  Single.sine Single.tangent Single.zero Single.one)

/-- The identifier of the random number. -/
def randomFloat : OpId := ⟨1, 2, 0⟩

/-- The bundled operations, in the order of registration. -/
def registrations : List Registration :=
  [⟨.output, "Graph Output", .silent⟩,
   ⟨randomFloat, "Random Float", .random⟩,
   ⟨⟨3, 1, 0⟩, "Add", .binary (.combine (· + ·))⟩,
   ⟨⟨3, 2, 0⟩, "Subtract", .binary (.combine (· - ·))⟩,
   ⟨⟨3, 3, 0⟩, "Multiply", .binary (.combine (· * ·))⟩,
   ⟨⟨3, 4, 0⟩, "Modulo", .binary (.combine Single.remainder)⟩,
   ⟨⟨3, 5, 0⟩, "Divide", .binary (.combine (· / ·))⟩,
   ⟨⟨3, 7, 0⟩, "Absolute", .unary (.retain Float32.abs)⟩,
   ⟨⟨3, 8, 0⟩, "Ceil", .unary (.retain Single.ceil)⟩,
   ⟨⟨3, 9, 0⟩, "Cosine", .unary (.compute Single.cosine)⟩,
   ⟨⟨3, 10, 0⟩, "Floor", .unary (.retain Single.floor)⟩,
   ⟨⟨3, 13, 0⟩, "Round", .unary (.retain Single.round)⟩,
   ⟨⟨3, 14, 0⟩, "Saturate", .unary (.retain (Single.clamp Single.zero Single.one))⟩,
   ⟨⟨3, 15, 0⟩, "Sine", .unary (.compute Single.sine)⟩,
   ⟨⟨3, 16, 0⟩, "Square Root", .unary (.compute Float32.sqrt)⟩,
   ⟨⟨3, 17, 0⟩, "Tangent", .unary (.compute Single.tangent)⟩,
   ⟨⟨3, 23, 0⟩, "Power", .binary .power⟩,
   ⟨.parameterRead, "Get Parameter", .passThrough⟩]

/-- The table of the bundled operations. -/
def table : Table :=
  registrations.foldl Table.push .empty

end Dataflow.Catalog
