/-!
# Slots

A slot is a place in the array of values that the nodes of a program share. Its index is a number
without a bound; an index of 32 bits is the same one in every array of fewer than `2 ^ 32` values.
-/

namespace Dataflow

/-- A place in the shared array of values, by its index. -/
structure Slot where
  index : Nat
deriving DecidableEq, Repr

namespace Slot

/-- The index after a dollar sign. -/
def text (s : Slot) : String := s!"${s.index}"

/-- A slot is shown as its text. -/
instance : ToString Slot := ⟨text⟩

end Slot

end Dataflow
