import Dataflow.Text.Extending
import Dataflow.Text.Invisible

/-!
# Characters that do not stand alone in print

A character does not stand alone if nothing is seen of it or if it joins the one before it.
Up to the tilde only the controls do not, so for these the tables are not searched.
-/

namespace Dataflow.Text

/-- Whether a code point lies in one of the ranges. -/
def inRanges (ranges : List (Nat × Nat)) (n : Nat) : Bool :=
  ranges.any fun (low, high) => low ≤ n && n ≤ high

/-- Whether a character is written by its code point where text is quoted. -/
def isUnprintable (c : Char) : Bool :=
  if c.toNat < 0x7f then c.toNat < 0x20
  else inRanges invisibleRanges c.toNat || inRanges extendingRanges c.toNat

end Dataflow.Text
