import Dataflow.Decimal.Shortest
import Dataflow.Text.Padded

/-!
# Positional text of numbers

Numbers are written without an exponent: an optional sign, the whole part, and, where there
are digits after the point, the point and those digits. `Decimal.Style` holds what differs
between the two places where numbers are written.
-/

namespace Dataflow

namespace Decimal

/-- How a number is written where its digits do not decide: what follows a number that has no digits
after the point, and what stands for the value that is no number. -/
structure Style where
  whole : String
  notANumber : String

/-- Numbers as a value shows them: `1`, `0.1`, `NaN`. -/
def Style.plain : Style := ⟨"", "NaN"⟩

/-- Numbers as configuration text has them: `1.0`, `0.1`, `nan`. -/
def Style.document : Style := ⟨".0", "nan"⟩

/-- A decimal in positional notation. -/
def text (style : Style) (d : Decimal) : String :=
  if 0 ≤ d.place then toString (d.digits * Nat.pow 10 d.place.toNat) ++ style.whole
  else
    let places := (-d.place).toNat
    toString (d.digits / Nat.pow 10 places) ++ "." ++
      Text.padLeft places '0' (toString (d.digits % Nat.pow 10 places))

end Decimal

namespace Binary.Single

/-- The shortest text that reads back as `x`, in positional notation. -/
def text (style : Decimal.Style) (x : Float32) : String :=
  if x.isNaN then style.notANumber
  else
    let sign := if isNegative x then "-" else ""
    if x.isInf then sign ++ "inf"
    else if magnitude x == 0 then sign ++ "0" ++ style.whole
    else sign ++ (Decimal.shortest .single (magnitude x)).text style

end Binary.Single

end Dataflow
