/-!
# Padding

Text brought to a width, counted in characters, by repeating a character before or after it.
Text that is wide enough stays as it is.
-/

namespace Dataflow.Text

/-- The text with as many `fill` before it as the width takes. -/
def padLeft (width : Nat) (fill : Char) (s : String) : String :=
  .ofList (s.toList.leftpad width fill)

/-- The text with as many `fill` after it as the width takes. -/
def padRight (width : Nat) (fill : Char) (s : String) : String :=
  .ofList (s.toList.rightpad width fill)

end Dataflow.Text
