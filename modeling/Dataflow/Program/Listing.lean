import Dataflow.Program.Basic
import Dataflow.Text.Padded

/-!
# Listings

The listing of a program has a line with the number of slots, a line for each parameter and
a line for each instruction. A slot is shown with its index, and an underscore stands where
there is none.
-/

namespace Dataflow

/-- Slots in brackets. -/
def listSlots (slots : List (Option Slot)) : String :=
  "[" ++ ", ".intercalate (slots.map fun slot => slot.elim "_" Slot.text) ++ "]"

/-- The line of a parameter. -/
def Parameter.line (p : Parameter) : String :=
  "param " ++ Text.quote p.name ++ " -> " ++ p.slot.text

/-- The line of an instruction: its place in at least four characters, its operation, the name
of that in at least fourteen, and its slots. -/
def Instruction.line (i : Instruction) (table : Table) (index : Nat) (isOutput : Bool) : String :=
  let name := (table.get? i.opIndex).elim "?" (·.name)
  Text.padLeft 4 ' ' (toString index) ++ ": " ++ i.op.text ++ " " ++
    Text.padRight 14 ' ' name ++ " " ++ listSlots i.inputSlots ++ " -> " ++
    listSlots i.outputSlots ++
    (if isOutput then "  ; output" else "")

namespace Program

/-- The lines of the listing. -/
def lines (p : Program) : List String :=
  s!"; {p.slotCount} slots" :: p.parameters.map Parameter.line ++
    p.instructions.zipIdx.map fun (i, index) => i.line p.table index (p.output == some index)

/-- The listing, each line ended by a line feed. -/
def listing (p : Program) : String :=
  String.join (p.lines.map (· ++ "\n"))

end Program

end Dataflow
