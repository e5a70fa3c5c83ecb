import Dataflow.Graph.Basic
import Dataflow.Slot.Basic

/-!
# Programs

A program is what a graph becomes: a list of instructions in an order in which they can run,
each bound to slots of one shared array. `Program.check` tests the bindings that a run relies
on. The lists of an instruction have no bound of their own; in a program that a graph has, none is
longer than a node may have sockets, which is `maxSockets`.
-/

namespace Dataflow

/-- A node that is bound to slots, with the identifier of its operation, the place of the operation
in the table, the part that the node takes, the key of the authored node (`source`) and its
literals. Each input has the slot that feeds it, if one does, and its value at the latest run, which
is its literal before the first one. Each output has the slot that it writes, if it has one. -/
structure Instruction where
  op : OpId
  opIndex : Nat
  role : Role
  source : Key
  literals : List Value
  inputSlots : List (Option Slot)
  outputSlots : List (Option Slot)
  inputCache : List Value

/-- A named value with an identity and a slot of its own. -/
structure Parameter where
  id : ParameterId
  name : String
  value : Value
  slot : Slot

/-- The measures of a program: how many nodes were kept and how many dropped, how many slots there
are, and the greatest number of slots in use at one time. -/
structure Stats where
  liveNodes : Nat
  eliminatedNodes : Nat
  slotCount : Nat
  peakLiveSlots : Nat
deriving DecidableEq, Repr

/-- Instructions in the order in which they run, with the parameters, the place of the instruction
whose inputs are given out, the number of slots that they share, the operations, and the
measures. -/
structure Program where
  instructions : List Instruction
  parameters : List Parameter
  output : Option Nat
  slotCount : Nat
  table : Table
  stats : Stats

/-- A binding that no run could rely on: an instruction has not as many input values as inputs, an
instruction or a parameter has a slot that does not exist, an operation is not in the table, or the
place of the output is not that of an instruction. -/
inductive ProgramError where
  | inputCacheMismatch (node slots cache : Nat)
  | slotOutOfRange (node slot slotCount : Nat)
  | parameterSlotOutOfRange (parameter : ParameterId) (slot slotCount : Nat)
  | operationOutOfRange (node : Nat)
  | outputOutOfRange (index length : Nat)
deriving DecidableEq, Repr

/-- The wording of an error. -/
def ProgramError.message : ProgramError → String
  | .inputCacheMismatch node slots cache =>
      s!"node {node} binds {slots} inputs but caches {cache}"
  | .slotOutOfRange node slot slotCount =>
      s!"node {node} binds slot {slot} outside of {slotCount} slots"
  | .parameterSlotOutOfRange parameter slot slotCount =>
      s!"parameter {parameter} owns slot {slot} outside of {slotCount} slots"
  | .operationOutOfRange node => s!"node {node} dispatches to an operation outside the table"
  | .outputOutOfRange index length => s!"output node index {index} is outside of {length} nodes"

/-- The first binding of an instruction that no run could rely on. -/
def Instruction.fault? (table : Table) (slotCount index : Nat) (i : Instruction) :
    Option ProgramError :=
  if i.inputSlots.length ≠ i.inputCache.length then
    some (.inputCacheMismatch index i.inputSlots.length i.inputCache.length)
  else
    match (i.inputSlots ++ i.outputSlots).reduceOption.find? (slotCount ≤ ·.index) with
    | some slot => some (.slotOutOfRange index slot.index slotCount)
    | none =>
        if (table.get? i.opIndex).isNone then some (.operationOutOfRange index) else none

namespace Program

/-- The program without instructions. -/
def empty (table : Table) : Program := ⟨[], [], none, 0, table, ⟨0, 0, 0, 0⟩⟩

/-- Whether there is no instruction. -/
def isEmpty (p : Program) : Bool := p.instructions.isEmpty

/-- The instruction whose inputs are given out. -/
def outputInstruction? (p : Program) : Option Instruction :=
  p.output.bind (p.instructions[·]?)

/-- The first binding that no run could rely on. -/
def fault? (p : Program) : Option ProgramError :=
  (p.instructions.zipIdx.findSome? fun (i, index) => i.fault? p.table p.slotCount index).or <|
    (p.parameters.findSome? fun q =>
      if p.slotCount ≤ q.slot.index then
        some (.parameterSlotOutOfRange q.id q.slot.index p.slotCount)
      else none).or <|
    p.output.bind fun index =>
      if p.instructions.length ≤ index then
        some (.outputOutOfRange index p.instructions.length)
      else none

/-- Whether a run can rely on every binding. -/
def isValid (p : Program) : Bool := p.fault?.isNone

end Program

end Dataflow
