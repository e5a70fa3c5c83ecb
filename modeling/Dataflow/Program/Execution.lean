import Dataflow.Program.Basic

/-!
# Execution of instructions

Instructions share a `Memory`: the slots and the random source. An instruction first copies
its wired inputs from their slots, then runs its operation on them, and then writes what the
operation gave out to the slots of its outputs. What is given out through an output without
a slot is dropped.
-/

namespace Dataflow

/-- What the instructions of a program share: the slots and the random source. -/
structure Memory where
  slots : Array Value
  source : Random.Source

namespace Memory

/-- Empty slots. -/
def fresh (slotCount : Nat) (source : Random.Source) : Memory :=
  ⟨.replicate slotCount .empty, source⟩

/-- The value in a slot. -/
def read (m : Memory) (s : Slot) : Value := m.slots.getD s.index .empty

/-- The memory with a value put into a slot. -/
def write (m : Memory) (s : Slot) (v : Value) : Memory :=
  { m with slots := m.slots.setIfInBounds s.index v }

end Memory

namespace Instruction

/-- The instruction with its wired inputs copied from their slots. -/
def refresh (i : Instruction) (m : Memory) : Instruction :=
  { i with
    inputCache := List.zipWith (fun slot cached => slot.elim cached m.read) i.inputSlots
      i.inputCache }

/-- What the operation sees. -/
def invocation (i : Instruction) : Invocation where
  inputs := i.inputCache
  wired := i.inputSlots.map (·.isSome)
  literals := i.literals

/-- The memory with a value given out through an output. -/
def giveOut (i : Instruction) (m : Memory) (index : Nat) (v : Value) : Memory :=
  match i.outputSlots[index]? with
  | some (some slot) => m.write slot v
  | _ => m

/-- Runs the instruction once. -/
def execute (i : Instruction) (table : Table) (m : Memory) : Instruction × Memory :=
  let i := i.refresh m
  match table.get? i.opIndex with
  | none => (i, m)
  | some registration =>
      let (writes, source) := registration.operation i.invocation m.source
      (i, writes.foldl (fun m (index, v) => i.giveOut m index v) { m with source })

end Instruction

/-- Runs instructions one after another. -/
def executeAll (table : Table) : List Instruction → Memory → List Instruction × Memory
  | [], m => ([], m)
  | i :: rest, m =>
      let (i, m) := i.execute table m
      let (rest, m) := executeAll table rest m
      (i :: rest, m)

end Dataflow
