import Std.Data.HashSet.Basic
import Dataflow.Dependency.Order
import Dataflow.Graph.Structure
import Dataflow.Program.Basic
import Dataflow.Slot.Allocator

/-!
# From graphs to programs

`Graph.compile` keeps the nodes that the output depends on, puts each after the nodes that
feed it, and gives slots to their outputs. Parameters get the first slots and keep them. An
output gets a slot when its node is placed, if an input of a kept node reads it, and gives
the slot back once the last of these inputs is bound. A node's inputs are bound before its
outputs get slots, so an output may take the slot of an input of the same node.
-/

namespace Dataflow

/-- How often each item occurs in a list; items that do not occur have no entry. -/
def occurrences {α : Type} [DecidableEq α] [Hashable α] (l : List α) : Std.HashMap α Nat :=
  l.foldl (fun counts a => counts.insert a (counts.getD a 0 + 1)) ∅

/-- The feeds of the inputs of the given nodes. -/
def Feeds.among (feeds : Feeds) (nodes : List Key) : List (InputSocket × OutputSocket) :=
  let kept := Std.HashSet.ofList nodes
  feeds.toList.filter fun feed => kept.contains feed.1.node

/-- How many inputs of the given nodes each output feeds. -/
def Feeds.readers (feeds : Feeds) (nodes : List Key) : Std.HashMap OutputSocket Nat :=
  occurrences ((feeds.among nodes).map (·.2))

/-- For each input the value that it has while it is not wired. -/
def Node.defaults (n : Node) : List Value :=
  n.inputs.map fun default => (default.bind (n.literals[·]?)).getD .empty

/-- Placing nodes hands out slots to their outputs, and may fail. -/
abbrev Layout := StateT (Allocator OutputSocket) (Except CompileError)

/-- What binding a node to slots looks up: the output that feeds each wired input, how many inputs
of kept nodes read each output, and the parameters with their slots. -/
structure Wiring where
  feeds : Feeds
  readers : Std.HashMap OutputSocket Nat
  parameters : List Parameter

namespace Wiring

/-- The slot of a parameter. -/
def parameterSlot? (w : Wiring) (id : ParameterId) : Option Slot :=
  (w.parameters.find? (·.id = id)).map (·.slot)

/-- The slot that feeds an input: that of its wire, or that of the parameter which the first
input of a parameter read stands for. -/
def bindInput (w : Wiring) (n : Node) (s : InputSocket) : Layout (Option Slot) := fun a =>
  match w.feeds[s]? with
  | some source =>
      match a.use source with
      | .ok (slot, a) => .ok (some slot, a)
      | .error .unregisteredWire => .error (.unregisteredWire source)
  | none =>
      match n.role with
      | .parameterRead id => .ok (if s.index = 0 then w.parameterSlot? id else none, a)
      | _ => .ok (none, a)

/-- The slot that an output writes, if an input reads it. -/
def bindOutput (w : Wiring) (s : OutputSocket) : Layout (Option Slot) := fun a =>
  .ok (a.register s (w.readers.getD s 0))

/-- The instruction of a node, bound to slots. -/
def place (w : Wiring) (g : Graph) (table : Table) (k : Key) : Layout Instruction := do
  match g.node? k with
  | none => throw (.missingNode k)
  | some n =>
    match table.resolve n.op with
    | none => throw (.unknownOperation k n.op)
    | some opIndex =>
      let inputSlots ← (List.range n.inputs.length).mapM fun index => w.bindInput n ⟨k, index⟩
      let outputSlots ← (List.range n.outputs).mapM fun index => w.bindOutput ⟨k, index⟩
      return {
        op := n.op, opIndex, role := n.role, source := k, literals := n.literals
        inputSlots, outputSlots, inputCache := n.defaults }

end Wiring

namespace Graph

open Dependency (FinitelyReachable)

/-- Every node that feeds another is the source of a feed, so finitely many can be reached. -/
theorem finitelyReachable_dependencies (g : Graph) (feeds : Feeds) (root : Key) :
    FinitelyReachable (g.dependencies feeds) root := by
  refine .of_forall_mem root (feeds.toList.map (·.2.node)) fun k d hd => ?_
  simp only [dependencies, sources, List.mem_map, List.mem_filterMap] at hd
  obtain ⟨source, ⟨index, -, hsource⟩, rfl⟩ := hd
  exact List.mem_map.2 ⟨_, Std.HashMap.mem_toList_iff_getElem?_eq_some.2 hsource, rfl⟩

/-- The nodes that a node depends on, each after the nodes that feed it. -/
def liveOrder (g : Graph) (feeds : Feeds) (root : Key) : Except CompileError (List Key) :=
  match Dependency.order (g.dependencies feeds) root (g.finitelyReachable_dependencies feeds root)
  with
  | .ok order => .ok order
  | .error cycle => .error (.cycleDetected cycle.path)

/-- Gives each parameter a slot. -/
def placeParameters (g : Graph) : Layout (List Parameter) :=
  g.parameters.mapM fun (id, p) => fun a =>
    let (slot, a) := a.reserve
    .ok (⟨id, p.name, p.value, slot⟩, a)

/-- Places the parameters and then the nodes in the given order. -/
def layOut (g : Graph) (table : Table) (feeds : Feeds) (order : List Key) :
    Layout (List Parameter × List Instruction) := do
  let parameters ← g.placeParameters
  let wiring : Wiring := ⟨feeds, feeds.readers order, parameters⟩
  let instructions ← order.mapM (wiring.place g table)
  return (parameters, instructions)

/-- The program of a graph, or the first reason why there is none. -/
def compile (g : Graph) (table : Table) : Except CompileError Program := do
  let feeds ← g.feeds?
  let root ← g.soleOutput?
  let order ← g.liveOrder feeds root
  let ((parameters, instructions), allocator) ← g.layOut table feeds order .empty
  return {
    instructions, parameters, table
    output := if instructions.isEmpty then none else some (instructions.length - 1)
    slotCount := allocator.slotCount
    stats := {
      liveNodes := instructions.length
      eliminatedNodes := g.nodeCount - instructions.length
      slotCount := allocator.slotCount
      peakLiveSlots := allocator.peak } }

end Graph

end Dataflow
