import Dataflow.Proofs.Graph.Meaning
import Dataflow.Proofs.Program.Layout

/-!
# Programs without hash tables

A program is made with hash tables of feeds, of marks and of readers. All that is looked up in them
can be read off the wires (`Graph.lookups_wiring`), so the program of a given graph can be computed
from its lists (`Graph.compile_eq_ok`), and each condition of that theorem can be decided.
-/

namespace Dataflow

/-- What is looked up when a node is bound to slots: the output that feeds an input, how many inputs
of kept nodes read an output, and the slot of a parameter. -/
structure Lookups where
  feed? : InputSocket → Option OutputSocket
  readers : OutputSocket → Nat
  parameterSlot? : ParameterId → Option Slot

namespace Lookups

/-- The slot that feeds an input. -/
def bindInput (l : Lookups) (n : Node) (s : InputSocket) : Layout (Option Slot) := fun a =>
  match l.feed? s with
  | some source =>
      match a.use source with
      | .ok (slot, a) => .ok (some slot, a)
      | .error .unregisteredWire => .error (.unregisteredWire source)
  | none =>
      match n.role with
      | .parameterRead id => .ok (if s.index = 0 then l.parameterSlot? id else none, a)
      | _ => .ok (none, a)

/-- The instruction of a node, bound to slots. -/
def place (l : Lookups) (g : Graph) (table : Table) (k : Key) : Layout Instruction := do
  match g.node? k with
  | none => throw (.missingNode k)
  | some n =>
    match table.resolve n.op with
    | none => throw (.unknownOperation k n.op)
    | some opIndex =>
      let inputSlots ← (List.range n.inputs.length).mapM fun index => l.bindInput n ⟨k, index⟩
      let outputSlots ← (List.range n.outputs).mapM fun index => fun a =>
        .ok (a.register (⟨k, index⟩ : OutputSocket) (l.readers ⟨k, index⟩))
      return {
        op := n.op, opIndex, role := n.role, source := k, literals := n.literals
        inputSlots, outputSlots, inputCache := n.defaults }

end Lookups

/-- What a wiring is looked up for. -/
def Wiring.lookups (w : Wiring) : Lookups :=
  ⟨(w.feeds[·]?), (w.readers.getD · 0), w.parameterSlot?⟩

/-- Placing a node does nothing with a wiring but look it up. -/
theorem Wiring.place_eq (w : Wiring) : w.place = w.lookups.place := rfl

namespace Graph

/-- The output that feeds an input. -/
def feed? (g : Graph) (target : InputSocket) : Option OutputSocket :=
  (g.wireTo? target).map (·.source)

/-- The outputs that feed a node, in the order of its inputs. -/
def feeders (g : Graph) (k : Key) : List OutputSocket :=
  (List.range ((g.node? k).elim 0 (·.inputs.length))).filterMap fun index => g.feed? ⟨k, index⟩

/-- What is looked up when the nodes of a live order are bound to slots. -/
def lookups (g : Graph) (order : List Key) : Lookups where
  feed? := g.feed?
  readers s := (order.flatMap g.feeders).count s
  parameterSlot? id := (g.placedParameters.find? (·.id = id)).map (·.slot)

variable {g : Graph} {table : Table} {feeds : Feeds}

/-- The feeders are the sources of the feeds. -/
theorem sources_eq (hfeeds : g.feeds? = .ok feeds) : g.sources feeds = g.feeders := by
  funext k
  exact congrArg (List.filterMap · _) (funext fun index => (map_source_wireTo? hfeeds _).symm)

/-- The nodes that a node depends on are those of its feeders. -/
theorem dependencies_eq_feeders (hfeeds : g.feeds? = .ok feeds) :
    g.dependencies feeds = fun k => (g.feeders k).map (·.node) := by
  funext k
  rw [dependencies, sources_eq hfeeds]

/-- The live order can be found without marks. -/
theorem liveOrder_of_walkListed (hfeeds : g.feeds? = .ok feeds) {root : Key} {order : List Key}
    {fuel : Nat} (horder : Dependency.walkListed (fun k => (g.feeders k).map (·.node)) fuel
      [⟨root, (g.feeders root).map (·.node)⟩] [] = some (.ok order)) :
    g.liveOrder feeds root = .ok order := by
  have hdependencies := dependencies_eq_feeders hfeeds
  have hwalk := Dependency.order_of_walkListed
    (hdependencies ▸ g.finitelyReachable_dependencies feeds root) horder
  simp only [liveOrder, hdependencies, hwalk]

/-- What the wiring of a graph is looked up for can be read off the graph. -/
theorem lookups_wiring (hfeeds : g.feeds? = .ok feeds) {order : List Key} (horder : order.Nodup) :
    (g.wiring feeds order).lookups = g.lookups order := by
  have hfeed : (feeds[·]?) = g.feed? := funext fun target => (map_source_wireTo? hfeeds target).symm
  have hreaders : ((g.wiring feeds order).readers.getD · 0) =
      fun s => (order.flatMap g.feeders).count s := by
    funext s
    rw [wiring, getD_readers hfeeds horder, sources_eq hfeeds]
  rw [Wiring.lookups, hreaders]
  exact congrArg (Lookups.mk · _ _) hfeed

/-- The program of a graph of which nodes and wires are in order, computed from its lists. -/
theorem compile_eq_ok (root : Key) (order : List Key) (fuel : Nat)
    (instructions : List Instruction) (last : Allocator OutputSocket)
    (hnodes : ∀ entry ∈ g.nodes, g.nodeFault? entry.1 entry.2 = none)
    (hwires : ∀ w ∈ g.wires.toList, g.wireFault? (fun _ => false) w = none)
    (htargets : (g.wires.toList.map (·.target)).Nodup) (hroot : g.soleOutput? = .ok root)
    (horder : Dependency.walkListed (fun k => (g.feeders k).map (·.node)) fuel
      [⟨root, (g.feeders root).map (·.node)⟩] [] = some (.ok order))
    (hplaced : order.mapM ((g.lookups order).place g table)
      (.reservedFirst g.parameters.length) = .ok (instructions, last)) :
    g.compile table = .ok {
      instructions, parameters := g.placedParameters, table
      output := if instructions.isEmpty then none else some (instructions.length - 1)
      slotCount := last.next
      stats := {
        liveNodes := instructions.length
        eliminatedNodes := g.nodeCount - instructions.length
        slotCount := last.next
        peakLiveSlots := last.peak } } := by
  obtain ⟨feeds, hfeeds⟩ := exists_feeds_iff.2 (structured_of_forall hnodes hwires htargets)
  have hlisted := liveOrder_of_walkListed hfeeds horder
  rw [← lookups_wiring hfeeds (isOrder_liveOrder hlisted).nodup, ← Wiring.place_eq] at hplaced
  exact compile_of_layOut_eq_ok hfeeds hroot hlisted (layOut_eq_ok hplaced)

end Graph

end Dataflow
