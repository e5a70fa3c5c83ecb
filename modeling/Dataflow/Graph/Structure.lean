import Std.Data.HashMap.Lemmas
import Dataflow.Graph.Fault

/-!
# Well-formed structure

`Graph.feeds?` checks nodes and wires and gives the output that feeds each wired input. Nodes
are checked by ascending place, then wires in the order in which they were made; the first
fault found is the one reported. `Graph.soleOutput?` finds the one output node.
-/

namespace Dataflow

/-- The output that feeds each wired input. -/
abbrev Feeds := Std.HashMap InputSocket OutputSocket

/-- The greatest number of inputs and of outputs of a node. -/
def maxSockets : Nat := 32

/-- The first input of the node whose literal does not exist. -/
def Node.missingLiteral? (n : Node) (k : Key) : Option CompileError :=
  n.inputs.zipIdx.findSome? fun (default, index) =>
    default.bind fun literal =>
      if literal < n.literals.length then none else some (.missingLiteral ⟨k, index⟩ literal)

/-- Whether a parameter is bound to the input, so that no wire may go to it. -/
def Node.readsParameterAt (n : Node) (index : Nat) : Bool :=
  match n.role with
  | .parameterRead _ => index == 0
  | _ => false

namespace Graph

/-- The first fault of a node: the number of its sockets, its literals, its role, and its
parameter, in this order. -/
def nodeFault? (g : Graph) (k : Key) (n : Node) : Option CompileError :=
  let count := max n.inputs.length n.outputs
  if maxSockets < count then some (.tooManySockets k count maxSockets)
  else (n.missingLiteral? k).or <|
    if n.isOutput != (n.role == .output) then some (.roleMismatch k n.op n.role)
    else
      match n.role with
      | .parameterRead id =>
          if (g.parameter? id).isSome then none else some (.unknownParameter k id)
      | _ => none

/-- The first fault of a wire: its source, its target, and another value for the target, in
this order. -/
def wireFault? (g : Graph) (isFed : InputSocket → Bool) (w : Wire) : Option CompileError :=
  match g.node? w.source.node with
  | none => some (.missingNode w.source.node)
  | some producer =>
    if producer.outputs ≤ w.source.index then some (.noSuchOutput w.source)
    else
      match g.node? w.target.node with
      | none => some (.missingNode w.target.node)
      | some consumer =>
        if consumer.inputs.length ≤ w.target.index then some (.noSuchInput w.target)
        else if consumer.readsParameterAt w.target.index || isFed w.target then
          some (.inputAlreadyWired w.target)
        else none

/-- Adds a wire to the feeds, unless it has a fault. -/
def addFeed (g : Graph) (feeds : Feeds) (w : Wire) : Except CompileError Feeds :=
  match g.wireFault? feeds.contains w with
  | some fault => .error fault
  | none => .ok (feeds.insert w.target w.source)

/-- The output that feeds each wired input, or the first fault of nodes and wires. -/
def feeds? (g : Graph) : Except CompileError Feeds :=
  match g.nodes.findSome? fun (k, n) => g.nodeFault? k n with
  | some fault => .error fault
  | none => g.wires.toList.foldlM g.addFeed ∅

/-- The only node that is the output. -/
def soleOutput? (g : Graph) : Except CompileError Key :=
  match (g.nodes.filter (·.2.isOutput)).map (·.1) with
  | [] => .error .noOutputNode
  | [k] => .ok k
  | many => .error (.multipleOutputNodes many.length)

/-- The outputs that feed a node, in the order of its inputs. -/
def sources (g : Graph) (feeds : Feeds) (k : Key) : List OutputSocket :=
  let inputs := (g.node? k).elim 0 (·.inputs.length)
  (List.range inputs).filterMap fun index => feeds[(⟨k, index⟩ : InputSocket)]?

/-- The nodes that feed a node, in the order of its inputs. -/
def dependencies (g : Graph) (feeds : Feeds) (k : Key) : List Key :=
  (g.sources feeds k).map (·.node)

end Graph

end Dataflow
