import Dataflow.Graph.Arena
import Dataflow.Operation.Catalog

/-!
# Authored graphs

A graph has nodes, wires from outputs to inputs, and parameters. It is what an editor makes
and changes: nothing is checked when a piece is added, and a wire may name a node that does
not exist. Removing a node removes its wires with it.
-/

namespace Dataflow

/-- The identity of a parameter, 128 bits that whoever authors the graph chooses. -/
structure ParameterId where
  bits : BitVec 128
deriving DecidableEq, Repr

namespace ParameterId

/-- The bits as 32 hexadecimal digits in five groups. -/
def text (id : ParameterId) : String :=
  let digits := Nat.toDigits 16 id.bits.toNat
  let padded := List.replicate (32 - digits.length) '0' ++ digits
  let group (start count : Nat) := String.ofList ((padded.drop start).take count)
  "-".intercalate [group 0 8, group 8 4, group 12 4, group 16 4, group 20 12]

/-- A parameter identity is shown as its text. -/
instance : ToString ParameterId := ⟨text⟩

end ParameterId

/-- An output of a node, by its number. -/
structure OutputSocket where
  node : Key
  index : Nat
deriving DecidableEq, Hashable, Repr

/-- An input of a node, by its number. -/
structure InputSocket where
  node : Key
  index : Nat
deriving DecidableEq, Hashable, Repr

/-- A connection from an output, where values come from, to an input, where they go. -/
structure Wire where
  source : OutputSocket
  target : InputSocket
deriving DecidableEq, Repr

/-- The part that a node takes in an evaluation: it computes (`operation`), it reads a parameter
through its first input (`parameterRead`), or its inputs are what the graph gives out (`output`). -/
inductive Role where
  | operation
  | parameterRead (id : ParameterId)
  | output
deriving DecidableEq, Repr

/-- How a role is shown. -/
def Role.text : Role → String
  | .operation => "Operation"
  | .parameterRead id => s!"ParameterRead(ParameterId({id}))"
  | .output => "Output"

/-- An authored node: its operation, the part that it takes, the literals that belong to it, for
each input the number of the literal that the input has while it is not wired, and how many outputs
there are. -/
structure Node where
  op : OpId
  role : Role
  literals : List Value
  inputs : List (Option Nat)
  outputs : Nat

namespace Node

/-- A node without sockets for an operation. The graph's output takes its own part. -/
def ofOp (op : OpId) : Node :=
  ⟨op, if op = .output then .output else .operation, [], [], 0⟩

/-- The node with one more literal. -/
def addLiteral (n : Node) (v : Value) : Node :=
  { n with literals := n.literals ++ [v] }

/-- The node with one more input, which has a literal while it is not wired. -/
def addInput (n : Node) (default : Option Nat) : Node :=
  { n with inputs := n.inputs ++ [default] }

/-- The node with one more input, which has the given value while it is not wired. -/
def addInputLiteral (n : Node) (v : Value) : Node :=
  (n.addLiteral v).addInput (some n.literals.length)

/-- The node with as many outputs as given. -/
def withOutputs (n : Node) (count : Nat) : Node :=
  { n with outputs := count }

/-- The graph's output, with one input. -/
def output : Node := (ofOp .output).addInput none

/-- A node that reads a parameter. -/
def parameterRead (id : ParameterId) : Node :=
  ({ ofOp .parameterRead with role := .parameterRead id }.addInput none).withOutputs 1

/-- A node with one output and an input for each of the given defaults. -/
def arithmetic (op : OpId) (defaults : List Number) : Node :=
  (defaults.foldl (fun n x => n.addInputLiteral (.float x)) (ofOp op)).withOutputs 1

/-- A node that gives out a random number. -/
def random : Node := (ofOp Catalog.randomFloat).withOutputs 1

/-- Whether the node has the identifier of the graph's output. -/
def isOutput (n : Node) : Bool := n.op = .output

end Node

/-- A named value that is set from outside, with the value at the start. -/
structure ParameterDescription where
  name : String
  value : Value

/-- Nodes, wires and parameters as authored. Wires are in the order in which they were made, and
parameters in the order in which their identities first came. -/
structure Graph where
  arena : Arena Node
  wires : Array Wire
  parameters : List (ParameterId × ParameterDescription)

namespace Graph

/-- The graph without anything in it. -/
def empty : Graph := ⟨.empty, #[], []⟩

/-- The node under a key. -/
def node? (g : Graph) (k : Key) : Option Node := g.arena.get? k

/-- The nodes with their keys, by ascending place. -/
def nodes (g : Graph) : List (Key × Node) := g.arena.toList

/-- How many nodes there are. -/
def nodeCount (g : Graph) : Nat := g.arena.size

/-- The graph with one more node, and the key of it. -/
def addNode (g : Graph) (n : Node) : Key × Graph :=
  (g.arena.nextKey, { g with arena := g.arena.add n })

/-- The graph with `f` applied to the node under a key. -/
def updateNode (g : Graph) (k : Key) (f : Node → Node) : Graph :=
  { g with arena := g.arena.update k f }

/-- The graph without the node under a key and without its wires. -/
def removeNode (g : Graph) (k : Key) : Graph :=
  if g.arena.contains k then
    { g with
      arena := g.arena.remove k
      wires := g.wires.filter fun w => w.source.node ≠ k ∧ w.target.node ≠ k }
  else g

/-- The graph with one more wire. -/
def connect (g : Graph) (w : Wire) : Graph :=
  { g with wires := g.wires.push w }

/-- The graph without any wire equal to the given one. -/
def disconnect (g : Graph) (w : Wire) : Graph :=
  { g with wires := g.wires.filter (· ≠ w) }

/-- The parameter with an identity. -/
def parameter? (g : Graph) (id : ParameterId) : Option ParameterDescription :=
  g.parameters.lookup id

/-- The graph with a parameter, which takes the place of the one with its identity. -/
def insertParameter (g : Graph) (id : ParameterId) (p : ParameterDescription) : Graph :=
  { g with
    parameters :=
      if (g.parameter? id).isSome then
        g.parameters.map fun entry => if entry.1 = id then (id, p) else entry
      else g.parameters ++ [(id, p)] }

/-- The graph without the parameter with an identity. -/
def removeParameter (g : Graph) (id : ParameterId) : Graph :=
  { g with parameters := g.parameters.filter (·.1 ≠ id) }

end Graph

end Dataflow
