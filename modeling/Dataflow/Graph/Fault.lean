import Dataflow.Graph.Basic

/-!
# Faults of a graph

A `CompileError` is a reason why a graph has no program. `CompileError.message` words it.
-/

namespace Dataflow

/-- Why a graph has no program. There is no output node or more than one; a wire names a node, an
output or an input that does not exist, or goes to an input that has a value from elsewhere; a node
has more sockets than are supported, names a literal or a parameter that does not exist, or has an
operation that does not go with its role or is not in the table; or what the output depends on has a
cycle. The last one is that an output was read before it was registered. -/
inductive CompileError where
  | noOutputNode
  | multipleOutputNodes (count : Nat)
  | missingNode (node : Key)
  | noSuchOutput (socket : OutputSocket)
  | noSuchInput (socket : InputSocket)
  | inputAlreadyWired (socket : InputSocket)
  | tooManySockets (node : Key) (count max : Nat)
  | missingLiteral (socket : InputSocket) (literal : Nat)
  | unknownParameter (node : Key) (parameter : ParameterId)
  | roleMismatch (node : Key) (op : OpId) (role : Role)
  | unknownOperation (node : Key) (op : OpId)
  | cycleDetected (nodes : List Key)
  | unregisteredWire (socket : OutputSocket)
deriving DecidableEq, Repr

namespace CompileError

/-- Keys in brackets. -/
def listKeys (keys : List Key) : String :=
  "[" ++ ", ".intercalate (keys.map Key.text) ++ "]"

/-- The wording of an error. -/
def message : CompileError → String
  | .noOutputNode => "graph has no output node"
  | .multipleOutputNodes count => s!"graph has {count} output nodes, expected exactly one"
  | .missingNode node => s!"wire references missing node {node}"
  | .noSuchOutput ⟨node, index⟩ => s!"node {node} has no output socket {index}"
  | .noSuchInput ⟨node, index⟩ => s!"node {node} has no input socket {index}"
  | .inputAlreadyWired ⟨node, index⟩ =>
      s!"input socket {index} of node {node} has more than one wire"
  | .tooManySockets node count max =>
      s!"node {node} declares {count} sockets, at most {max} are supported"
  | .missingLiteral ⟨node, index⟩ literal =>
      s!"input socket {index} of node {node} defaults to missing literal {literal}"
  | .unknownParameter node parameter =>
      s!"node {node} reads undeclared parameter {parameter}"
  | .roleMismatch node op role => s!"node {node} has operation {op} but role {role.text}"
  | .unknownOperation node op =>
      s!"operation {op} of node {node} is not in the operation table"
  | .cycleDetected nodes => s!"cycle detected through nodes {listKeys nodes}"
  | .unregisteredWire ⟨node, index⟩ =>
      s!"output {index} of node {node} was read before it was registered"

end CompileError

end Dataflow
