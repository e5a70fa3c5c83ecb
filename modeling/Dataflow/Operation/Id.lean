/-!
# Operation identifiers

An operation is named by three numbers. Group and kind classify it, and the method selects
one of several operations of the same kind.
-/

namespace Dataflow

/-- The name of an operation: its group, its kind within the group, and its method within the
kind. -/
structure OpId where
  group : UInt16
  kind : UInt16
  method : UInt16
deriving DecidableEq, Hashable, Repr

namespace OpId

/-- The identifier of the graph's output. Exactly one node of a graph carries it. -/
def output : OpId := ⟨1, 1, 0⟩

/-- The identifier of the read of a parameter. -/
def parameterRead : OpId := ⟨6, 1, 0⟩

/-- The three numbers in parentheses. -/
def text (op : OpId) : String :=
  s!"({op.group}, {op.kind}, {op.method})"

/-- An identifier is shown as its text. -/
instance : ToString OpId := ⟨text⟩

end OpId

end Dataflow
