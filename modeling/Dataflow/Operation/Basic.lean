import Dataflow.Operation.Id
import Dataflow.Random.Source
import Dataflow.Value.Coercion

/-!
# Operations

An operation is what a node does when it runs. It sees the values of the node's inputs,
which of them are wired, and the node's literals; it may draw from the random source; and
it gives values out through numbered outputs. It sees no slot, so what a node does depends
on nothing but its `Invocation` and its draws.
-/

namespace Dataflow

/-- What an operation sees of the node it runs for: the current value of each input, whether each
input is bound to a slot, and the literals of the node. -/
structure Invocation where
  inputs : List Value
  wired : List Bool
  literals : List Value

namespace Invocation

/-- The value of input `i`; inputs that are not declared hold nothing. -/
def input (call : Invocation) (i : Nat) : Value :=
  call.inputs.getD i .empty

/-- Whether input `i` is bound to a slot. -/
def isWired (call : Invocation) (i : Nat) : Bool :=
  call.wired.getD i false

/-- Literal `i`; literals that do not exist hold nothing. -/
def literal (call : Invocation) (i : Nat) : Value :=
  call.literals.getD i .empty

end Invocation

/-- Values given out, each with the number of its output, in the order of writing. -/
abbrev Writes := List (Nat × Value)

/-- What a node does when it runs. -/
abbrev Operation := Invocation → StateM Random.Source Writes

namespace Operation

/-- Gives out nothing. -/
def silent : Operation := fun _ => pure []

/-- Gives out a function of the first input, read as a number. -/
def unary (f : Number → Number) : Operation := fun call =>
  pure [(0, .float (f (call.input 0).toNumber))]

/-- Gives out a function of the first two inputs, read as numbers. -/
def binary (f : Number → Number → Number) : Operation := fun call =>
  pure [(0, .float (f (call.input 0).toNumber (call.input 1).toNumber))]

/-- Gives out a drawn number from zero up to one. -/
def random : Operation := fun _ => do
  let x ← Random.Source.draw
  return [(0, .float (.plain x))]

/-- Gives out the first input as it is. -/
def passThrough : Operation := fun call =>
  pure [(0, call.input 0)]

end Operation

end Dataflow
