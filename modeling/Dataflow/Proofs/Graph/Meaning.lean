import Dataflow.Proofs.Graph.Feeds
import Dataflow.Proofs.Program.Execution

/-!
# What a graph means

The meaning of a graph is given on its nodes and wires alone, without slots. The live nodes run
one after another. A wired input has the value that its producer gave out last through the very
output the wire comes from, in the same evaluation; the first input of a parameter read has the
current value of the parameter; any other input has its default. `Graph.runs?` computes the runs
of an evaluation, and has no result if a wired input would be read that has no value.
-/

namespace Dataflow

namespace Graph

/-- The wire that leads to an input. -/
def wireTo? (g : Graph) (target : InputSocket) : Option Wire :=
  g.wires.toList.find? (·.target = target)

/-- Whether each input of a node is wired or stands for a parameter. -/
def boundInputs (g : Graph) (k : Key) (n : Node) : List Bool :=
  (List.range n.inputs.length).map fun index =>
    (g.wireTo? ⟨k, index⟩).isSome || n.readsParameterAt index

/-- What the operation of a node sees of it, given the values of its inputs. -/
def call (g : Graph) (k : Key) (n : Node) (inputs : List Value) : Invocation :=
  ⟨inputs, g.boundInputs k n, n.literals⟩

end Graph

namespace Graph

variable {g : Graph} {feeds : Feeds}

/-- The wire that leads to an input is the one that feeds it. -/
theorem map_source_wireTo? (hfeeds : g.feeds? = .ok feeds) (target : InputSocket) :
    (g.wireTo? target).map (·.source) = feeds[target]? := by
  cases hfound : g.wireTo? target with
  | none =>
      symm
      rw [Option.map_none, Option.eq_none_iff_forall_ne_some]
      intro source hfeed
      have hw := Array.mem_toList_iff.2 ((getElem?_feeds hfeeds).1 hfeed)
      simpa using List.find?_eq_none.1 hfound _ hw
  | some w =>
      have htarget : w.target = target := by simpa using List.find?_some hfound
      have hw : w ∈ g.wires := Array.mem_toList_iff.1 (List.mem_of_find?_eq_some hfound)
      subst htarget
      exact ((getElem?_feeds hfeeds).2 hw).symm

end Graph

end Dataflow
