import Dataflow.Proofs.Program.Validity
import Dataflow.Proofs.Runner.History

/-!
# Requests to a runner

A host starts a runner with a program, lets it perform actions, and loads other programs, which may
be compiled over other tables. Slots, table, instructions and parameters change together when a
program is loaded, so in every state that can be reached they fit each other
(`Runner.Reachable.sound`).
-/

namespace Dataflow

/-- What a host asks of a runner: to perform an action, or to go on with another program. -/
inductive Request where
  | act (action : Action)
  | load (p : Program)

/-- A program that a host can have: that of a graph, or the one without instructions, over a table
that was built. -/
inductive Program.Obtained : Program → Prop
  | compiled {g : Graph} {table : Table} {p : Program} (built : table.Built)
      (compiled : g.compile table = .ok p) : Obtained p
  | empty {table : Table} (built : table.Built) : Obtained (.empty table)

/-- Every program that a host can have is sound. -/
theorem Program.Obtained.sound {p : Program} (h : p.Obtained) : p.Sound := by
  cases h with
  | compiled built compiled => exact Graph.compile_sound built compiled
  | empty built => exact .nil _ _

/-- A program that is to be loaded is one that a host can have. -/
def Request.Admissible : Request → Prop
  | .act _ => True
  | .load p => p.Obtained

/-- Parameters with the same slots are bound as soundly. -/
theorem Binding.of_slots {table : Table} {slotCount : Nat} {instructions : List Instruction}
    {parameters parameters' : List Parameter} {output : Option Nat}
    (h : Binding table slotCount instructions parameters output)
    (hslots : parameters'.map (·.slot) = parameters.map (·.slot)) :
    Binding table slotCount instructions parameters' output where
  cache := h.cache
  inputs := h.inputs
  outputs := h.outputs
  parameters q hq := by
    have hslot : q.slot ∈ parameters.map (·.slot) := hslots ▸ List.mem_map_of_mem hq
    obtain ⟨q', hq', heq⟩ := List.mem_map.1 hslot
    exact heq ▸ h.parameters q' hq'
  operation := h.operation
  output := h.output
  gives := h.gives

namespace Runner

/-- Does what is asked, and tells whether the graph was evaluated. -/
def serve (r : Runner) : Request → Bool × Runner
  | .act action => r.perform action
  | .load p => (false, r.load p)

/-- What a host sees of requests, one after another: whether the graph was evaluated, and what is
published then. -/
def answers (r : Runner) : List Request → List (Bool × List Float32)
  | [] => []
  | request :: rest =>
      ((r.serve request).1, (r.serve request).2.outputs) :: (r.serve request).2.answers rest

/-- The states of runners that are started with programs and serve requests. -/
inductive Reachable : Runner → Prop
  | start {p : Program} (obtained : p.Obtained) (config : Config) (entropy : Random.Source) :
      Reachable (.start p config entropy)
  | serve {r : Runner} (reachable : r.Reachable) {request : Request}
      (admissible : request.Admissible) : Reachable (r.serve request).2

/-- Instructions, parameters and output fit the table and the slots of the runner. -/
def Sound (r : Runner) : Prop :=
  Binding r.table r.memory.slots.size r.instructions r.parameters r.output

variable {r : Runner} {p : Program}

/-- A runner that starts with a sound program is sound. -/
theorem sound_start (h : p.Sound) (config : Config) (entropy : Random.Source) :
    (start p config entropy).Sound := by
  unfold Sound start Memory.fresh
  rw [Array.size_replicate]
  exact h

/-- A runner that loads a sound program is sound, whatever it held before. -/
theorem sound_load (h : p.Sound) (r : Runner) : (r.load p).Sound := by
  unfold Sound load Memory.fresh
  rw [Array.size_replicate]
  exact h

/-- A sound runner of which a parameter is set stays sound. -/
theorem Sound.set (h : r.Sound) (found : Parameter → Bool) (v : Value) : Sound { r with
    parameters := (updateFirst? found (fun p => { p with value := v }) r.parameters).getD
      r.parameters } := by
  have hslots : ((updateFirst? found (fun p => { p with value := v }) r.parameters).getD
      r.parameters).map (·.slot) = r.parameters.map (·.slot) :=
    map_updateFirst? found (fun p => { p with value := v }) (fun _ => rfl) r.parameters
  exact h.of_slots hslots

/-- A sound runner that evaluates stays sound. -/
theorem Sound.evaluate (h : r.Sound) : r.evaluate.2.Sound := by
  by_cases hne : r.instructions = []
  · rw [Runner.evaluate, if_pos (List.isEmpty_iff.2 hne)]
    exact h
  · rw [evaluate_of_ne_nil hne]
    unfold Sound
    rw [size_executeAll, Memory.size_putAll]
    exact h.executeAll _

/-- A sound runner stays sound, whatever it performs. -/
theorem Sound.perform (h : r.Sound) (action : Action) : (r.perform action).2.Sound := by
  cases action with
  | setParameter id v =>
      rw [perform_setParameter]
      exact h.set _ v
  | setParameterByName name v =>
      rw [perform_setParameterByName]
      exact h.set _ v
  | tick delta =>
      rw [perform_tick]
      split
      · exact Sound.evaluate h
      · exact h
  | evaluate => exact h.evaluate

/-- A sound runner stays sound, whatever it serves. -/
theorem Sound.serve (h : r.Sound) {request : Request} (hrequest : request.Admissible) :
    (r.serve request).2.Sound := by
  cases request with
  | act action => exact h.perform action
  | load p => exact sound_load hrequest.sound r

/-- Every runner that can be reached is sound. -/
theorem Reachable.sound (h : r.Reachable) : r.Sound := by
  induction h with
  | start obtained config entropy => exact sound_start obtained.sound config entropy
  | serve _ admissible ih => exact ih.serve admissible

end Runner

end Dataflow
