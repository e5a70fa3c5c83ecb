import Dataflow.Proofs.Program.Computation
import Dataflow.Proofs.Runner.Meaning

/-!
# Evaluations that keep no state

A program is stateless if what an evaluation publishes depends on the values of the parameters
alone (`Program.Stateless`). Over the bundled operations a program without random numbers is
stateless if it reads only fresh slots (`compile_forgets_iff`). Not every program does: an output
that its operation never writes has a slot all the same, and a graph can count its evaluations in
it (`not_forall_stateless`).
-/

namespace Dataflow

namespace Runner

/-- The runner began with the program and has performed actions since. -/
def Reached (r : Runner) (p : Program) : Prop :=
  ∃ r₀ : Runner, r₀.Begins p ∧ ∃ history, r = r₀.after history

/-- Nothing is in the slots but what parameters and instructions put there. -/
def Clean (r : Runner) (p : Program) : Prop :=
  ∀ slot, slot ∉ p.parameters.map (·.slot) →
    (∀ i ∈ p.instructions, i.filled? ≠ some slot) → r.memory.read slot = .empty

/-- A runner that begins with a program has empty slots. -/
theorem Begins.clean {r : Runner} {p : Program} (h : r.Begins p) : r.Clean p := by
  intro slot _ _
  rcases h with ⟨config, entropy, rfl⟩ | ⟨earlier, rfl⟩
  · exact Memory.read_fresh _ _
  · exact Memory.read_fresh _ _

end Runner

/-- What is published depends on the values of the parameters alone: two evaluations in a row
publish the same, and evaluations with the same values publish the same, whatever came before. -/
structure Program.Stateless (p : Program) : Prop where
  repeated : ∀ r : Runner, r.Reached p → r.evaluate.2.evaluate.2.outputs = r.evaluate.2.outputs
  determined : ∀ r r' : Runner, r.Reached p → r'.Reached p →
    r.parameters.map (·.value) = r'.parameters.map (·.value) →
    r.evaluate.2.outputs = r'.evaluate.2.outputs

namespace Graph.Compilation

variable {g : Graph} {feeds : Feeds} {root : Key} {order : List Key}
  {last : Allocator OutputSocket} {p : Program}
  (h : g.Compilation Catalog.table feeds root order last p) {r r' : Runner}
  {parameters parameters' : List (ParameterId × ParameterDescription)}
include h

/-- The parameters of a runner have the slots that those of its program have. -/
theorem map_slot_eq (hr : r.Holds p parameters)
    (hsame : parameters.map (·.1) = g.parameters.map (·.1)) :
    r.parameters.map (·.slot) = p.parameters.map (·.slot) := by
  have hlength : parameters.length = g.parameters.length := by
    simpa using congrArg List.length hsame
  rw [hr.parameters_eq, h.parameters_eq, placedParameters, map_slot_allocate, map_slot_allocate,
    hlength]

/-- Whatever a clean runner performs, it stays clean. -/
theorem clean_perform (hsteady : ∀ i ∈ p.instructions, i.Steady) (hr : r.Holds p parameters)
    (hsame : parameters.map (·.1) = g.parameters.map (·.1)) (hclean : r.Clean p)
    (action : Action) : (r.perform action).2.Clean p := by
  have hevaluate : ∀ {r : Runner}, r.Holds p parameters → r.Clean p → r.evaluate.2.Clean p := by
    intro r hr hclean slot hparameter hunfilled
    rw [hr.evaluate_eq (fun i hi => h.length_inputSlots hi) h.instructions_ne_nil]
    show (executeAll _ _ _).2.read slot = _
    rw [h.table_eq, read_executeAll_of_not_filled hsteady hunfilled,
      Memory.read_putAll_of_not_mem (by rwa [h.map_slot_eq hr hsame])]
    exact hclean slot hparameter hunfilled
  cases action with
  | setParameter id v =>
      rw [Runner.perform_setParameter]
      exact hclean
  | setParameterByName name v =>
      rw [Runner.perform_setParameterByName]
      exact hclean
  | tick delta =>
      rw [Runner.perform_tick]
      split
      · exact hevaluate (hr.wait _) hclean
      · exact hclean
  | evaluate => exact hevaluate hr hclean

/-- Whatever a clean runner has performed, it holds the program and is clean. -/
theorem holds_clean_after (hsteady : ∀ i ∈ p.instructions, i.Steady) (hr : r.Holds p parameters)
    (hsame : parameters.map (·.1) = g.parameters.map (·.1)) (hclean : r.Clean p)
    (history : List Action) : ∃ parameters', (r.after history).Holds p parameters' ∧
      parameters'.map (·.1) = g.parameters.map (·.1) ∧ (r.after history).Clean p := by
  induction history generalizing r parameters with
  | nil => exact ⟨parameters, hr, hsame, hclean⟩
  | cons action rest ih =>
      have hperformed := hr.perform (fun i hi => h.length_inputSlots hi) h.instructions_ne_nil
        action
      exact ih hperformed ((action.map_fst_assign parameters).trans hsame)
        (h.clean_perform hsteady hr hsame hclean action)

/-- Before an evaluation the slot of a parameter holds its value. -/
theorem read_putAll_eq_value (hr : r.Holds p parameters)
    (hsame : parameters.map (·.1) = g.parameters.map (·.1)) {q : Parameter}
    (hq : q ∈ r.parameters) : (r.memory.putAll r.parameters).read q.slot = q.value := by
  have hnodup : (r.parameters.map (·.slot)).Nodup := hr.parameters_eq ▸ nodup_slot_allocate 0 _
  have hslot : q.slot ∈ p.parameters.map (·.slot) :=
    h.map_slot_eq hr hsame ▸ List.mem_map_of_mem hq
  obtain ⟨declared, hdeclared, hslot⟩ := List.mem_map.1 hslot
  refine Memory.read_putAll hnodup hq ?_
  rw [hr.size_eq, ← hslot]
  exact h.parameter_slot_lt hdeclared

/-- Before an evaluation runners whose parameters have the same values agree on every slot in which
nothing can be left. -/
theorem read_putAll_eq (hr : r.Holds p parameters) (hr' : r'.Holds p parameters')
    (hsame : parameters.map (·.1) = g.parameters.map (·.1))
    (hsame' : parameters'.map (·.1) = g.parameters.map (·.1)) (hclean : r.Clean p)
    (hclean' : r'.Clean p)
    (hvalues : r.parameters.map (·.value) = r'.parameters.map (·.value)) {slot : Slot}
    (hslot : ¬ p.Reused slot) :
    (r.memory.putAll r.parameters).read slot = (r'.memory.putAll r'.parameters).read slot := by
  have hslots := h.map_slot_eq hr hsame
  have hslots' := h.map_slot_eq hr' hsame'
  by_cases hmem : slot ∈ p.parameters.map (·.slot)
  · -- the parameters that have the slot stand in the same place, so their values are the same
    obtain ⟨index, hindex⟩ := List.mem_iff_getElem?.1 hmem
    have hplace : (r.parameters.map (·.slot))[index]? = some slot := hslots ▸ hindex
    have hplace' : (r'.parameters.map (·.slot))[index]? = some slot := hslots' ▸ hindex
    rw [List.getElem?_map, Option.map_eq_some_iff] at hplace hplace'
    obtain ⟨q, hq, rfl⟩ := hplace
    obtain ⟨q', hq', hslot'⟩ := hplace'
    have hvalue := congrArg (·[index]?) hvalues
    simp only [List.getElem?_map, hq, hq', Option.map_some, Option.some.injEq] at hvalue
    rw [h.read_putAll_eq_value hr hsame (List.mem_of_getElem? hq), hvalue, ← hslot',
      h.read_putAll_eq_value hr' hsame' (List.mem_of_getElem? hq')]
  · have hunfilled : ∀ i ∈ p.instructions, i.filled? ≠ some slot := fun i hi hfilled =>
      hslot ⟨hmem, i, hi, hfilled⟩
    rw [Memory.read_putAll_of_not_mem (by rwa [hslots]),
      Memory.read_putAll_of_not_mem (by rwa [hslots']), hclean slot hmem hunfilled,
      hclean' slot hmem hunfilled]

/-- A program that forgets publishes the same whenever its parameters have the same values. -/
theorem outputs_eq (hsteady : ∀ i ∈ p.instructions, i.Steady) (hforgets : p.Forgets)
    (hr : r.Reached p) (hr' : r'.Reached p)
    (hvalues : r.parameters.map (·.value) = r'.parameters.map (·.value)) :
    r.evaluate.2.outputs = r'.evaluate.2.outputs := by
  have hlength := fun i hi => h.length_inputSlots (i := i) hi
  obtain ⟨r₀, hbegins, history, rfl⟩ := hr
  obtain ⟨r₀', hbegins', history', rfl⟩ := hr'
  obtain ⟨parameters, hholds, hsame, hclean⟩ := h.holds_clean_after hsteady
    (hbegins.holds h.parameters_eq) rfl hbegins.clean history
  obtain ⟨parameters', hholds', hsame', hclean'⟩ := h.holds_clean_after hsteady
    (hbegins'.holds h.parameters_eq) rfl hbegins'.clean history'
  have hcaches := hforgets _ _ (Memory.size_putAll.trans hholds.size_eq)
    (Memory.size_putAll.trans hholds'.size_eq) fun slot hslot =>
      h.read_putAll_eq hholds hholds' hsame hsame' hclean hclean' hvalues hslot
  rw [hholds.evaluate_eq hlength h.instructions_ne_nil,
    hholds'.evaluate_eq hlength h.instructions_ne_nil]
  show Runner.published _ _ = Runner.published _ _
  rw [h.published_eq hholds (length_executeAll _ _ _),
    h.published_eq hholds' (length_executeAll _ _ _), hcaches]

/-- A program that forgets is stateless. -/
theorem stateless (hsteady : ∀ i ∈ p.instructions, i.Steady) (hforgets : p.Forgets) :
    p.Stateless where
  repeated r hr := by
    obtain ⟨r₀, hbegins, history, rfl⟩ := hr
    have hagain : (r₀.after history).evaluate.2.Reached p :=
      ⟨r₀, hbegins, history ++ [.evaluate], by simp [Runner.after, Runner.perform]⟩
    obtain ⟨parameters, hholds, -⟩ := h.holds_clean_after hsteady
      (hbegins.holds h.parameters_eq) rfl hbegins.clean history
    refine h.outputs_eq hsteady hforgets hagain ⟨r₀, hbegins, history, rfl⟩ ?_
    rw [hholds.evaluate_eq (fun i hi => h.length_inputSlots hi) h.instructions_ne_nil]
  determined r r' hr hr' hvalues := h.outputs_eq hsteady hforgets hr hr' hvalues

/-- A program that reads a slot before it is filled, and no parameter, shows its instructions in the
second evaluation something else than in the first. -/
theorem seen_ne_of_not_readsFresh (hsteady : ∀ i ∈ p.instructions, i.Steady)
    (hnumeric : ∀ i ∈ p.instructions, i.op ≠ .parameterRead) (hfresh : ¬ p.ReadsFresh)
    (hbegins : r.Begins p) : r.evaluate.2.evaluate.2.instructions.map (·.inputCache) ≠
      r.evaluate.2.instructions.map (·.inputCache) := by
  intro hseen
  refine hfresh fun before i after hsplit slot hslot hreused => ?_
  by_contra hunfilled
  have hlength := fun i hi => h.length_inputSlots (i := i) hi
  have hholds := hbegins.holds h.parameters_eq
  have hagain := hholds.evaluate hlength h.instructions_ne_nil
  have hparameter : slot ∉ r.parameters.map (·.slot) := by
    rw [h.map_slot_eq hholds rfl]
    exact hreused.1
  have hevaluate := hholds.evaluate_eq hlength h.instructions_ne_nil
  rw [hagain.evaluate_eq hlength h.instructions_ne_nil, hevaluate] at hseen
  have hread := h.read_eq_of_seen hsteady hsplit hslot hunfilled hseen
  -- the slot holds a number after the first evaluation, and nothing before it
  obtain ⟨x, hx⟩ := read_executeAll_of_filled (m := r.memory.putAll r.parameters) hsteady hnumeric
    hreused.2 (by rw [Memory.size_putAll, hholds.size_eq]; exact h.reused_lt hreused)
  have hempty : r.memory.read slot = .empty := by
    rcases hbegins with ⟨config, entropy, rfl⟩ | ⟨earlier, rfl⟩
    · exact Memory.read_fresh _ _
    · exact Memory.read_fresh _ _
  rw [← h.table_eq] at hx
  rw [Memory.read_putAll_of_not_mem hparameter, Memory.read_putAll_of_not_mem hparameter, hx,
    hempty] at hread
  cases hread

end Graph.Compilation

namespace Graph

variable {g : Graph} {p : Program}

/-- Over the bundled operations a program without live random numbers forgets exactly when it reads
only fresh slots. Then it is stateless. Otherwise, unless it reads parameters, its nodes see in the
second evaluation something else than in the first. It reads only fresh slots if every wire to a
live node leaves the first output of its producer. -/
theorem compile_forgets_iff (hp : g.compile Catalog.table = .ok p)
    (hrandom : ∀ k n, g.Live k → g.node? k = some n → n.op ≠ Catalog.randomFloat) :
    (p.Forgets ↔ p.ReadsFresh) ∧ (p.ReadsFresh → p.Stateless) ∧
      ((∀ k n, g.Live k → g.node? k = some n → n.op ≠ .parameterRead) → ¬ p.ReadsFresh →
        ∀ r : Runner, r.Begins p → r.evaluate.2.evaluate.2.instructions.map (·.inputCache) ≠
          r.evaluate.2.instructions.map (·.inputCache)) ∧
      ((∀ w ∈ g.wires, g.Live w.target.node → w.source.index = 0) → p.ReadsFresh) := by
  obtain ⟨feeds, root, order, last, h⟩ := compilation_of_ok hp
  have hsteady : ∀ i ∈ p.instructions, i.Steady := fun i hi => h.steady hrandom hi
  refine ⟨⟨h.readsFresh_of_forgets hsteady, h.forgets_of_readsFresh hsteady⟩, ?_, ?_,
    h.readsFresh_of_first⟩
  · exact fun hfresh => h.stateless hsteady (h.forgets_of_readsFresh hsteady hfresh)
  · intro hnumeric hfresh r hbegins
    refine h.seen_ne_of_not_readsFresh hsteady (fun i hi => ?_) hfresh hbegins
    obtain ⟨hlive, n, hn⟩ := h.exists_node hi
    exact h.op_eq hi hn ▸ hnumeric _ n hlive hn

/-- A graph that computes with a parameter is stateless. -/
theorem mixture_stateless : ∃ p,
    (mixture (.arithmetic ⟨3, 2, 0⟩ [.plain 5, .plain 3])).compile Catalog.table = .ok p ∧
      p.Stateless := by
  have hwell : (mixture (.arithmetic ⟨3, 2, 0⟩ [.plain 5, .plain 3])).WellFormed Catalog.table :=
    wellFormed_of_rank ⟨5, 1⟩ Key.index (by decide) (by decide) (by decide) rfl
      (by decide) (by decide +kernel)
  have hops : ∀ entry ∈ (mixture (.arithmetic ⟨3, 2, 0⟩ [.plain 5, .plain 3])).nodes,
      entry.2.op ≠ Catalog.randomFloat := by decide
  have hfirst : ∀ w ∈ (mixture (.arithmetic ⟨3, 2, 0⟩ [.plain 5, .plain 3])).wires.toList,
      w.source.index = 0 := by decide
  obtain ⟨p, hp⟩ := hwell.exists_compile
  have h := compile_forgets_iff hp fun k n _ hn => hops (k, n) (Arena.mem_toList.2 hn)
  exact ⟨p, hp, h.2.1 (h.2.2.2 fun w hw _ => hfirst w (Array.mem_toList_iff.2 hw))⟩

/-- A graph of which an addition reads an output that is never written. Its own output shares the
slot with that one, so it adds to what it gave out in the evaluation before. -/
def counting : Graph where
  arena := ⟨#[none, some (1, ⟨⟨3, 1, 0⟩, .operation, [], [], 2⟩),
    some (1, .arithmetic ⟨3, 1, 0⟩ [.plain 0, .plain 1]), some (1, .output)], []⟩
  wires := #[⟨⟨⟨1, 1⟩, 1⟩, ⟨⟨2, 1⟩, 0⟩⟩, ⟨⟨⟨2, 1⟩, 0⟩, ⟨⟨3, 1⟩, 0⟩⟩]
  parameters := []

/-- The instructions of the graph that counts. -/
def countingInstructions : List Instruction :=
  [⟨⟨3, 1, 0⟩, 2, .operation, ⟨1, 1⟩, [], [], [none, some ⟨0⟩], []⟩,
    ⟨⟨3, 1, 0⟩, 2, .operation, ⟨2, 1⟩, [.float (.plain 0), .float (.plain 1)], [some ⟨0⟩, none],
      [some ⟨0⟩], [.float (.plain 0), .float (.plain 1)]⟩,
    ⟨.output, 0, .output, ⟨3, 1⟩, [], [some ⟨0⟩], [], [.empty]⟩]

/-- The program of the graph that counts. -/
def countingProgram : Program :=
  ⟨countingInstructions, [], some 2, 1, Catalog.table, ⟨3, 0, 1, 1⟩⟩

set_option maxRecDepth 10000 in
/-- The graph that counts has this program. -/
theorem compile_counting : counting.compile Catalog.table = .ok countingProgram :=
  compile_eq_ok ⟨3, 1⟩ [⟨1, 1⟩, ⟨2, 1⟩, ⟨3, 1⟩] 7 countingInstructions ⟨[], [0], 1, 0, 1⟩
    (by decide) (by decide) (by decide) rfl rfl rfl

/-- The start of a run of the graph that counts. -/
def countingStart : Runner := .start countingProgram .default (.ofSeed 1)

/-- The first evaluation publishes one, and the second two. -/
theorem counting_counts : countingStart.evaluate.2.outputs = [1] ∧
    countingStart.evaluate.2.evaluate.2.outputs = [2] := ⟨rfl, rfl⟩

/-- Not every program without live random numbers is stateless. -/
theorem not_forall_stateless : ¬ ∀ (g : Graph) (p : Program), g.compile Catalog.table = .ok p →
    (∀ k n, g.Live k → g.node? k = some n → n.op ≠ Catalog.randomFloat) → p.Stateless := by
  intro hall
  have hops : ∀ entry ∈ counting.nodes, entry.2.op ≠ Catalog.randomFloat := by decide
  have hstateless := hall counting countingProgram compile_counting fun k n _ hn =>
    hops (k, n) (Arena.mem_toList.2 hn)
  have hsame := hstateless.repeated countingStart ⟨_, .inl ⟨_, _, rfl⟩, [], rfl⟩
  rw [counting_counts.1, counting_counts.2] at hsame
  exact absurd hsame (by decide +kernel)

end Graph

end Dataflow
