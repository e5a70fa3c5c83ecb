import Dataflow.Proofs.Program.Acceptance

/-!
# Slots carry wires

The slots of a program stand for the wires of its graph (`Program.Carries`): producer and
consumer of a wire agree on a slot, nothing between them writes it, and the slots of parameters
are written by no instruction. `compile_carries` says so of every program. The invariant of the
layout is `Allocator.Serves`; the lemmas on `Laid` follow one output from its producer past the
instructions that leave its slot alone.
-/

namespace Dataflow

open Dependency (IsOrder)

/-- A wired input gets the slot that its source holds. -/
theorem Wiring.inputSlot?_of_wired {w : Wiring} {n : Node} {target : InputSocket}
    {source : OutputSocket} {held : OutputSocket → Option Slot}
    (hfeed : w.feeds[target]? = some source) : w.inputSlot? held n target = held source := by
  rw [inputSlot?, hfeed]

/-- The first input of a parameter read gets the slot of the parameter. -/
theorem Wiring.inputSlot?_of_parameter {w : Wiring} {n : Node} {k : Key} {id : ParameterId}
    {held : OutputSocket → Option Slot} (hfeed : w.feeds[(⟨k, 0⟩ : InputSocket)]? = none)
    (hrole : n.role = .parameterRead id) : w.inputSlot? held n ⟨k, 0⟩ = w.parameterSlot? id := by
  rw [inputSlot?, hfeed, hrole]
  rfl

/-- Other inputs without a wire get no slot. -/
theorem Wiring.inputSlot?_of_unbound {w : Wiring} {n : Node} {target : InputSocket}
    {held : OutputSocket → Option Slot} (hfeed : w.feeds[target]? = none)
    (hunbound : ¬ (target.index = 0 ∧ ∃ id, n.role = .parameterRead id)) :
    w.inputSlot? held n target = none := by
  rw [inputSlot?, hfeed]
  cases hrole : n.role with
  | parameterRead id => exact if_neg fun hindex => hunbound ⟨hindex, id, hrole⟩
  | operation => rfl
  | output => rfl

/-- The input of a node gets the slot that its source holds beforehand. -/
theorem Wiring.inputSlots_getElem? {w : Wiring} {n : Node} {k : Key} {index opIndex : Nat}
    {before after : OutputSocket → Option Slot} (hindex : index < n.inputs.length) :
    (w.instruction n k opIndex before after).inputSlots[index]? =
      some (w.inputSlot? before n ⟨k, index⟩) := by
  simp only [Wiring.instruction, List.getElem?_map, List.getElem?_range hindex, Option.map_some]

/-- The output of a node gets the slot that it holds afterwards. -/
theorem Wiring.outputSlots_getElem? {w : Wiring} {n : Node} {k : Key} {index opIndex : Nat}
    {before after : OutputSocket → Option Slot} (hindex : index < n.outputs) :
    (w.instruction n k opIndex before after).outputSlots[index]? = some (after ⟨k, index⟩) := by
  simp only [Wiring.instruction, List.getElem?_map, List.getElem?_range hindex, Option.map_some]

/-- A slot that a node writes is held by the output afterwards. -/
theorem Wiring.slot?_of_outputSlots {w : Wiring} {n : Node} {k : Key} {index opIndex : Nat}
    {before after : OutputSocket → Option Slot} {slot : Slot}
    (h : (w.instruction n k opIndex before after).outputSlots[index]? = some (some slot)) :
    after ⟨k, index⟩ = some slot := by
  rw [Wiring.instruction, List.getElem?_map, Option.map_eq_some_iff] at h
  obtain ⟨index', hindex, hslot⟩ := h
  rw [(List.getElem?_eq_some_iff.1 hindex).2.symm, List.getElem_range] at hslot
  exact hslot

/-- A slot that a node writes is held by one of its outputs. -/
theorem Wiring.mem_outputSlots {w : Wiring} {n : Node} {k : Key} {opIndex : Nat}
    {before after : OutputSocket → Option Slot} {slot : Slot}
    (h : some slot ∈ (w.instruction n k opIndex before after).outputSlots) :
    ∃ index, after ⟨k, index⟩ = some slot := by
  obtain ⟨index, hslot⟩ := List.mem_iff_getElem?.1 h
  exact ⟨index, slot?_of_outputSlots hslot⟩

namespace Laid

variable {w : Wiring} {g : Graph} {table : Table} {reserved : List Nat} {placed rest : List Key}
  {a last : Allocator OutputSocket} {instructions : List Instruction} {s : OutputSocket} {k : Key}
  {index : Nat} {slot : Slot}

/-- Every instruction is that of a node in its place. After it the allocator serves the nodes
that follow. -/
theorem exists_split {i : Instruction} (h : Laid w g table reserved placed a rest instructions last)
    (hi : i ∈ instructions) :
    ∃ before after n opIndex, ∃ held held' : Allocator OutputSocket,
      rest = before ++ i.source :: after ∧ g.node? i.source = some n ∧
      table.resolve n.op = some opIndex ∧
      i = w.instruction n i.source opIndex held.slot? held'.slot? ∧
      held'.Serves reserved (·.node ∈ placed ++ before ++ [i.source])
        (after.flatMap (g.sources w.feeds)) := by
  induction h with
  | nil => cases hi
  | cons node known serves sources peak kept tail ih =>
      rcases List.mem_cons.1 hi with rfl | hi
      · refine ⟨[], _, _, _, _, _, rfl, node, known, rfl, ?_⟩
        rw [List.append_nil]
        exact tail.serves
      · obtain ⟨before, after, n, opIndex, held, held', rfl, hn, hknown, heq, hserves⟩ := ih hi
        refine ⟨_ :: before, after, n, opIndex, held, held', rfl, hn, hknown, heq, ?_⟩
        simpa using hserves

/-- The slots of outputs were handed out. -/
theorem outputSlots_lt {i : Instruction}
    (h : Laid w g table reserved placed a rest instructions last) (hi : i ∈ instructions)
    (hslot : some slot ∈ i.outputSlots) : slot.index < last.next := by
  induction h with
  | nil => cases hi
  | cons _ _ _ _ _ _ tail ih =>
      rcases List.mem_cons.1 hi with rfl | hi
      · obtain ⟨index, hheld⟩ := Wiring.mem_outputSlots hslot
        exact Nat.lt_of_lt_of_le (tail.serves.slot?_lt hheld) tail.next_le
      · exact ih hi

/-- An output that holds a slot keeps it until an input reads it, and no instruction before
that writes the slot. -/
theorem kept_until_read (h : Laid w g table reserved placed a rest instructions last)
    (hnodup : (placed ++ rest).Nodup) (hslot : a.slot? s = some slot) {n : Node}
    (hnode : g.node? k = some n) (hindex : index < n.inputs.length)
    (hfeed : w.feeds[(⟨k, index⟩ : InputSocket)]? = some s) (hk : k ∈ rest) :
    ∃ before consumer after, instructions = before ++ consumer :: after ∧ consumer.source = k ∧
      consumer.inputSlots[index]? = some (some slot) ∧ ∀ i ∈ before, some slot ∉ i.outputSlots := by
  have hsource := Graph.mem_sources_of_feed hnode hindex hfeed
  induction h with
  | nil => cases hk
  | @cons placed rest a a' last k' n' opIndex instructions node known serves sources peak kept
      tail ih =>
      by_cases heq : k = k'
      · subst heq
        rw [hnode] at node
        cases node
        refine ⟨[], _, instructions, rfl, rfl, ?_, fun _ hi => nomatch hi⟩
        rw [Wiring.inputSlots_getElem? hindex, Wiring.inputSlot?_of_wired hfeed]
        exact congrArg some hslot
      · have hk' : k ∈ rest := (List.mem_cons.1 hk).resolve_left heq
        have hready : s.node ∈ placed := (serves.slot?_isSome_iff.1 ⟨slot, hslot⟩).1
        have hother : s.node ≠ k' := fun hsame =>
          (List.nodup_append.1 hnodup).2.2 k' (hsame ▸ hready) k' List.mem_cons_self rfl
        -- the read of `k` is pending after the node, so the output holds a slot, the one it had
        obtain ⟨slot', hslot'⟩ := tail.serves.slot?_isSome_iff.2
          ⟨List.mem_append_left _ hready, List.mem_flatMap.2 ⟨k, hk', hsource⟩⟩
        have hsame := kept s slot' hother hslot'
        rw [hslot] at hsame
        cases hsame
        obtain ⟨before, consumer, after, rfl, hconsumer, hinput, hbefore⟩ :=
          ih (by simpa using hnodup) hslot' hk'
        refine ⟨_ :: before, consumer, after, rfl, hconsumer, hinput, ?_⟩
        intro i hi hwritten
        rcases List.mem_cons.1 hi with rfl | hi
        · -- the slot is held by `s` after the node, so by no output of the node
          obtain ⟨output, houtput⟩ := Wiring.mem_outputSlots hwritten
          exact hother (congrArg OutputSocket.node (tail.serves.slot?_inj hslot' houtput))
        · exact hbefore i hi hwritten

/-- A wire is carried from its producer to its consumer by one slot, which no parameter has and
which nothing between them writes. -/
theorem exists_carried (h : Laid w g table reserved placed a rest instructions last)
    (hnodup : (placed ++ rest).Nodup) {n producer : Node} (hnode : g.node? k = some n)
    (hindex : index < n.inputs.length) (hproducer : g.node? s.node = some producer)
    (houtput : s.index < producer.outputs)
    (hfeed : w.feeds[(⟨k, index⟩ : InputSocket)]? = some s) (hk : k ∈ rest)
    (hs : s.node ∈ rest) :
    ∃ before giver between taker after slot,
      instructions = before ++ giver :: between ++ taker :: after ∧ giver.source = s.node ∧
      taker.source = k ∧ giver.outputSlots[s.index]? = some (some slot) ∧
      taker.inputSlots[index]? = some (some slot) ∧
      (∀ i ∈ between, some slot ∉ i.outputSlots) ∧ slot.index ∉ reserved := by
  have hsource := Graph.mem_sources_of_feed hnode hindex hfeed
  induction h with
  | nil => cases hk
  | @cons placed rest a a' last k' n' opIndex instructions node known serves sources peak kept
      tail ih =>
      have hfirst : k' ∉ placed := fun hmem =>
        (List.nodup_append.1 hnodup).2.2 k' hmem k' List.mem_cons_self rfl
      -- the producer is not placed yet, so the first node is not the consumer
      have hk' : k ∈ rest := by
        refine (List.mem_cons.1 hk).resolve_left ?_
        intro heq
        subst heq
        have hplaced := sources s hsource
        exact (List.nodup_append.1 hnodup).2.2 _ hplaced _ hs rfl
      have hnodup' : ((placed ++ [k']) ++ rest).Nodup := by simpa using hnodup
      by_cases heq : s.node = k'
      · -- the producer comes first, and its output keeps its slot up to the consumer
        obtain ⟨slot, hslot⟩ := tail.serves.slot?_isSome_iff.2
          ⟨List.mem_append_right _ (by simp [heq]), List.mem_flatMap.2 ⟨k, hk', hsource⟩⟩
        obtain ⟨between, taker, after, rfl, htaker, hinput, hbetween⟩ :=
          tail.kept_until_read hnodup' hslot hnode hindex hfeed hk'
        refine ⟨[], _, between, taker, after, slot, rfl, heq.symm, htaker, ?_, hinput, hbetween,
          tail.serves.slot?_not_mem hslot⟩
        subst heq
        rw [hproducer] at node
        cases node
        rw [Wiring.outputSlots_getElem? houtput]
        exact congrArg some hslot
      · obtain ⟨before, giver, between, taker, after, slot, rfl, hcarried⟩ :=
          ih hnodup' hk' ((List.mem_cons.1 hs).resolve_left heq)
        exact ⟨_ :: before, giver, between, taker, after, slot, rfl, hcarried⟩

end Laid

/-- The slots of a program stand for the wires and parameters of its graph. The live nodes have one
instruction each, and no others have any; an instruction binds the inputs and outputs of its node.
The consumer of a wire reads the slot that its producer writes before it; no instruction between
them writes the slot, and no parameter has it. The outputs of a node have different slots, and an
output has one exactly when an input of a live node reads it. Parameters have the first slots in the
order of their declaration, and no instruction writes these. The first input of a parameter read has
no wire and is bound to the parameter's slot; every other input without a wire is unbound. -/
structure Program.Carries (p : Program) (g : Graph) : Prop where
  live : ∀ k, k ∈ p.instructions.map (·.source) ↔ g.Live k
  nodup : (p.instructions.map (·.source)).Nodup
  node : ∀ i ∈ p.instructions, ∃ n, g.node? i.source = some n ∧
    i.inputSlots.length = n.inputs.length ∧ i.outputSlots.length = n.outputs
  wire : ∀ w ∈ g.wires, g.Live w.target.node → ∃ before producer between consumer after slot,
    p.instructions = before ++ producer :: between ++ consumer :: after ∧
    producer.source = w.source.node ∧ consumer.source = w.target.node ∧
    producer.outputSlots[w.source.index]? = some (some slot) ∧
    consumer.inputSlots[w.target.index]? = some (some slot) ∧
    (∀ i ∈ between, some slot ∉ i.outputSlots) ∧ ∀ q ∈ p.parameters, q.slot ≠ slot
  outputs_nodup : ∀ i ∈ p.instructions, i.outputSlots.reduceOption.Nodup
  parameters : p.parameters.map (fun q => (q.id, q.slot)) =
    g.parameters.zipIdx.map fun (entry, index) => (entry.1, ⟨index⟩)
  parameter_kept : ∀ q ∈ p.parameters, ∀ i ∈ p.instructions, some q.slot ∉ i.outputSlots
  parameter_read : ∀ i ∈ p.instructions, ∀ n id, g.node? i.source = some n →
    n.role = .parameterRead id → 0 < n.inputs.length →
    (∀ w ∈ g.wires, w.target ≠ ⟨i.source, 0⟩) ∧
      ∃ q, p.parameters.find? (·.id = id) = some q ∧ i.inputSlots[0]? = some (some q.slot)
  unwired : ∀ i ∈ p.instructions, ∀ n index, g.node? i.source = some n →
    index < n.inputs.length → (∀ w ∈ g.wires, w.target ≠ ⟨i.source, index⟩) →
    ¬ (index = 0 ∧ ∃ id, n.role = .parameterRead id) → i.inputSlots[index]? = some none
  output_read : ∀ i ∈ p.instructions, ∀ n index, g.node? i.source = some n → index < n.outputs →
    ((∃ slot, i.outputSlots[index]? = some (some slot)) ↔
      ∃ w ∈ g.wires, w.source = ⟨i.source, index⟩ ∧ g.Live w.target.node)

namespace Graph

variable {g : Graph} {table : Table} {feeds : Feeds} {root : Key} {order : List Key}
  {last : Allocator OutputSocket} {p : Program}

/-- A parameter that is declared is placed. -/
theorem exists_placedParameter {id : ParameterId} (h : (g.parameter? id).isSome) :
    ∃ q, g.placedParameters.find? (·.id = id) = some q := by
  have hmem : ∃ entry ∈ g.parameters, entry.1 = id := by
    obtain ⟨parameter, hlookup⟩ := Option.isSome_iff_exists.1 h
    obtain ⟨before, after, heq, -⟩ := List.lookup_eq_some_iff.1 hlookup
    exact ⟨(id, parameter), by rw [heq]; simp, rfl⟩
  obtain ⟨entry, hentry, rfl⟩ := hmem
  obtain ⟨index, hindex⟩ := List.mem_iff_getElem?.1 hentry
  have hplaced : (⟨entry.1, entry.2.name, entry.2.value, ⟨index⟩⟩ : Parameter) ∈
      g.placedParameters :=
    List.mem_map.2 ⟨(entry, index), List.mem_zipIdx_iff_getElem?.2 hindex, rfl⟩
  exact Option.isSome_iff_exists.1 (List.find?_isSome.2 ⟨_, hplaced, decide_eq_true rfl⟩)

namespace Compilation

variable (h : g.Compilation table feeds root order last p)
include h

/-- Wires of the graph are feeds of the nodes that are placed. -/
theorem feed_eq {source : OutputSocket} {target : InputSocket} :
    (g.wiring feeds order).feeds[target]? = some source ↔ ⟨source, target⟩ ∈ g.wires :=
  getElem?_feeds h.feeds_eq

/-- An input without a wire has no feed. -/
theorem feed_eq_none {target : InputSocket} :
    (g.wiring feeds order).feeds[target]? = none ↔ ∀ w ∈ g.wires, w.target ≠ target := by
  rw [Option.eq_none_iff_forall_ne_some]
  constructor
  · rintro hnone ⟨source, _⟩ hw rfl
    exact hnone source (h.feed_eq.2 hw)
  · intro hnone source hfeed
    exact hnone _ (h.feed_eq.1 hfeed) rfl

/-- The producers of a live node are live. -/
theorem source_mem {w : Wire} (hw : w ∈ g.wires) (htarget : w.target.node ∈ order) :
    w.source.node ∈ order := by
  obtain ⟨output, houtput, hreach⟩ := h.mem_order.1 htarget
  exact h.mem_order.2 ⟨output, houtput, hreach.tail ⟨w, hw, rfl, rfl⟩⟩

/-- Parameters have the first slots. -/
theorem parameter_slot_mem {q : Parameter} (hq : q ∈ p.parameters) :
    q.slot.index ∈ List.range g.parameters.length := by
  rw [h.parameters_eq] at hq
  exact List.mem_range.2 (slot_lt_of_mem_allocate hq)

/-- An instruction is that of its node in the place of the node. -/
theorem exists_placed {i : Instruction} {n : Node} (hi : i ∈ p.instructions)
    (hn : g.node? i.source = some n) :
    ∃ before after opIndex, ∃ held held' : Allocator OutputSocket,
      order = before ++ i.source :: after ∧
      i = (g.wiring feeds order).instruction n i.source opIndex held.slot? held'.slot? ∧
      held'.Serves (List.range g.parameters.length) (·.node ∈ before ++ [i.source])
        (after.flatMap (g.sources feeds)) := by
  obtain ⟨before, after, n', opIndex, held, held', horder, hn', -, heq, hserves⟩ :=
    h.laid.exists_split hi
  rw [hn] at hn'
  cases hn'
  exact ⟨before, after, opIndex, held, held', horder, heq, hserves⟩

/-- Every instruction is that of a live node. -/
theorem exists_node {i : Instruction} (hi : i ∈ p.instructions) :
    g.Live i.source ∧ ∃ n, g.node? i.source = some n := by
  have hlive := h.mem_map_source.1 (List.mem_map_of_mem hi)
  exact ⟨hlive, hlive.exists_node fun w hw => wire_of_feeds h.feeds_eq hw⟩

/-- An instruction has as many input values as inputs. -/
theorem length_inputSlots {i : Instruction} (hi : i ∈ p.instructions) :
    i.inputSlots.length = i.inputCache.length := by
  obtain ⟨-, n, hn⟩ := h.exists_node hi
  obtain ⟨before, after, opIndex, held, held', -, heq, -⟩ := h.exists_placed hi hn
  rw [heq]
  simp [Wiring.instruction, Node.defaults]

/-- A program of a graph has instructions. -/
theorem instructions_ne_nil : p.instructions ≠ [] := by
  intro hnil
  have hroot : root ∈ p.instructions.map (·.source) := by
    rw [h.map_source, h.isOrder.mem_iff]
    exact .root
  rw [hnil] at hroot
  cases hroot

/-- An instruction is bound to the place of its operation. -/
theorem resolve_op {i : Instruction} (hi : i ∈ p.instructions) :
    table.resolve i.op = some i.opIndex := by
  obtain ⟨before, after, n, opIndex, held, held', -, -, hknown, heq, -⟩ := h.laid.exists_split hi
  rw [heq]
  exact hknown

/-- An instruction has the operation, the role and the literals of its node. -/
theorem node_eq {i : Instruction} (hi : i ∈ p.instructions) {n : Node}
    (hn : g.node? i.source = some n) :
    i.op = n.op ∧ i.role = n.role ∧ i.literals = n.literals := by
  obtain ⟨before, after, opIndex, held, held', -, heq, -⟩ := h.exists_placed hi hn
  rw [heq]
  exact ⟨rfl, rfl, rfl⟩

/-- An instruction has the operation of its node. -/
theorem op_eq {i : Instruction} {n : Node} (hi : i ∈ p.instructions)
    (hn : g.node? i.source = some n) : i.op = n.op :=
  (h.node_eq hi hn).1

/-- An instruction binds the inputs and outputs of its node. -/
theorem length_slots {i : Instruction} {n : Node} (hi : i ∈ p.instructions)
    (hn : g.node? i.source = some n) :
    i.inputSlots.length = n.inputs.length ∧ i.outputSlots.length = n.outputs := by
  obtain ⟨before, after, opIndex, held, held', -, heq, -⟩ := h.exists_placed hi hn
  rw [heq]
  simp [Wiring.instruction]

/-- The slots of parameters exist. -/
theorem parameter_slot_lt {q : Parameter} (hq : q ∈ p.parameters) :
    q.slot.index < p.slotCount := by
  have hindex := List.mem_range.1 (h.parameter_slot_mem hq)
  have hnext : g.parameters.length ≤ last.next := h.laid.next_le
  rw [h.slotCount_eq]
  omega

/-- The slots of outputs exist. -/
theorem slot_lt_slotCount {i : Instruction} {slot : Slot} (hi : i ∈ p.instructions)
    (hslot : some slot ∈ i.outputSlots) : slot.index < p.slotCount := by
  rw [h.slotCount_eq]
  exact h.laid.outputSlots_lt hi hslot

/-- The outputs of an instruction have different slots. -/
theorem outputs_nodup {i : Instruction} (hi : i ∈ p.instructions) :
    i.outputSlots.reduceOption.Nodup := by
  obtain ⟨-, n, hn⟩ := h.exists_node hi
  obtain ⟨before, after, opIndex, held, held', -, heq, hserves⟩ := h.exists_placed hi hn
  rw [heq]
  show (((List.range n.outputs).map fun index => held'.slot? ⟨i.source, index⟩).filterMap id).Nodup
  rw [List.filterMap_map]
  refine List.nodup_range.filterMap fun index index' slot hslot hslot' => ?_
  exact congrArg OutputSocket.index (hserves.slot?_inj hslot hslot')

/-- No instruction writes the slot of a parameter. -/
theorem parameter_kept {q : Parameter} (hq : q ∈ p.parameters) {i : Instruction}
    (hi : i ∈ p.instructions) : some q.slot ∉ i.outputSlots := by
  intro hwritten
  obtain ⟨-, n, hn⟩ := h.exists_node hi
  obtain ⟨before, after, opIndex, held, held', -, heq, hserves⟩ := h.exists_placed hi hn
  rw [heq] at hwritten
  obtain ⟨index, hslot⟩ := Wiring.mem_outputSlots hwritten
  exact hserves.slot?_not_mem hslot (h.parameter_slot_mem hq)

/-- No wire goes to the first input of a parameter read. -/
theorem parameter_unwired {k : Key} {n : Node} {id : ParameterId} (hn : g.node? k = some n)
    (hrole : n.role = .parameterRead id) : ∀ w ∈ g.wires, w.target ≠ ⟨k, 0⟩ := by
  rintro ⟨source, _⟩ hw rfl
  obtain ⟨taker, htaker, -, hbound⟩ := (wire_of_feeds h.feeds_eq hw).target_lt
  rw [hn] at htaker
  cases htaker
  exact hbound ⟨rfl, id, hrole⟩

/-- The first input of a parameter read is bound to the parameter's slot. -/
theorem parameter_read {i : Instruction} (hi : i ∈ p.instructions) {n : Node} {id : ParameterId}
    (hn : g.node? i.source = some n) (hrole : n.role = .parameterRead id)
    (hindex : 0 < n.inputs.length) : ∃ q, p.parameters.find? (·.id = id) = some q ∧
      i.inputSlots[0]? = some (some q.slot) := by
  have hnodes := (exists_feeds_iff.1 ⟨feeds, h.feeds_eq⟩).node
  obtain ⟨q, hq⟩ := exists_placedParameter ((hnodes i.source n hn).declared id hrole)
  obtain ⟨before, after, opIndex, held, held', -, heq, -⟩ := h.exists_placed hi hn
  have hslot : (g.wiring feeds order).parameterSlot? id = some q.slot :=
    congrArg (Option.map Parameter.slot) hq
  refine ⟨q, h.parameters_eq ▸ hq, ?_⟩
  rw [heq, Wiring.inputSlots_getElem? hindex, Wiring.inputSlot?_of_parameter
    (h.feed_eq_none.2 (h.parameter_unwired hn hrole)) hrole, hslot]

/-- Every other input without a wire is unbound. -/
theorem unwired {i : Instruction} (hi : i ∈ p.instructions) {n : Node} {index : Nat}
    (hn : g.node? i.source = some n) (hindex : index < n.inputs.length)
    (hunwired : ∀ w ∈ g.wires, w.target ≠ ⟨i.source, index⟩)
    (hunbound : ¬ (index = 0 ∧ ∃ id, n.role = .parameterRead id)) :
    i.inputSlots[index]? = some none := by
  obtain ⟨before, after, opIndex, held, held', -, heq, -⟩ := h.exists_placed hi hn
  rw [heq, Wiring.inputSlots_getElem? hindex,
    Wiring.inputSlot?_of_unbound (h.feed_eq_none.2 hunwired) hunbound]

/-- An output has a slot exactly when an input of a live node reads it. -/
theorem output_read {i : Instruction} (hi : i ∈ p.instructions) {n : Node} {index : Nat}
    (hn : g.node? i.source = some n) (hindex : index < n.outputs) :
    (∃ slot, i.outputSlots[index]? = some (some slot)) ↔
      ∃ w ∈ g.wires, w.source = ⟨i.source, index⟩ ∧ g.Live w.target.node := by
  obtain ⟨before, after, opIndex, held, held', horder, heq, hserves⟩ := h.exists_placed hi hn
  have hslot : i.outputSlots[index]? = some (held'.slot? ⟨i.source, index⟩) := by
    rw [heq]
    exact Wiring.outputSlots_getElem? hindex
  have hcount : (order.flatMap (g.sources feeds)).count ⟨i.source, index⟩ =
      (after.flatMap (g.sources feeds)).count ⟨i.source, index⟩ := by
    have hcount := count_sources (horder ▸ h.isOrder) index
    rwa [← horder] at hcount
  calc (∃ slot, i.outputSlots[index]? = some (some slot))
    _ ↔ ∃ slot, held'.slot? ⟨i.source, index⟩ = some slot := by rw [hslot]; simp
    _ ↔ ⟨i.source, index⟩ ∈ after.flatMap (g.sources feeds) := by
      rw [hserves.slot?_isSome_iff]
      exact and_iff_right (List.mem_append_right _ List.mem_cons_self)
    _ ↔ ⟨i.source, index⟩ ∈ order.flatMap (g.sources feeds) := by
      rw [← List.count_pos_iff, ← hcount, List.count_pos_iff]
    _ ↔ ∃ w ∈ g.wires, w.source = ⟨i.source, index⟩ ∧ g.Live w.target.node := by
      simp only [List.mem_flatMap, mem_sources h.feeds_eq, h.mem_order]
      constructor
      · intro hread
        obtain ⟨k, hlive, index', hw⟩ := hread
        exact ⟨_, hw, rfl, hlive⟩
      · intro hread
        obtain ⟨⟨_, k, index'⟩, hw, rfl, hlive⟩ := hread
        exact ⟨k, hlive, index', hw⟩

/-- The slots of a program stand for the wires and parameters of its graph. -/
theorem carries : p.Carries g where
  live _ := h.mem_map_source
  nodup := h.nodup_source
  node i hi := by
    obtain ⟨-, n, hn⟩ := h.exists_node hi
    exact ⟨n, hn, h.length_slots hi hn⟩
  wire w hw hlive := by
    have htarget := h.mem_order.2 hlive
    obtain ⟨⟨giver, hgiver, houtput⟩, taker, htaker, hindex, -⟩ := wire_of_feeds h.feeds_eq hw
    obtain ⟨before, producer, between, consumer, after, slot, heq, hproducer, hconsumer, hwritten,
      hread, hbetween, hreserved⟩ := h.laid.exists_carried h.isOrder.nodup htaker hindex hgiver
        houtput (h.feed_eq.2 hw) htarget (h.source_mem hw htarget)
    refine ⟨before, producer, between, consumer, after, slot, heq, hproducer, hconsumer, hwritten,
      hread, hbetween, ?_⟩
    rintro q hq rfl
    exact hreserved (h.parameter_slot_mem hq)
  outputs_nodup _ hi := h.outputs_nodup hi
  parameters := by
    rw [h.parameters_eq, placedParameters, Parameter.allocate, List.map_map]
    rfl
  parameter_kept _ hq _ hi := h.parameter_kept hq hi
  parameter_read _ hi _ _ hn hrole hindex :=
    ⟨h.parameter_unwired hn hrole, h.parameter_read hi hn hrole hindex⟩
  unwired _ hi _ _ hn hindex hunwired hunbound := h.unwired hi hn hindex hunwired hunbound
  output_read _ hi _ _ hn hindex := h.output_read hi hn hindex

/-- A slot that an instruction reads is written by a producer before it and belongs to no parameter,
or it belongs to the parameter that the instruction stands for. -/
theorem inputSlot_cases {i : Instruction} (hi : i ∈ p.instructions) {index : Nat} {slot : Slot}
    (hslot : i.inputSlots[index]? = some (some slot)) :
    (∃ w ∈ g.wires, w.target = ⟨i.source, index⟩ ∧ ∃ before producer between after,
      p.instructions = before ++ producer :: between ++ i :: after ∧
      producer.source = w.source.node ∧ producer.outputSlots[w.source.index]? = some (some slot) ∧
      ∀ q ∈ p.parameters, q.slot ≠ slot) ∨
    ∃ id q, index = 0 ∧ i.role = .parameterRead id ∧ p.parameters.find? (·.id = id) = some q ∧
      q.slot = slot := by
  obtain ⟨hlive, n, hn⟩ := h.exists_node hi
  have hindex : index < n.inputs.length :=
    (h.length_slots hi hn).1 ▸ (List.getElem?_eq_some_iff.1 hslot).1
  by_cases hwired : ∃ w ∈ g.wires, w.target = ⟨i.source, index⟩
  · obtain ⟨w, hw, htarget⟩ := hwired
    have htarget' : w.target.node = i.source := congrArg InputSocket.node htarget
    obtain ⟨before, producer, between, consumer, after, slot', hsplit, hproducer, hconsumer,
      hwritten, hread, -, hapart⟩ := h.carries.wire w hw (htarget' ▸ hlive)
    have hmem : consumer ∈ p.instructions := by rw [hsplit]; simp
    -- the node has one instruction, so the consumer is this one
    obtain rfl := List.inj_on_of_nodup_map h.carries.nodup hmem hi (hconsumer.trans htarget')
    rw [htarget, hslot] at hread
    cases hread
    exact .inl ⟨w, hw, htarget, before, producer, between, after, hsplit, hproducer, hwritten,
      hapart⟩
  · by_cases hbound : index = 0 ∧ ∃ id, n.role = .parameterRead id
    · obtain ⟨rfl, id, hrole⟩ := hbound
      obtain ⟨q, hq, hslot'⟩ := h.parameter_read hi hn hrole hindex
      rw [hslot] at hslot'
      cases hslot'
      exact .inr ⟨id, q, rfl, (h.node_eq hi hn).2.1.trans hrole, hq, rfl⟩
    · have hunbound := h.unwired hi hn hindex (fun w hw htarget => hwired ⟨w, hw, htarget⟩) hbound
      rw [hslot] at hunbound
      cases hunbound

end Compilation

/-- The slots of every program stand for the wires and parameters of its graph. -/
theorem compile_carries (h : g.compile table = .ok p) : p.Carries g := by
  obtain ⟨feeds, root, order, last, hcompilation⟩ := compilation_of_ok h
  exact hcompilation.carries

/-- The slots of a graph with shared inputs and outputs stand for its wires. -/
theorem mixture_carries :
    ∃ p, (mixture .random).compile Catalog.table = .ok p ∧ p.Carries (mixture .random) := by
  obtain ⟨p, hp⟩ := mixture_random_wellFormed.exists_compile
  exact ⟨p, hp, compile_carries hp⟩

end Graph

end Dataflow
