import Mathlib.Data.List.ReduceOption
import Dataflow.Proofs.Operation.Catalog
import Dataflow.Proofs.Program.Slots

/-!
# Bindings that runs rely on

Instructions are bound soundly if every slot that they name exists, every operation is found under
its place, and only the output gives nothing out (`Binding`). A compiled program over a table that
was built is sound (`Graph.compile_sound`), and a sound program passes the check of bindings. What
instructions cache does not matter, so instructions that run stay bound soundly.
-/

namespace Dataflow

/-- What a run relies on: instructions, parameters and an output that are bound to places of a table
and to that many slots. An instruction has as many input values as inputs, and its operation is in
its place in the table. The slots that instructions read and write exist, as do those of parameters.
The output is one of the instructions, and every other one has an output of its own (`gives`). -/
structure Binding (table : Table) (slotCount : Nat) (instructions : List Instruction)
    (parameters : List Parameter) (output : Option Nat) : Prop where
  cache : ∀ i ∈ instructions, i.inputCache.length = i.inputSlots.length
  inputs : ∀ i ∈ instructions, ∀ slot, some slot ∈ i.inputSlots → slot.index < slotCount
  outputs : ∀ i ∈ instructions, ∀ slot, some slot ∈ i.outputSlots → slot.index < slotCount
  parameters : ∀ q ∈ parameters, q.slot.index < slotCount
  operation : ∀ i ∈ instructions, ∃ r, table.get? i.opIndex = some r ∧ r.op = i.op
  output : ∀ index, output = some index → index < instructions.length
  gives : ∀ i ∈ instructions, i.op ≠ .output → 0 < i.outputSlots.length

namespace Binding

variable {table : Table} {slotCount : Nat} {instructions bound : List Instruction}
  {parameters : List Parameter} {output : Option Nat}

/-- Nothing is bound without instructions and parameters. -/
theorem nil (table : Table) (slotCount : Nat) : Binding table slotCount [] [] none where
  cache _ hi := nomatch hi
  inputs _ hi := nomatch hi
  outputs _ hi := nomatch hi
  parameters _ hq := nomatch hq
  operation _ hi := nomatch hi
  output _ h := nomatch h
  gives _ hi := nomatch hi

/-- Instructions that are bound like others are bound as soundly. -/
theorem of_alike (h : Binding table slotCount bound parameters output)
    (halike : List.Forall₂ Instruction.Alike instructions bound) :
    Binding table slotCount instructions parameters output := by
  have hmem : ∀ i ∈ instructions, ∃ j ∈ bound, i.Alike j := by
    intro i hi
    obtain ⟨index, hlt, rfl⟩ := List.mem_iff_getElem.1 hi
    have hlt' : index < bound.length := halike.length_eq ▸ hlt
    exact ⟨bound[index], List.getElem_mem hlt', halike.get hlt hlt'⟩
  -- what is said of instructions without their caches carries over
  have hkept : ∀ P : Instruction → Prop, (∀ i cache, P i → P { i with inputCache := cache }) →
      (∀ i ∈ bound, P i) → ∀ i ∈ instructions, P i := by
    intro P hcache hbound i hi
    obtain ⟨j, hj, hij⟩ := hmem i hi
    rw [hij.binding]
    exact hcache j _ (hbound j hj)
  exact {
    cache := fun i hi => by
      obtain ⟨j, hj, hij⟩ := hmem i hi
      rw [hij.length_eq, h.cache j hj, hij.binding]
    inputs := hkept _ (fun _ _ hp => hp) h.inputs
    outputs := hkept _ (fun _ _ hp => hp) h.outputs
    parameters := h.parameters
    operation := hkept _ (fun _ _ hp => hp) h.operation
    output := fun index hindex => halike.length_eq ▸ h.output index hindex
    gives := hkept _ (fun _ _ hp => hp) h.gives }

/-- Instructions that have run are bound as soundly as before. -/
theorem executeAll (h : Binding table slotCount instructions parameters output) (m : Memory) :
    Binding table slotCount (executeAll table instructions m).1 parameters output := by
  have hsame : List.Forall₂ Instruction.Alike instructions instructions :=
    List.forall₂_same.2 fun i _ => .refl i
  exact h.of_alike (executeAll_of_alike hsame (fun i hi => (h.cache i hi).symm) m).2

end Binding

/-- The program can be relied on. -/
def Program.Sound (p : Program) : Prop :=
  Binding p.table p.slotCount p.instructions p.parameters p.output

/-- An instruction of which the slots and the operation exist has no fault. -/
theorem Instruction.fault?_eq_none {i : Instruction} {table : Table} {slotCount index : Nat}
    (hcache : i.inputCache.length = i.inputSlots.length)
    (hslots : ∀ slot, some slot ∈ i.inputSlots ++ i.outputSlots → slot.index < slotCount)
    (hoperation : (table.get? i.opIndex).isSome) : i.fault? table slotCount index = none := by
  have hfound : (i.inputSlots ++ i.outputSlots).reduceOption.find? (slotCount ≤ ·.index) =
      none := by
    simp only [List.find?_eq_none, List.reduceOption_mem_iff, decide_eq_true_eq, Nat.not_le]
    exact hslots
  rw [fault?, if_neg (not_not.2 hcache.symm), hfound]
  simp only [Option.isNone_eq_false_iff.2 hoperation, Bool.false_eq_true, if_false]

/-- A sound program passes the check of bindings. -/
theorem Program.Sound.fault?_eq_none {p : Program} (h : p.Sound) : p.fault? = none := by
  simp only [fault?, Option.or_eq_none_iff, List.findSome?_eq_none_iff, Prod.forall,
    Option.bind_eq_none_iff, ite_eq_right_iff, reduceCtorEq, imp_false, Nat.not_le]
  refine ⟨fun i index hi => ?_, h.parameters, h.output⟩
  have hi : i ∈ p.instructions := List.fst_mem_of_mem_zipIdx hi
  obtain ⟨r, hr, -⟩ := h.operation i hi
  refine Instruction.fault?_eq_none (h.cache i hi) (fun slot hslot => ?_) (by rw [hr]; rfl)
  rcases List.mem_append.1 hslot with hinput | houtput
  · exact h.inputs i hi slot hinput
  · exact h.outputs i hi slot houtput

namespace Graph

variable {g : Graph} {table : Table} {p : Program}

namespace Compilation

variable {feeds : Feeds} {root : Key} {order : List Key} {last : Allocator OutputSocket}
  (h : g.Compilation table feeds root order last p)
include h

/-- The slots that instructions read exist. -/
theorem inputSlot_lt {i : Instruction} {slot : Slot} (hi : i ∈ p.instructions)
    (hslot : some slot ∈ i.inputSlots) : slot.index < p.slotCount := by
  obtain ⟨index, hslot⟩ := List.mem_iff_getElem?.1 hslot
  rcases h.inputSlot_cases hi hslot with
    ⟨w, -, -, before, producer, between, after, hsplit, -, hwritten, -⟩ | ⟨id, q, -, -, hq, rfl⟩
  · have hproducer : producer ∈ p.instructions := by rw [hsplit]; simp
    exact h.slot_lt_slotCount hproducer (List.mem_of_getElem? hwritten)
  · exact h.parameter_slot_lt (List.mem_of_find?_eq_some hq)

/-- Every instruction but the output has an output, which another one reads. -/
theorem outputSlots_pos {i : Instruction} (hi : i ∈ p.instructions) (hop : i.op ≠ .output) :
    0 < i.outputSlots.length := by
  obtain ⟨⟨sink, ⟨sinkNode, hsink, hsinkOp⟩, hreach⟩, n, hn⟩ := h.exists_node hi
  rw [(h.length_slots hi hn).2]
  rcases Relation.ReflTransGen.cases_tail hreach with heq | ⟨consumer, -, w, hw, -, hsource⟩
  · rw [heq, hsink] at hn
    cases hn
    exact absurd ((h.op_eq hi (heq ▸ hsink)).trans hsinkOp) hop
  · obtain ⟨producer, hproducer, hlt⟩ := (wire_of_feeds h.feeds_eq hw).source_lt
    rw [hsource, hn] at hproducer
    cases hproducer
    exact Nat.zero_lt_of_lt hlt

/-- The output is one of the instructions. -/
theorem output_lt (index : Nat) (hindex : p.output = some index) :
    index < p.instructions.length := by
  rw [h.output_eq, Option.some.injEq] at hindex
  have hpos := List.length_pos_iff.2 h.instructions_ne_nil
  omega

/-- The program is sound if its table is. -/
theorem sound (htable : table.Sound) : p.Sound where
  cache _ hi := (h.length_inputSlots hi).symm
  inputs _ hi _ hslot := h.inputSlot_lt hi hslot
  outputs _ hi _ hslot := h.slot_lt_slotCount hi hslot
  parameters _ hq := h.parameter_slot_lt hq
  operation i hi := h.table_eq ▸ htable i.op i.opIndex (h.resolve_op hi)
  output index hindex := h.output_lt index hindex
  gives _ hi hop := h.outputSlots_pos hi hop

end Compilation

/-- A program over a table that was built is sound. -/
theorem compile_sound (htable : table.Built) (h : g.compile table = .ok p) : p.Sound := by
  obtain ⟨feeds, root, order, last, hcompilation⟩ := compilation_of_ok h
  exact hcompilation.sound htable.sound

end Graph

end Dataflow
